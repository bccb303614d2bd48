import XVapor.Ext4File
import Mathlib.Data.List.TakeWhile
import Mathlib.Tactic.Ring

/-!
# Transfers in Pieces

A read or write of more than a page is done page by page through one kernel buffer. If the
user's buffer is mapped and memory is found, it does what one transfer does: `ext4_vfread`
reads a slice of the file, and `ext4_vwrite` splices the user's bytes into it, after zeros
from the cached size on.
-/

namespace XVapor.Ext4

variable {inode : List UInt8} {m : UserMem} {f : VFile} {dst src size k n : ℕ}

/-! ### User memory -/

namespace UserMem

theorem Maps.add (h : m.Maps dst (n + k)) : m.Maps (dst + n) k := by
  intro i hi
  rw [Nat.add_assoc]
  exact h (n + i) (by omega)

theorem Maps.mono (h : m.Maps dst n) (hk : k ≤ n) : m.Maps dst k :=
  fun i hi => h i (hi.trans_le hk)

@[simp]
theorem store_nil (addr : ℕ) : m.store addr [] = m := by
  ext a <;> simp [store]

theorem store_append (addr : ℕ) (d e : List UInt8) :
    m.store addr (d ++ e) = (m.store addr d).store (addr + d.length) e := by
  refine UserMem.ext (funext fun a => ?_) rfl
  simp only [store, List.getD_eq_getElem?_getD, List.getElem?_append]
  by_cases h : addr ≤ a
  · by_cases hd : a - addr < d.length
    · have hlt : ¬ addr + d.length ≤ a := by omega
      simp [h, hd, hlt]
    · have hle : addr + d.length ≤ a := by omega
      have hsub : a - addr - d.length = a - (addr + d.length) := by omega
      simp [h, hd, hle, hsub]
  · have hlt : ¬ addr + d.length ≤ a := by omega
    simp [h, hlt]

theorem copyout_eq {d : List UInt8} (h : m.Maps dst d.length) :
    m.copyout dst d = (true, m.store dst d) := by
  have hall : (List.range d.length).takeWhile (fun i => m.here (dst + i)) =
      List.range d.length :=
    List.takeWhile_eq_self_iff.2 fun i hi => h i (List.mem_range.1 hi)
  simp [copyout, hall]

@[simp]
theorem length_load : (m.load src n).length = n := by simp [load]

theorem load_add (src n k : ℕ) : m.load src (n + k) = m.load src n ++ m.load (src + n) k := by
  simp [load, List.range_add, Function.comp_def, Nat.add_assoc]

theorem copyin_eq (h : m.Maps src n) : m.copyin src n = some (m.load src n) := if_pos h

end UserMem

/-! ### Chunks -/

/-- How much of a transfer the first `k` chunks are. -/
def done (size k : ℕ) : ℕ := min (k * PGSIZE) size

theorem done_succ (hk : k * PGSIZE < size) :
    done size (k + 1) = done size k + chunk size (k * PGSIZE) ∧
      done size k = k * PGSIZE ∧ 0 < chunk size (k * PGSIZE) := by
  have hsucc : (k + 1) * PGSIZE = k * PGSIZE + PGSIZE := by ring
  have hpos : 0 < PGSIZE := by decide
  simp only [done, chunk, hsucc]
  split <;> omega

theorem lt_chunks (hk : k < (size + PGSIZE - 1) / PGSIZE) : k * PGSIZE < size := by
  have h : (k + 1) * PGSIZE ≤ size + PGSIZE - 1 :=
    (Nat.le_div_iff_mul_le (by decide : 0 < PGSIZE)).1 hk
  have hsucc : (k + 1) * PGSIZE = k * PGSIZE + PGSIZE := by ring
  have hpos : PGSIZE = 4096 := rfl
  omega

theorem done_chunks (size : ℕ) : done size ((size + PGSIZE - 1) / PGSIZE) = size := by
  have h := Nat.lt_div_mul_add (a := size + PGSIZE - 1) (by decide : 0 < PGSIZE)
  have hpos : PGSIZE = 4096 := rfl
  rw [done, Nat.min_eq_right]
  omega

theorem chunks_ne_zero (h : 0 < size) : (size + PGSIZE - 1) / PGSIZE ≠ 0 := by
  intro hzero
  have hdone := done_chunks size
  rw [hzero, done] at hdone
  omega

theorem foldlM_chunks_succ {ε β : Type} {g : β → ℕ → Except ε β} {b v w : β}
    (hv : ((List.range k).map (· * PGSIZE)).foldlM g b = .ok v) (hw : g v (k * PGSIZE) = .ok w) :
    ((List.range (k + 1)).map (· * PGSIZE)).foldlM g b = .ok w := by
  rw [List.range_succ, List.map_append, List.foldlM_append, hv]
  change (g v (k * PGSIZE) >>= fun v => pure v) = _
  rw [bind_pure, hw]

/-! ### Reads -/

variable {i off : ℕ}

theorem readChunk_eq {v : ReadLoop} {got : List UInt8}
    (hgot : slice inode v.efp.fpos (chunk size i) = got) (hpos : 0 < chunk size i)
    (hmap : v.mem.Maps (dst + i) got.length) :
    readChunk inode dst size v i = .ok ⟨⟨v.efp.fpos + got.length, inode.length⟩,
      v.mem.store (dst + i) got, got.length, v.nread + got.length⟩ := by
  simp [readChunk, ext4Fread, hpos.ne', hgot, UserMem.copyout_eq hmap]

/-- **The first chunks of a read are one read.** By induction on the number of chunks. -/
theorem readChunks_eq (inode : List UInt8) (e : Ext4File) (hmap : m.Maps dst size) :
    ∀ {k}, k ≤ (size + PGSIZE - 1) / PGSIZE → ∃ v,
      ((List.range k).map (· * PGSIZE)).foldlM (readChunk inode dst size) ⟨e, m, 0, 0⟩ =
        .ok v ∧
      v.mem = m.store dst (slice inode e.fpos (done size k)) ∧
      v.nread = (slice inode e.fpos (done size k)).length ∧
      v.efp = ⟨e.fpos + v.nread, if k = 0 then e.fsize else inode.length⟩
  | 0, _ => ⟨_, rfl, by simp [done], by simp [done], by simp⟩
  | k + 1, hk => by
      obtain ⟨hsucc, hdone, hpos⟩ := done_succ (lt_chunks hk)
      obtain ⟨v, hv, hmem, hread, hefp⟩ := readChunks_eq inode e hmap (Nat.le_of_succ_le hk)
      have hfpos : v.efp.fpos = e.fpos + v.nread := by rw [hefp]
      -- the chunk begins where the chunks before have stopped
      obtain ⟨got, hgot⟩ : ∃ got, slice inode v.efp.fpos (chunk size (k * PGSIZE)) = got :=
        ⟨_, rfl⟩
      have hat : got = slice inode (e.fpos + done size k) (chunk size (k * PGSIZE)) := by
        rw [← hgot, hfpos, hread, slice_add_length]
      have hcat : slice inode e.fpos (done size k) ++ got =
          slice inode e.fpos (done size (k + 1)) := by
        rw [hat, slice_append_slice, hsucc]
      have hle : done size k + chunk size (k * PGSIZE) ≤ size :=
        hsucc ▸ Nat.min_le_right _ _
      have hmaps : v.mem.Maps (dst + k * PGSIZE) got.length := by
        rw [hmem, ← hdone]
        exact (hmap.mono hle).add.mono (by simp [hat])
      -- the kernel page is copied behind what the chunks before have copied, unless they
      -- have come to the end of the file, and then it is empty
      have hstore : v.mem.store (dst + k * PGSIZE) got =
          m.store dst (slice inode e.fpos (done size (k + 1))) := by
        rw [hmem, ← hcat, UserMem.store_append]
        by_cases hfull : (slice inode e.fpos (done size k)).length = done size k
        · rw [hfull, hdone]
        have hnil : got = [] := by
          rw [length_slice] at hfull
          rw [hat]
          exact slice_eq_nil.2 (.inr (by omega))
        rw [hnil, UserMem.store_nil, UserMem.store_nil]
      refine ⟨_, foldlM_chunks_succ hv (readChunk_eq hgot hpos hmaps), hstore, ?_, ?_⟩
      · change v.nread + got.length = _
        rw [← hcat, List.length_append, hread]
      · rw [if_neg (Nat.succ_ne_zero k), hfpos, Nat.add_assoc]

/-- **A read at an offset that is not past the cached size** reads a slice. -/
theorem ext4Vfread_eq (hoff : off ≤ f.efp.fsize) (hmap : m.Maps dst size) :
    ext4Vfread inode m f true dst off size =
      ⟨EOK, (slice inode off size).length, m.store dst (slice inode off size),
        { f with
          fpos := off + (slice inode off size).length
          efp := ⟨off + (slice inode off size).length,
            if size = 0 then f.efp.fsize else inode.length⟩ }⟩ := by
  have hcond : ¬ ((off : ℤ) < 0 ∨ (f.efp.fsize : ℤ) < off) := by omega
  have hseek : ext4Fseek f.efp off = some ⟨off, f.efp.fsize⟩ := by
    simp [ext4Fseek]
  have hmaps : m.Maps dst (slice inode off size).length := hmap.mono (by simp)
  rw [ext4Vfread, if_neg hcond, hseek]
  by_cases hsmall : size ≤ PGSIZE
  · obtain rfl | hzero := eq_or_ne size 0
    · simp [ext4Fread, UserMem.copyout, PGSIZE]
    · simp [hsmall, ext4Fread, hzero, UserMem.copyout_eq hmaps]
  obtain ⟨v, hv, hmem, hread, hefp⟩ := readChunks_eq inode ⟨off, f.efp.fsize⟩ hmap le_rfl
  rw [done_chunks] at hmem hread
  have hzero : size ≠ 0 := by
    rintro rfl
    exact hsmall (Nat.zero_le _)
  rw [if_neg (chunks_ne_zero (Nat.pos_of_ne_zero hzero))] at hefp
  simp [hsmall, chunks, hv, hmem, hefp, hread, hzero]

/-! ### Writes -/

theorem writeChunk_eq {v : WriteLoop} (hpos : 0 < chunk size i)
    (hmap : m.Maps (src + i) (chunk size i)) :
    writeChunk m src size v i = .ok ⟨⟨v.efp.fpos + chunk size i,
      max v.inode.length (v.efp.fpos + chunk size i)⟩,
      splice 0 v.inode v.efp.fpos (m.load (src + i) (chunk size i)), chunk size i,
      v.nwritten + chunk size i⟩ := by
  have hne : m.load (src + i) (chunk size i) ≠ [] := by
    rw [← List.length_pos_iff, UserMem.length_load]
    exact hpos
  simp [writeChunk, UserMem.copyin_eq hmap, ext4Fwrite, hne]

/-- **The first chunks of a write are one write.** -/
theorem writeChunks_eq (inode : List UInt8) (e : Ext4File) (hmap : m.Maps src size)
    (he : e.fpos ≤ inode.length) :
    ∀ {k}, k ≤ (size + PGSIZE - 1) / PGSIZE → ∃ v,
      ((List.range k).map (· * PGSIZE)).foldlM (writeChunk m src size) ⟨e, inode, 0, 0⟩ =
        .ok v ∧
      v.inode = splice 0 inode e.fpos (m.load src (done size k)) ∧
      v.nwritten = done size k ∧
      v.efp = ⟨e.fpos + done size k,
        if k = 0 then e.fsize else max inode.length (e.fpos + done size k)⟩
  | 0, _ => by
      refine ⟨_, rfl, ?_, by simp [done], by simp [done]⟩
      simp [done, UserMem.load, splice_nil he]
  | k + 1, hk => by
      obtain ⟨hsucc, hdone, hpos⟩ := done_succ (lt_chunks hk)
      obtain ⟨v, hv, hinode, hwritten, hefp⟩ :=
        writeChunks_eq inode e hmap he (Nat.le_of_succ_le hk)
      have hfpos : v.efp.fpos = e.fpos + done size k := by rw [hefp]
      have hle : done size k + chunk size (k * PGSIZE) ≤ size :=
        hsucc ▸ Nat.min_le_right _ _
      have hmaps : m.Maps (src + k * PGSIZE) (chunk size (k * PGSIZE)) := by
        rw [← hdone] at hle ⊢
        exact (hmap.mono hle).add
      refine ⟨_, foldlM_chunks_succ hv (writeChunk_eq hpos hmaps), ?_, ?_, ?_⟩
      · change splice 0 v.inode v.efp.fpos _ = _
        have hcat := splice_splice_append 0 inode e.fpos (m.load src (done size k))
          (m.load (src + done size k) (chunk size (k * PGSIZE)))
        rw [UserMem.length_load, ← UserMem.load_add, ← hsucc] at hcat
        rw [hinode, hfpos, ← hcat, hdone]
      · change v.nwritten + _ = _
        rw [hwritten, hsucc]
      · rw [if_neg (Nat.succ_ne_zero k), hfpos, hinode, length_splice, UserMem.length_load,
          hsucc, Ext4File.mk.injEq]
        constructor
        · omega
        · omega

variable {inode' : List UInt8} {e : Ext4File}

theorem ext4Vwrite_of_zeroFill
    (hfill : zeroFill inode f.efp true off = .ok (inode', e)) (hoff : off ≤ inode'.length)
    (hmap : m.Maps src size) :
    ext4Vwrite inode m f true true src off size =
      ⟨EOK, size, splice 0 inode' off (m.load src size),
        { f with
          fpos := off + size
          efp := ⟨off + size,
            if size = 0 then e.fsize else max inode'.length (off + size)⟩ }⟩ := by
  have hseek : ext4Fseek e off = some ⟨off, e.fsize⟩ := by simp [ext4Fseek]
  simp only [ext4Vwrite, hfill, hseek]
  obtain rfl | hzero := eq_or_ne size 0
  · have hload : m.load src 0 = [] := rfl
    simp [UserMem.copyin_eq hmap, hload, ext4Fwrite, splice_nil hoff]
  have hne : m.load src size ≠ [] := by
    rw [← List.length_pos_iff, UserMem.length_load]
    exact Nat.pos_of_ne_zero hzero
  by_cases hsmall : size ≤ PGSIZE
  · simp [hsmall, UserMem.copyin_eq hmap, ext4Fwrite, hne, hzero]
  · obtain ⟨v, hv, hinode, hwritten, hefp⟩ := writeChunks_eq inode' ⟨off, e.fsize⟩ hmap hoff le_rfl
    rw [done_chunks] at hinode hwritten hefp
    rw [if_neg (chunks_ne_zero (Nat.pos_of_ne_zero hzero))] at hefp
    simp [hsmall, chunks, hv, hinode, hwritten, hefp, hzero]

/-- **Zeros are written from the cached size on**, up to the offset. -/
theorem zeroFill_eq (inode : List UInt8) (hlt : e.fsize < off) (hpage : off - e.fsize ≤ PGSIZE) :
    zeroFill inode e true off =
      .ok (splice 0 inode e.fsize (List.replicate (off - e.fsize) 0),
        ⟨off, max inode.length off⟩) := by
  have hne : List.replicate (off - e.fsize) (0 : UInt8) ≠ [] := by
    rw [ne_eq, List.replicate_eq_nil_iff]
    omega
  have hadd : e.fsize + (off - e.fsize) = off := by omega
  simp [zeroFill, hlt, Nat.not_lt.2 hpage, ext4Fwrite, hne, hadd]

/-! ### The calls -/

variable {D : Type} [DecidableEq D] {s : FState D} {d : D}

theorem fileread_eq (hr : f.isReadable = true) (hoff : off ≤ f.efp.fsize)
    (hmap : s.mem.Maps dst n) :
    fileread s d f true dst n off =
      (((slice s.inode off n).length : ℤ),
        { s with mem := s.mem.store dst (slice s.inode off n) }.setFile d { f with
          fpos := off + (slice s.inode off n).length
          efp := ⟨off + (slice s.inode off n).length,
            if n = 0 then f.efp.fsize else s.inode.length⟩ }) := by
  rw [fileread, if_pos hr, ext4Vfread_eq hoff hmap]

theorem fileread_past {off : ℤ} (hr : f.isReadable = true)
    (hoff : off < 0 ∨ (f.efp.fsize : ℤ) < off) :
    fileread s d f true dst n off = (0, s.setFile d f) := by
  rw [fileread, if_pos hr, ext4Vfread, if_pos hoff]
  rfl

/-- What a write returns: a write of no bytes is taken for a failed one. -/
def written (n : ℕ) : ℤ := if 0 < n then n else -1

section

variable (hw : f.isWritable = true)
include hw

theorem filewrite_of_zeroFill
    (hfill : zeroFill s.inode f.efp true off = .ok (inode', e))
    (hoff : off ≤ inode'.length) (hmap : s.mem.Maps src n) :
    filewrite s d f true true src n off =
      (written n, { s with inode := splice 0 inode' off (s.mem.load src n) }.setFile d
        { f with
          fpos := off + n
          efp := ⟨off + n, if n = 0 then e.fsize else max inode'.length (off + n)⟩ }) := by
  rw [filewrite, if_pos hw, ext4Vwrite_of_zeroFill hfill hoff hmap]
  rfl

theorem filewrite_of_le (hoff : off ≤ f.efp.fsize)
    (hsize : f.efp.fsize ≤ s.inode.length) (hmap : s.mem.Maps src n) :
    filewrite s d f true true src n off =
      (written n, { s with inode := splice 0 s.inode off (s.mem.load src n) }.setFile d
        { f with
          fpos := off + n
          efp := ⟨off + n, if n = 0 then f.efp.fsize else max s.inode.length (off + n)⟩ }) :=
  filewrite_of_zeroFill hw (if_neg (not_lt.2 hoff)) (hoff.trans hsize) hmap

theorem filewrite_gap (hlt : f.efp.fsize < off)
    (hpage : off - f.efp.fsize ≤ PGSIZE) (hmap : s.mem.Maps src n) :
    filewrite s d f true true src n off =
      (written n, { s with inode := splice 0 (splice 0 s.inode f.efp.fsize
          (List.replicate (off - f.efp.fsize) 0)) off (s.mem.load src n) }.setFile d
        { f with
          fpos := off + n
          efp := ⟨off + n, max s.inode.length (off + n)⟩ }) := by
  have hlen : (splice 0 s.inode f.efp.fsize
      (List.replicate (off - f.efp.fsize) 0)).length = max s.inode.length off := by
    rw [length_splice, List.length_replicate]
    omega
  have hsize : (if n = 0 then max s.inode.length off
      else max (max s.inode.length off) (off + n)) = max s.inode.length (off + n) := by
    split <;> omega
  rw [filewrite_of_zeroFill hw (zeroFill_eq s.inode hlt hpage) (by omega) hmap, hlen, hsize]

/-- `filewrite` past the cached size, by more than a page, gives up. -/
theorem filewrite_far (hpage : PGSIZE < off - f.efp.fsize) :
    filewrite s d f true true src n off =
      (-1, s.setFile d { f with efp := { f.efp with fpos := f.efp.fsize } }) := by
  have hlt : f.efp.fsize < off := by omega
  have hfill : zeroFill s.inode f.efp true off =
      .error (-1, { f.efp with fpos := f.efp.fsize }) := by
    rw [zeroFill, if_pos hlt]
    exact if_pos hpage
  rw [filewrite, if_pos hw, ext4Vwrite, hfill]
  rfl

end

theorem sysLseek_eq (hf : s.file d = some f) (off : ℕ) :
    sysLseek s d off = ((off : ℤ), s.setFile d { f with
      fpos := off, efp := { f.efp with fpos := off } }) := by
  have hoff : ¬ (off : ℤ) < 0 := by omega
  simp [sysLseek, hf, ext4Vlseek, ext4Fseek, hoff]

@[simp]
theorem setFile_file (s : FState D) (d : D) (f : VFile) : (s.setFile d f).file d = some f :=
  Function.update_self ..

@[simp]
theorem setFile_setFile (s : FState D) (d : D) (f f' : VFile) :
    (s.setFile d f).setFile d f' = s.setFile d f' := by
  simp [FState.setFile]

/-- `sys_pread64` is the read, with the position put back. -/
theorem sysPread64_eq (hf : s.file d = some f) {off r : ℤ} {s' : FState D} {f' : VFile}
    (hread : fileread s d f true dst n off = (r, s'.setFile d f')) :
    sysPread64 s d true dst n off = (r, s'.setFile d { f' with
      fpos := f.fpos, efp := { f'.efp with fpos := f.fpos } }) := by
  have hseek := sysLseek_eq (setFile_file s' d f') f.fpos
  rw [setFile_setFile] at hseek
  simp only [sysPread64, hf, hread, hseek]
  rw [if_neg (by omega)]

end XVapor.Ext4
