import XVapor.FileTransfer
import XVapor.Machine

/-!
# Several Descriptors of One File

Every open file caches the size of the file, and only its own reads and writes bring the
cached size up to date. `ext4_vfread` takes an offset past the cached size for one past the
end, and `ext4_vwrite` fills with zeros from the cached size on. If another descriptor has
extended the file in between, a read returns nothing where there are bytes, and a write puts
zeros over them.

The machine has any number of open files of one regular file. Its calls have mapped buffers,
find the memory they ask for, and go through files opened for them; writes begin at most a
page past the end of the file.

## Main results

* `coherent_iff_fresh`: a run is coherent **if and only if** each of its calls finds the
  cached size fresh enough.
-/

namespace XVapor.Ext4

variable {D : Type} [DecidableEq D]

/-! ### The machine -/

/-- The actions on the file: a descriptor is opened, or used. -/
inductive FileAct (D : Type)
  | opn (d : D) (flags : BitVec 32)
  | call (d : D) (op : FileOp)
  deriving DecidableEq, Repr

/-- The calls considered. The file is opened for them, the buffer is mapped, and a write does
not begin more than a page past the end of the file. -/
def Allowed (s : FState D) (f : VFile) : FileOp → Prop
  | .read dst n => f.isReadable = true ∧ n < 2 ^ 31 ∧ s.mem.Maps dst n
  | .write src n =>
    f.isWritable = true ∧ n < 2 ^ 31 ∧ s.mem.Maps src n ∧ f.fpos ≤ s.inode.length + PGSIZE
  | .pread dst n _ => f.isReadable = true ∧ n < 2 ^ 31 ∧ s.mem.Maps dst n
  | .lseek _ => True

omit [DecidableEq D] in
instance (s : FState D) (f : VFile) : ∀ op, Decidable (Allowed s f op)
  | .read dst n => inferInstanceAs (Decidable (_ ∧ n < 2 ^ 31 ∧ s.mem.Maps dst n))
  | .write src n => inferInstanceAs (Decidable (_ ∧ n < 2 ^ 31 ∧ s.mem.Maps src n ∧ _))
  | .pread dst n _ => inferInstanceAs (Decidable (_ ∧ n < 2 ^ 31 ∧ s.mem.Maps dst n))
  | .lseek _ => .isTrue trivial

/-- One action. The access mode 3 is none that `open` defines. -/
def fileStep (s : FState D) : FileAct D → Option (FState D)
  | .opn d flags =>
    if s.file d = none ∧ flags &&& 3 ≠ 3 then some (ext4Vfopen s d flags) else none
  | .call d op =>
    match s.file d with
    | none => none
    | some f => if Allowed s f op then some (fileOp s d op).2 else none

/-- The file before it is opened. -/
def unopened (inode : List UInt8) (m : UserMem) : FState D := ⟨inode, m, fun _ => none⟩

/-- The machine of the open files of one file. -/
def fileMachine : Machine (FState D) (FileAct D) where
  init s := ∃ inode m, s = unopened inode m
  step := fileStep

/-! ### Coherence -/

/-- The bytes of the file at an offset; there are none before its beginning. -/
def bytesAt (inode : List UInt8) (off : ℤ) (n : ℕ) : List UInt8 :=
  if off < 0 then [] else slice inode off.toNat n

/-- A read returns, and stores, the bytes of the current file at its offset. -/
def ReadsAt (s : FState D) (off : ℤ) (dst n : ℕ) (res : ℤ × FState D) : Prop :=
  res.1 = (bytesAt s.inode off n).length ∧
    res.2.mem = s.mem.store dst (bytesAt s.inode off n) ∧ res.2.inode = s.inode

/-- A write changes nothing outside its window, except for zeros between the end of the file
and the offset. -/
def WritesAt (inode inode' : List UInt8) (off n : ℕ) : Prop :=
  ∀ i, ¬ (off ≤ i ∧ i < off + n) →
    inode'[i]? = inode[i]? ∨ inode.length ≤ i ∧ i < off ∧ inode'[i]? = some 0

/-- **Coherence of one call**: its open file behaves like the current file. -/
def CallCoherent (s : FState D) (d : D) (f : VFile) : FileOp → Prop
  | .read dst n => ReadsAt s f.fpos dst n (fileOp s d (.read dst n))
  | .write src n => WritesAt s.inode (fileOp s d (.write src n)).2.inode f.fpos n
  | .pread dst n off => ReadsAt s off dst n (fileOp s d (.pread dst n off))
  | .lseek off => (fileOp s d (.lseek off)).2.inode = s.inode

def Coherent (s : FState D) : FileAct D → Prop
  | .opn _ _ => True
  | .call d op => ∀ f, s.file d = some f → Allowed s f op → CallCoherent s d f op

/-- The cached size is fresh enough for a read: the offset is not past it, or past the end of
the file as well. -/
def FreshRead (inode : List UInt8) (fsize : ℕ) (off : ℤ) (n : ℕ) : Prop :=
  off ≤ fsize ∨ (inode.length : ℤ) ≤ off ∨ n = 0

/-- The cached size is fresh enough for a write: the offset is not past it, or so far past it
that the write gives up, or what is between it and the offset is zero. -/
def FreshWrite (inode : List UInt8) (fsize off : ℕ) : Prop :=
  off ≤ fsize ∨ PGSIZE < off - fsize ∨
    ∀ i, fsize ≤ i → i < off → i < inode.length → inode[i]? = some 0

/-- **The condition on one call.** -/
def Fresh (s : FState D) : FileAct D → Prop
  | .opn _ _ => True
  | .call d op => ∀ f, s.file d = some f → Allowed s f op →
      match op with
      | .read _ n => FreshRead s.inode f.efp.fsize f.fpos n
      | .write _ _ => FreshWrite s.inode f.efp.fsize f.fpos
      | .pread _ n off => FreshRead s.inode f.efp.fsize off n
      | .lseek _ => True

/-! ### One call -/

variable {s : FState D} {d : D} {f : VFile} {dst src n : ℕ}

variable {off : ℤ}

theorem bytesAt_eq_nil {inode : List UInt8} :
    bytesAt inode off n = [] ↔ off < 0 ∨ (inode.length : ℤ) ≤ off ∨ n = 0 := by
  by_cases hneg : off < 0
  · simp [bytesAt, hneg]
  · rw [bytesAt, if_neg hneg, slice_eq_nil]
    omega

theorem readsAt_nothing :
    ReadsAt s off dst n (0, s.setFile d f) ↔ bytesAt s.inode off n = [] := by
  constructor
  · rintro ⟨hlen, -⟩
    exact List.eq_nil_of_length_eq_zero (Int.natCast_eq_zero.1 hlen.symm)
  · intro h
    rw [ReadsAt, h, UserMem.store_nil]
    exact ⟨rfl, rfl, rfl⟩

/-- **A read is coherent if and only if the cached size is fresh enough.** -/
theorem reads_iff (hr : f.isReadable = true) (hmap : s.mem.Maps dst n) (off : ℤ) :
    ReadsAt s off dst n (fileread s d f true dst n off) ↔
      FreshRead s.inode f.efp.fsize off n := by
  by_cases hpast : off < 0 ∨ (f.efp.fsize : ℤ) < off
  · rw [fileread_past hr hpast, readsAt_nothing, bytesAt_eq_nil, FreshRead]
    omega
  obtain ⟨off, rfl⟩ := Int.eq_ofNat_of_zero_le (by omega : 0 ≤ off)
  have hbytes : bytesAt s.inode off n = slice s.inode off n := by
    rw [bytesAt, if_neg (by omega), Int.toNat_natCast]
  rw [fileread_eq hr (by omega) hmap, ReadsAt, hbytes, FreshRead]
  exact iff_of_true ⟨rfl, rfl, rfl⟩ (.inl (by omega))

theorem writesAt_splice (inode : List UInt8) (off : ℕ) (b : List UInt8) :
    WritesAt inode (splice 0 inode off b) off b.length := by
  intro i hi
  rw [getElem?_splice]
  by_cases hlt : i < off
  · rw [if_pos hlt]
    by_cases hlen : i < inode.length
    · exact .inl (if_pos hlen)
    · exact .inr ⟨not_lt.1 hlen, hlt, if_neg hlen⟩
  · rw [if_neg hlt, if_neg (fun h => hi ⟨not_lt.1 hlt, h⟩)]
    exact .inl rfl

/-- **A write is coherent if and only if the cached size is fresh enough.** -/
theorem writes_iff (hw : f.isWritable = true) (hsize : f.efp.fsize ≤ s.inode.length)
    (hmap : s.mem.Maps src n) (off : ℕ) :
    WritesAt s.inode (filewrite s d f true true src n off).2.inode off n ↔
      FreshWrite s.inode f.efp.fsize off := by
  have hsplice := writesAt_splice s.inode off (s.mem.load src n)
  rw [UserMem.length_load] at hsplice
  by_cases hoff : off ≤ f.efp.fsize
  · rw [filewrite_of_le hw hoff hsize hmap]
    exact iff_of_true hsplice (.inl hoff)
  by_cases hfar : PGSIZE < off - f.efp.fsize
  · rw [filewrite_far hw hfar]
    exact iff_of_true (fun _ _ => .inl rfl) (.inr (.inl hfar))
  have hzero : FreshWrite s.inode f.efp.fsize off ↔ ∀ i, f.efp.fsize ≤ i → i < off →
      i < s.inode.length → s.inode[i]? = some 0 := by
    simp [FreshWrite, hoff, hfar]
  rw [filewrite_gap hw (by omega) (by omega) hmap, hzero]
  constructor
  · -- a byte between the cached size and the offset is zero after the write
    intro h i hci hio hil
    have hnew : (splice 0 (splice 0 s.inode f.efp.fsize
        (List.replicate (off - f.efp.fsize) 0)) off (s.mem.load src n))[i]? = some 0 := by
      simp only [getElem?_splice, length_splice, List.length_replicate,
        List.getElem?_replicate]
      grind
    obtain hold | ⟨hle, -⟩ := h i (by omega)
    · exact hold ▸ hnew
    · omega
  · intro h
    have hfill := (splice_fill_iff 0 s.inode (s.mem.load src n)
      (by omega : f.efp.fsize ≤ off)).2 h
    exact hfill.symm ▸ hsplice

theorem fileOp_eq (hf : s.file d = some f) (op : FileOp) : fileOp s d op =
    match op with
    | .read dst n => fileread s d f true dst n f.fpos
    | .write src n => filewrite s d f true true src n f.fpos
    | .pread dst n off => sysPread64 s d true dst n off
    | .lseek off => sysLseek s d off := by
  cases op with
  | read dst n => rw [fileOp, sysRead, hf]
  | write src n => rw [fileOp, sysWrite, hf]
  | pread dst n off => rfl
  | lseek off => rfl

/-- What a read leaves behind: memory, and a file with a cached size that is the old one or
the size. -/
theorem fileread_eq_setFile (hr : f.isReadable = true) (hmap : s.mem.Maps dst n) (off : ℤ) :
    ∃ r m f', fileread s d f true dst n off = (r, { s with mem := m }.setFile d f') ∧
      (f'.efp.fsize = f.efp.fsize ∨ f'.efp.fsize = s.inode.length) := by
  by_cases hpast : off < 0 ∨ (f.efp.fsize : ℤ) < off
  · exact ⟨0, s.mem, f, fileread_past hr hpast, .inl rfl⟩
  obtain ⟨off, rfl⟩ := Int.eq_ofNat_of_zero_le (by omega : 0 ≤ off)
  refine ⟨_, _, _, fileread_eq hr (by omega) hmap, ?_⟩
  by_cases hn : n = 0
  · exact .inl (if_pos hn)
  · exact .inr (if_neg hn)

theorem sysLseek_eq_setFile (hf : s.file d = some f) (off : ℤ) :
    ∃ r f', sysLseek s d off = (r, s.setFile d f') ∧ f'.efp.fsize = f.efp.fsize := by
  by_cases hneg : off < 0
  · exact ⟨-EINVAL, f, by simp [sysLseek, hf, ext4Vlseek, ext4Fseek, hneg], rfl⟩
  · obtain ⟨off, rfl⟩ := Int.eq_ofNat_of_zero_le (not_lt.1 hneg)
    exact ⟨_, _, sysLseek_eq hf off, rfl⟩

/-! ### Runs -/

/-- **No cached size is more than the size**: there is no truncation. -/
def Cached (s : FState D) : Prop :=
  ∀ d f, s.file d = some f → f.efp.fsize ≤ s.inode.length

variable {s' : FState D}

theorem Cached.setFile (h : Cached s) {f' : VFile} (hfile : s'.file = s.file)
    (hgrow : s.inode.length ≤ s'.inode.length) (hf' : f'.efp.fsize ≤ s'.inode.length) :
    Cached (s'.setFile d f') := by
  intro e g hg
  simp only [FState.setFile, hfile, Function.update_apply] at hg
  split at hg
  · cases hg
    exact hf'
  · exact (h e g hg).trans hgrow

theorem Cached.filewrite (h : Cached s) (hf : s.file d = some f) (hw : f.isWritable = true)
    (hmap : s.mem.Maps src n) (off : ℕ) :
    Cached (filewrite s d f true true src n off).2 := by
  have hsize := h d f hf
  by_cases hoff : off ≤ f.efp.fsize
  · rw [filewrite_of_le hw hoff hsize hmap]
    refine h.setFile rfl ?_ ?_
    · change s.inode.length ≤ (splice 0 s.inode off (s.mem.load src n)).length
      rw [length_splice]
      omega
    · change (if n = 0 then f.efp.fsize else max s.inode.length (off + n)) ≤
        (splice 0 s.inode off (s.mem.load src n)).length
      rw [length_splice, UserMem.length_load]
      split <;> omega
  by_cases hfar : PGSIZE < off - f.efp.fsize
  · rw [filewrite_far hw hfar]
    exact h.setFile rfl le_rfl hsize
  rw [filewrite_gap hw (by omega) (by omega) hmap]
  refine h.setFile rfl ?_ ?_
  · simp only [length_splice, List.length_replicate]
    omega
  · simp only [length_splice, List.length_replicate, UserMem.length_load]
    omega

theorem Cached.step (h : Cached s) {a : FileAct D} (hstep : fileStep s a = some s') : Cached s' := by
  cases a with
  | opn d flags =>
    simp only [fileStep, Option.ite_none_right_eq_some, Option.some.injEq] at hstep
    obtain ⟨-, rfl⟩ := hstep
    exact h.setFile rfl le_rfl le_rfl
  | call d op =>
    simp only [fileStep] at hstep
    rcases hf : s.file d with _ | f
    · simp [hf] at hstep
    have hsize := h d f hf
    simp only [hf, Option.ite_none_right_eq_some, Option.some.injEq] at hstep
    obtain ⟨hallowed, rfl⟩ := hstep
    rw [fileOp_eq hf]
    cases op with
    | read dst n =>
      obtain ⟨hr, -, hmap⟩ := hallowed
      obtain ⟨r, m, f', hres, hf'⟩ := fileread_eq_setFile (d := d) hr hmap f.fpos
      simp only [hres]
      exact h.setFile rfl le_rfl (hf'.elim (·.trans_le hsize) (·.le))
    | write src n =>
      obtain ⟨hw, -, hmap, -⟩ := hallowed
      exact h.filewrite hf hw hmap f.fpos
    | pread dst n off =>
      obtain ⟨hr, -, hmap⟩ := hallowed
      obtain ⟨r, m, f', hres, hf'⟩ := fileread_eq_setFile (d := d) hr hmap off
      simp only [sysPread64_eq hf hres]
      exact h.setFile rfl le_rfl (hf'.elim (·.trans_le hsize) (·.le))
    | lseek off =>
      obtain ⟨r, f', hres, hf'⟩ := sysLseek_eq_setFile hf off
      simp only [hres]
      exact h.setFile rfl le_rfl (hf'.trans_le hsize)

/-- **One action is coherent if and only if the cached size is fresh enough.** -/
theorem coherent_iff (h : Cached s) (a : FileAct D) : Coherent s a ↔ Fresh s a := by
  cases a with
  | opn d flags => rfl
  | call d op =>
    refine forall_congr' fun f => forall₂_congr fun hf hallowed => ?_
    cases op with
    | read dst n =>
      rw [CallCoherent, fileOp_eq hf]
      exact reads_iff hallowed.1 hallowed.2.2 _
    | write src n =>
      rw [CallCoherent, fileOp_eq hf]
      exact writes_iff hallowed.1 (h d f hf) hallowed.2.2.1 _
    | pread dst n off =>
      -- the seek back changes neither what was read nor the memory
      obtain ⟨r, m, f', hres, -⟩ :=
        fileread_eq_setFile (d := d) hallowed.1 hallowed.2.2 off
      have hiff := reads_iff (d := d) hallowed.1 hallowed.2.2 off
      rw [hres] at hiff
      simp only [CallCoherent, fileOp_eq hf, sysPread64_eq hf hres]
      exact hiff
    | lseek off =>
      obtain ⟨r, f', hres, -⟩ := sysLseek_eq_setFile hf off
      rw [CallCoherent, fileOp_eq hf]
      simp only [hres]
      exact iff_of_true rfl trivial

/-- **A run is coherent if and only if each of its calls finds the cached size fresh
enough**, for every file, any number of descriptors, and every sequence of opens, reads,
writes, preads and seeks. -/
theorem coherent_iff_fresh (inode : List UInt8) (m : UserMem) (as : List (FileAct D)) :
    fileMachine.Along Coherent (unopened inode m) as ↔
      fileMachine.Along Fresh (unopened inode m) as :=
  Machine.along_iff_along (fun _ a hs => coherent_iff hs a)
    (fun _ _ _ hs _ hstep => hs.step hstep) (by simp [Cached, unopened])

/-- **The descriptors are not coherent.** Two descriptors are opened on an empty file, and two
bytes are written through the second. At offset 1 a read through the first returns nothing,
and a write through it destroys the byte at offset 0. -/
theorem coherence_fails :
    ∃ s : FState Bool, fileMachine.exec (unopened [] ⟨fun _ => 1, fun _ => true⟩)
        [.opn false 2, .opn true 2, .call true (.write 0 2), .call false (.lseek 1)] = some s ∧
      s.inode = [1, 1] ∧
      (fileOp s false (.read 0 1)).1 = 0 ∧ ¬ Coherent s (.call false (.read 0 1)) ∧
      (fileOp s false (.write 0 1)).2.inode = [0, 1] ∧
      ¬ Coherent s (.call false (.write 0 1)) := by
  have hrun : fileMachine.exec (unopened (D := Bool) [] ⟨fun _ => 1, fun _ => true⟩)
      [.opn false 2, .opn true 2, .call true (.write 0 2), .call false (.lseek 1)] =
      some _ := rfl
  refine ⟨_, hrun, rfl, rfl, fun h => ?_, rfl, fun h => ?_⟩
  · have hread := (h _ rfl ⟨rfl, by decide, fun _ _ => rfl⟩).1
    exact absurd hread (by decide)
  · have hwrite := h _ rfl ⟨rfl, by decide, fun _ _ => rfl, by decide⟩ 0 (by decide)
    exact absurd hwrite (by decide)

end XVapor.Ext4
