import XVapor.FileTransfer

/-!
# One Descriptor is a Byte Array with a Cursor

What a regular file that is opened once is for its user: a list of bytes and one position.
The calls keep two positions and a cached size, have one path for a page or less and one for
more, and fill a gap before they write; none of this can be seen as long as the buffers are
mapped, memory is found, and no write begins more than a page past the end.

## Main results

* `file_refines_cursor`: in every sequence of calls that meets these conditions, the results, the
  contents and the position are those of the byte array.
-/

namespace XVapor.Ext4

/-- **A byte array with a cursor**, and the memory of its user. -/
structure CursorFile where
  bytes : List UInt8
  cursor : ℕ
  mem : UserMem

/-- A call on a byte array. -/
def CursorFile.op (c : CursorFile) : FileOp → ℤ × CursorFile
  | .read dst n =>
    ((min n (c.bytes.length - c.cursor) : ℕ), { c with
      cursor := c.cursor + min n (c.bytes.length - c.cursor)
      mem := c.mem.store dst (slice c.bytes c.cursor n) })
  | .write src n =>
    (n, { c with
      bytes := splice 0 c.bytes c.cursor (c.mem.load src n)
      cursor := c.cursor + n })
  | .pread dst n off =>
    if off < 0 then (0, c)
    else ((min n (c.bytes.length - off.toNat) : ℕ), { c with
      mem := c.mem.store dst (slice c.bytes off.toNat n) })
  | .lseek off => if off < 0 then (-EINVAL, c) else (off, { c with cursor := off.toNat })

/-- The calls considered: the buffer is mapped, its length is an `int`, and a write is not
empty and does not begin more than a page past the end. -/
def CursorFile.Fits (c : CursorFile) : FileOp → Prop
  | .read dst n => n < 2 ^ 31 ∧ c.mem.Maps dst n
  | .write src n =>
    0 < n ∧ n < 2 ^ 31 ∧ c.mem.Maps src n ∧ c.cursor ≤ c.bytes.length + PGSIZE
  | .pread dst n _ => n < 2 ^ 31 ∧ c.mem.Maps dst n
  | .lseek _ => True

/-- Every call of a sequence is one of those. -/
def CursorFile.FitsAlong : CursorFile → List FileOp → Prop
  | _, [] => True
  | c, op :: ops => c.Fits op ∧ FitsAlong (c.op op).2 ops

/-- Run a sequence of calls, and collect what they return. -/
def runOps {σ : Type} (call : σ → FileOp → ℤ × σ) : σ → List FileOp → List ℤ × σ
  | s, [] => ([], s)
  | s, op :: ops =>
    let (r, s) := call s op
    let (rs, s) := runOps call s ops
    (r :: rs, s)

/-! ### The simulation -/

variable {D : Type} [DecidableEq D] {c : CursorFile} {s : FState D} {d : D}

omit [DecidableEq D] in
/-- The open file `d` stands for the byte array: the position of the `struct file` is the
cursor, and the cached size is the size. -/
structure Sim (d : D) (c : CursorFile) (s : FState D) : Prop where
  inode : s.inode = c.bytes
  mem : s.mem = c.mem
  file : ∃ f, s.file d = some f ∧ f.fpos = c.cursor ∧ f.efp.fsize = c.bytes.length ∧
    f.isReadable = true ∧ f.isWritable = true

variable {f : VFile}

theorem Sim.setFile (hinode : s.inode = c.bytes) (hmem : s.mem = c.mem)
    (hpos : f.fpos = c.cursor) (hsize : f.efp.fsize = c.bytes.length)
    (hr : f.isReadable = true) (hw : f.isWritable = true) : Sim d c (s.setFile d f) :=
  ⟨hinode, hmem, f, Function.update_self .., hpos, hsize, hr, hw⟩

variable {dst n : ℕ}

theorem fileread_sized (hsize : f.efp.fsize = s.inode.length)
    (hr : f.isReadable = true) (hmap : s.mem.Maps dst n) (off : ℕ) :
    ∃ f', fileread s d f true dst n off =
        (((slice s.inode off n).length : ℤ),
          { s with mem := s.mem.store dst (slice s.inode off n) }.setFile d f') ∧
      f'.flags = f.flags ∧ f'.efp.fsize = s.inode.length ∧
      (off = f.fpos → f'.fpos = off + (slice s.inode off n).length) := by
  by_cases hoff : off ≤ s.inode.length
  · exact ⟨_, fileread_eq hr (hsize ▸ hoff) hmap, rfl, by simp [hsize], fun _ => rfl⟩
  have hnil : slice s.inode off n = [] := slice_eq_nil.2 (.inr (by omega))
  refine ⟨f, ?_, rfl, hsize, ?_⟩
  · rw [fileread_past hr (.inr (by omega)), hnil, UserMem.store_nil]
    rfl
  · rintro rfl
    simp [hnil]

theorem isReadable_congr {f' : VFile} (h : f'.flags = f.flags) :
    f'.isReadable = f.isReadable ∧ f'.isWritable = f.isWritable := by
  simp [VFile.isReadable, VFile.isWritable, h]

section

variable (hs : Sim d c s)
include hs

theorem Sim.read (hfit : c.Fits (.read dst n)) :
    (fileOp s d (.read dst n)).1 = (c.op (.read dst n)).1 ∧
      Sim d (c.op (.read dst n)).2 (fileOp s d (.read dst n)).2 := by
  obtain ⟨hinode, hmem, f, hf, hpos, hsize, hr, hw⟩ := hs
  obtain ⟨-, hmap⟩ := hfit
  obtain ⟨f', hres, hflags, hsize', hpos'⟩ :=
    fileread_sized (d := d) (hinode ▸ hsize) hr (hmem ▸ hmap) f.fpos
  obtain ⟨hr', hw'⟩ := isReadable_congr hflags
  have hcall : fileOp s d (.read dst n) = fileread s d f true dst n f.fpos := by
    rw [fileOp, sysRead, hf]
  rw [hcall, hres, hpos, hinode, hmem]
  refine ⟨by rw [length_slice]; rfl, ?_⟩
  refine Sim.setFile rfl rfl ?_ (hinode ▸ hsize') (hr'.trans hr) (hw'.trans hw)
  rw [hpos' rfl, hpos, hinode, length_slice]
  rfl

theorem Sim.write {src : ℕ} (hfit : c.Fits (.write src n)) :
    (fileOp s d (.write src n)).1 = (c.op (.write src n)).1 ∧
      Sim d (c.op (.write src n)).2 (fileOp s d (.write src n)).2 := by
  obtain ⟨hinode, hmem, f, hf, hpos, hsize, hr, hw⟩ := hs
  obtain ⟨hn, -, hmap, hpage⟩ := hfit
  have hlength : s.inode.length = c.bytes.length := congrArg _ hinode
  have hcall : fileOp s d (.write src n) = filewrite s d f true true src n f.fpos := by
    rw [fileOp, sysWrite, hf]
  have hres : filewrite s d f true true src n f.fpos =
      ((n : ℤ), { s with inode := splice 0 c.bytes c.cursor (c.mem.load src n) }.setFile d
        { f with
          fpos := c.cursor + n
          efp := ⟨c.cursor + n, max c.bytes.length (c.cursor + n)⟩ }) := by
    have hret : written n = n := if_pos hn
    by_cases hoff : c.cursor ≤ c.bytes.length
    · rw [filewrite_of_le hw (by omega) (by omega) (hmem ▸ hmap), hret, if_neg hn.ne', hinode,
        hpos, hmem]
    · -- the cached size is the size, so the zeros overwrite nothing
      have hsplice := (splice_fill_iff 0 s.inode (s.mem.load src n)
        (by omega : f.efp.fsize ≤ f.fpos)).2 (fun i _ _ hi => by omega)
      rw [filewrite_gap hw (by omega) (by omega) (hmem ▸ hmap), hsplice, hret, hinode, hpos,
        hmem]
  rw [hcall, hres]
  refine ⟨rfl, Sim.setFile rfl hmem rfl ?_ hr hw⟩
  change max c.bytes.length (c.cursor + n) =
    (splice 0 c.bytes c.cursor (c.mem.load src n)).length
  rw [length_splice, UserMem.length_load]

theorem Sim.pread {off : ℤ} (hfit : c.Fits (.pread dst n off)) :
    (fileOp s d (.pread dst n off)).1 = (c.op (.pread dst n off)).1 ∧
      Sim d (c.op (.pread dst n off)).2 (fileOp s d (.pread dst n off)).2 := by
  obtain ⟨hinode, hmem, f, hf, hpos, hsize, hr, hw⟩ := hs
  obtain ⟨-, hmap⟩ := hfit
  by_cases hneg : off < 0
  · have hcall : sysPread64 s d true dst n off = _ :=
      sysPread64_eq hf (fileread_past hr (.inl hneg))
    simp only [fileOp, hcall, CursorFile.op, if_pos hneg, true_and]
    exact Sim.setFile hinode hmem hpos hsize hr hw
  obtain ⟨off, rfl⟩ := Int.eq_ofNat_of_zero_le (not_lt.1 hneg)
  obtain ⟨f', hres, hflags, hsize', -⟩ :=
    fileread_sized (d := d) (hinode ▸ hsize) hr (hmem ▸ hmap) off
  obtain ⟨hr', hw'⟩ := isReadable_congr hflags
  have hcall := sysPread64_eq hf hres
  simp only [fileOp, hcall, CursorFile.op, if_neg hneg, Int.toNat_natCast]
  refine ⟨by rw [length_slice, hinode], ?_⟩
  exact Sim.setFile hinode (by rw [hmem, hinode]) hpos (hinode ▸ hsize') (hr'.trans hr)
    (hw'.trans hw)

theorem Sim.lseek (off : ℤ) :
    (fileOp s d (.lseek off)).1 = (c.op (.lseek off)).1 ∧
      Sim d (c.op (.lseek off)).2 (fileOp s d (.lseek off)).2 := by
  obtain ⟨hinode, hmem, f, hf, hpos, hsize, hr, hw⟩ := hs
  by_cases hneg : off < 0
  · have hcall : sysLseek s d off = (-EINVAL, s.setFile d f) := by
      simp [sysLseek, hf, ext4Vlseek, ext4Fseek, hneg]
    simp only [fileOp, hcall, CursorFile.op, if_pos hneg, true_and]
    exact Sim.setFile hinode hmem hpos hsize hr hw
  · obtain ⟨off, rfl⟩ := Int.eq_ofNat_of_zero_le (not_lt.1 hneg)
    simp only [fileOp, sysLseek_eq hf, CursorFile.op, if_neg hneg, true_and]
    exact Sim.setFile hinode hmem rfl hsize hr hw

/-- **A call does what it does to a byte array with a cursor.** -/
theorem Sim.step {op : FileOp} (hfit : c.Fits op) :
    (fileOp s d op).1 = (c.op op).1 ∧ Sim d (c.op op).2 (fileOp s d op).2 := by
  cases op with
  | read dst n => exact hs.read hfit
  | write src n => exact hs.write hfit
  | pread dst n off => exact hs.pread hfit
  | lseek off => exact hs.lseek off

theorem Sim.run {ops : List FileOp} (hfit : c.FitsAlong ops) :
    (runOps (fileOp · d) s ops).1 = (runOps CursorFile.op c ops).1 ∧
      Sim d (runOps CursorFile.op c ops).2 (runOps (fileOp · d) s ops).2 := by
  induction ops generalizing c s with
  | nil => exact ⟨rfl, hs⟩
  | cons op ops ih =>
    obtain ⟨hr, hs'⟩ := hs.step hfit.1
    obtain ⟨hrs, hs''⟩ := ih hs' hfit.2
    exact ⟨congrArg₂ List.cons hr hrs, hs''⟩

end

/-- **A regular file opened once with `O_RDWR` is a byte array with a cursor**, for every
sequence of calls: what the calls return, the contents of the file, the memory of the
process and the position of the open file are those of the byte array. -/
theorem file_refines_cursor (s : FState D) (d : D) (flags : BitVec 32) (hflags : flags &&& 3 = 2)
    (ops : List FileOp) (hfit : CursorFile.FitsAlong ⟨s.inode, 0, s.mem⟩ ops) :
    let run := runOps (fileOp · d) (ext4Vfopen s d flags) ops
    let spec := runOps CursorFile.op ⟨s.inode, 0, s.mem⟩ ops
    run.1 = spec.1 ∧ run.2.inode = spec.2.bytes ∧ run.2.mem = spec.2.mem ∧
      ∃ f, run.2.file d = some f ∧ f.fpos = spec.2.cursor := by
  have hopen : Sim d ⟨s.inode, 0, s.mem⟩ (ext4Vfopen s d flags) :=
    Sim.setFile rfl rfl rfl rfl (by rw [VFile.isReadable, hflags]; rfl)
      (by rw [VFile.isWritable, hflags]; rfl)
  obtain ⟨hrs, hinode, hmem, f, hf, hpos, -⟩ := hopen.run hfit
  exact ⟨hrs, hinode, hmem, f, hf, hpos⟩

/-- A file of three bytes in a process with all its pages mapped. -/
def threeBytes : FState Unit := ⟨[7, 8, 9], ⟨fun _ => 1, fun _ => true⟩, fun _ => none⟩

/-- A write of more than a page, and a read across the end of the file. -/
theorem file_refines_cursor_threeBytes :
    (runOps (fileOp · ()) (ext4Vfopen threeBytes () 2)
      [.lseek 5, .write 0 5000, .pread 0 10 2, .read 0 3, .lseek 4000, .read 0 2000]).1 =
      [5, 5000, 10, 0, 4000, 1005] := by
  have hfit : CursorFile.FitsAlong ⟨threeBytes.inode, 0, threeBytes.mem⟩
      [.lseek 5, .write 0 5000, .pread 0 10 2, .read 0 3, .lseek 4000, .read 0 2000] :=
    ⟨trivial, ⟨by decide, by decide, fun _ _ => rfl, by decide⟩,
      ⟨by decide, fun _ _ => rfl⟩, ⟨by decide, fun _ _ => rfl⟩, trivial,
      ⟨by decide, fun _ _ => rfl⟩, trivial⟩
  have hrun := (file_refines_cursor threeBytes () 2 (by decide) _ hfit).1
  rw [hrun]
  simp [runOps, CursorFile.op, threeBytes]

end XVapor.Ext4
