import XVapor.Bytes
import Mathlib.Data.Int.Notation

/-!
# Reading and Writing a Regular File

The system calls `read`, `write`, `pread64` and `lseek` on a regular file, down to the calls
of the file system library: `fileread` and `filewrite` (`fs/file.c`), `ext4_vfread`,
`ext4_vwrite` and `ext4_vlseek` (`fs/ext4fs.c`).

Every open file has two positions, `fpos` of the `struct file` and `fpos` of the
`struct ext4_file`, and a cached size `fsize`, which `ext4_vfread` and `ext4_vwrite` compare
with the offset. The library functions `ext4_fread`, `ext4_fwrite` and `ext4_fseek` are
embedded by their contract: they set `fsize` to the size of the inode, transfer at `fpos`, a
read up to the end of the file, and advance `fpos`.

A transfer of more than a page goes through one kernel page, page by page. User memory is
mapped page by page, and `copyout` and `copyin` fail at the first page that is not mapped.
-/

namespace XVapor.Ext4

def PGSIZE : ℕ := 4096

def EOK : ℤ := 0

def ENOMEM : ℤ := 12

def EINVAL : ℤ := 22

/-! ### User memory -/

/-- User memory: its bytes, and the pages that are mapped. -/
@[ext]
structure UserMem where
  byte : ℕ → UInt8
  mapped : ℕ → Bool

namespace UserMem

/-- Write `d` at `addr`. -/
def store (m : UserMem) (addr : ℕ) (d : List UInt8) : UserMem :=
  { m with byte := fun a => if addr ≤ a then d.getD (a - addr) (m.byte a) else m.byte a }

/-- The `n` bytes at `addr`. -/
def load (m : UserMem) (addr n : ℕ) : List UInt8 :=
  (List.range n).map fun i => m.byte (addr + i)

/-- The page of the byte at `addr` is mapped. -/
def here (m : UserMem) (addr : ℕ) : Bool := m.mapped (addr / PGSIZE)

/-- The buffer of `n` bytes at `addr` is mapped. -/
def Maps (m : UserMem) (addr n : ℕ) : Prop := ∀ i < n, m.here (addr + i) = true

instance (m : UserMem) (addr n : ℕ) : Decidable (m.Maps addr n) :=
  inferInstanceAs (Decidable (∀ i < n, m.here (addr + i) = true))

/-- `copyout`: the bytes up to the first page that is not mapped, and whether there is none. -/
def copyout (m : UserMem) (dst : ℕ) (d : List UInt8) : Bool × UserMem :=
  let k := ((List.range d.length).takeWhile fun i => m.here (dst + i)).length
  (k == d.length, m.store dst (d.take k))

/-- `copyin`. -/
def copyin (m : UserMem) (src n : ℕ) : Option (List UInt8) :=
  if m.Maps src n then some (m.load src n) else none

end UserMem

/-! ### The library -/

/-- `struct ext4_file`. -/
structure Ext4File where
  fpos : ℕ
  fsize : ℕ
  deriving DecidableEq, Repr

/-- `ext4_fread`. With a size of zero it returns at once. -/
def ext4Fread (inode : List UInt8) (e : Ext4File) (size : ℕ) : List UInt8 × Ext4File :=
  if size = 0 then ([], e)
  else
    let got := slice inode e.fpos size
    (got, ⟨e.fpos + got.length, inode.length⟩)

/-- `ext4_fwrite`. -/
def ext4Fwrite (inode : List UInt8) (e : Ext4File) (d : List UInt8) :
    List UInt8 × Ext4File :=
  if d = [] then (inode, e)
  else
    (splice 0 inode e.fpos d, ⟨e.fpos + d.length, max inode.length (e.fpos + d.length)⟩)

/-- `ext4_fseek` with `SEEK_SET`; `none` is `EINVAL`. -/
def ext4Fseek (e : Ext4File) (off : ℤ) : Option Ext4File :=
  if off < 0 then none else some { e with fpos := off.toNat }

/-! ### The file system layer -/

/-- A `struct file` of a regular file. -/
structure VFile where
  flags : BitVec 32
  fpos : ℕ
  efp : Ext4File
  deriving DecidableEq, Repr

/-- `IS_READABLE`. -/
def VFile.isReadable (f : VFile) : Bool := f.flags &&& 3 != 1

/-- `IS_WRITABLE`. -/
def VFile.isWritable (f : VFile) : Bool := f.flags &&& 3 != 0

/-- The offsets at which the chunks of a transfer begin. -/
def chunks (size : ℕ) : List ℕ :=
  (List.range ((size + PGSIZE - 1) / PGSIZE)).map (· * PGSIZE)

/-- The length of the chunk at `i`. -/
def chunk (size i : ℕ) : ℕ := if size - i > PGSIZE then PGSIZE else size - i

/-- What `ext4_vfread` returns, and leaves behind. -/
structure ReadRes where
  r : ℤ
  rcnt : ℕ
  mem : UserMem
  file : VFile

/-- The variables of the loop in `ext4_vfread`. -/
structure ReadLoop where
  efp : Ext4File
  mem : UserMem
  rcnt : ℕ
  nread : ℕ

/-- One page of a large read; an error is a failed `copyout`. -/
def readChunk (inode : List UInt8) (dst size : ℕ) (v : ReadLoop) (i : ℕ) :
    Except ReadLoop ReadLoop :=
  let (got, efp) := ext4Fread inode v.efp (chunk size i)
  let (copied, mem) := v.mem.copyout (dst + i) got
  if copied then .ok ⟨efp, mem, got.length, v.nread + got.length⟩
  else .error ⟨efp, mem, got.length, v.nread⟩

/-- `ext4_vfread` into user memory, with `*rcnt` zero before. The offset is compared with the
size as an unsigned number: a negative one is past every end. -/
def ext4Vfread (inode : List UInt8) (m : UserMem) (f : VFile) (kalloc : Bool) (dst : ℕ)
    (off : ℤ) (size : ℕ) : ReadRes :=
  if off < 0 ∨ (f.efp.fsize : ℤ) < off then ⟨EOK, 0, m, f⟩
  else
    match ext4Fseek f.efp off with
    | none => ⟨EINVAL, 0, m, f⟩
    | some efp =>
      if kalloc = false then ⟨ENOMEM, 0, m, { f with efp }⟩
      else if size ≤ PGSIZE then
        let (got, efp) := ext4Fread inode efp size
        let (copied, mem) := m.copyout dst got
        if copied then ⟨EOK, got.length, mem, { f with fpos := efp.fpos, efp }⟩
        else ⟨-1, got.length, mem, { f with efp }⟩
      else
        match (chunks size).foldlM (readChunk inode dst size) ⟨efp, m, 0, 0⟩ with
        | .error v => ⟨-1, v.rcnt, v.mem, { f with efp := v.efp }⟩
        | .ok v => ⟨EOK, v.nread, v.mem, { f with fpos := v.efp.fpos, efp := v.efp }⟩

/-- What `ext4_vwrite` returns, and leaves behind. -/
structure WriteRes where
  r : ℤ
  wcnt : ℕ
  inode : List UInt8
  file : VFile

/-- The variables of the loop in `ext4_vwrite`. -/
structure WriteLoop where
  efp : Ext4File
  inode : List UInt8
  wcnt : ℕ
  nwritten : ℕ

/-- One page of a large write; an error is a failed `copyin`. -/
def writeChunk (m : UserMem) (src size : ℕ) (v : WriteLoop) (i : ℕ) :
    Except WriteLoop WriteLoop :=
  match m.copyin (src + i) (chunk size i) with
  | none => .error v
  | some d =>
    let (inode, efp) := ext4Fwrite v.inode v.efp d
    .ok ⟨efp, inode, d.length, v.nwritten + d.length⟩

/-- The first part of `ext4_vwrite`: if the offset is past the cached size, zeros are written
from there up to it. -/
def zeroFill (inode : List UInt8) (efp : Ext4File) (kzalloc : Bool) (off : ℕ) :
    Except (ℤ × Ext4File) (List UInt8 × Ext4File) :=
  if efp.fsize < off then
    let zeroSize := off - efp.fsize
    let efp := { efp with fpos := efp.fsize }
    if zeroSize > PGSIZE then .error (-1, efp)
    else if kzalloc = false then .error (ENOMEM, efp)
    else .ok (ext4Fwrite inode efp (List.replicate zeroSize 0))
  else .ok (inode, efp)

/-- `ext4_vwrite` from user memory, with `*wcnt` zero before. -/
def ext4Vwrite (inode : List UInt8) (m : UserMem) (f : VFile) (kzalloc kalloc : Bool)
    (src off size : ℕ) : WriteRes :=
  match zeroFill inode f.efp kzalloc off with
  | .error (r, efp) => ⟨r, 0, inode, { f with efp }⟩
  | .ok (inode, efp) =>
    match ext4Fseek efp off with
    | none => ⟨EINVAL, 0, inode, { f with efp }⟩
    | some efp =>
      if kalloc = false then ⟨ENOMEM, 0, inode, { f with efp }⟩
      else if size ≤ PGSIZE then
        match m.copyin src size with
        | none => ⟨-1, 0, inode, { f with efp }⟩
        | some d =>
          let (inode, efp) := ext4Fwrite inode efp d
          ⟨EOK, d.length, inode, { f with fpos := efp.fpos, efp }⟩
      else
        match (chunks size).foldlM (writeChunk m src size) ⟨efp, inode, 0, 0⟩ with
        | .error v => ⟨-1, v.wcnt, v.inode, { f with efp := v.efp }⟩
        | .ok v => ⟨EOK, v.nwritten, v.inode, { f with fpos := v.efp.fpos, efp := v.efp }⟩

/-- `ext4_vlseek` with `SEEK_SET`. -/
def ext4Vlseek (f : VFile) (off : ℤ) : ℤ × VFile :=
  match ext4Fseek f.efp off with
  | none => (-EINVAL, f)
  | some efp => (efp.fpos, { f with fpos := efp.fpos, efp })

/-! ### The system calls -/

/-- One regular file: its contents, the memory of the process, and the open files. -/
structure FState (D : Type) where
  inode : List UInt8
  mem : UserMem
  file : D → Option VFile

variable {D : Type} [DecidableEq D]

def FState.setFile (s : FState D) (d : D) (f : VFile) : FState D :=
  { s with file := Function.update s.file d (some f) }

/-- `ext4_vfopen` of the file, with the access mode in `flags`. -/
def ext4Vfopen (s : FState D) (d : D) (flags : BitVec 32) : FState D :=
  s.setFile d ⟨flags, 0, ⟨0, s.inode.length⟩⟩

/-- `fileread` of a regular file. What `ext4_vfread` returns is not looked at. -/
def fileread (s : FState D) (d : D) (f : VFile) (kalloc : Bool) (dst n : ℕ) (off : ℤ) :
    ℤ × FState D :=
  if f.isReadable then
    let res := ext4Vfread s.inode s.mem f kalloc dst off n
    (res.rcnt, { s with mem := res.mem }.setFile d res.file)
  else (-1, s)

/-- `filewrite` to a regular file. -/
def filewrite (s : FState D) (d : D) (f : VFile) (kzalloc kalloc : Bool) (src n off : ℕ) :
    ℤ × FState D :=
  if f.isWritable then
    let res := ext4Vwrite s.inode s.mem f kzalloc kalloc src off n
    (if res.wcnt > 0 then res.wcnt else -1,
      { s with inode := res.inode }.setFile d res.file)
  else (-1, s)

def sysRead (s : FState D) (d : D) (kalloc : Bool) (dst n : ℕ) : ℤ × FState D :=
  match s.file d with
  | none => (-1, s)
  | some f => fileread s d f kalloc dst n f.fpos

def sysWrite (s : FState D) (d : D) (kzalloc kalloc : Bool) (src n : ℕ) : ℤ × FState D :=
  match s.file d with
  | none => (-1, s)
  | some f => filewrite s d f kzalloc kalloc src n f.fpos

/-- `sys_lseek` with `SEEK_SET`. -/
def sysLseek (s : FState D) (d : D) (off : ℤ) : ℤ × FState D :=
  match s.file d with
  | none => (-1, s)
  | some f =>
    let (r, f) := ext4Vlseek f off
    (r, s.setFile d f)

/-- `sys_pread64`: a read at the offset, and a seek back. -/
def sysPread64 (s : FState D) (d : D) (kalloc : Bool) (dst n : ℕ) (off : ℤ) :
    ℤ × FState D :=
  match s.file d with
  | none => (-1, s)
  | some f =>
    let (r, s) := fileread s d f kalloc dst n off
    let (r', s) := sysLseek s d f.fpos
    (if r' < 0 then -1 else r, s)

/-- The calls on an open file. -/
inductive FileOp
  | read (dst n : ℕ)
  | write (src n : ℕ)
  | pread (dst n : ℕ) (off : ℤ)
  | lseek (off : ℤ)
  deriving DecidableEq, Repr

/-- A call, with the page allocations it makes. -/
def fileOp (s : FState D) (d : D) : FileOp → ℤ × FState D
  | .read dst n => sysRead s d true dst n
  | .write src n => sysWrite s d true true src n
  | .pread dst n off => sysPread64 s d true dst n off
  | .lseek off => sysLseek s d off

end XVapor.Ext4
