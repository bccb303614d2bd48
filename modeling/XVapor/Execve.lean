import XVapor.AddressSpace

/-!
# `execve`

`execve` and `floadseg` (`fs/exec.c`), with `transfer_trapframe` (`sched/thread.c`): the
program and, if it asks for one, the dynamic linker are read from the file system and loaded
into a new page table, the stack is filled with the arguments, the other threads are freed,
and the old page table is replaced.

The new page table belongs to the call until it is given to the process, so it is a value
beside the kernel. What `execve` does at its label `bad` depends on how far it has come:
`Prep` tells a failure without a page table, one with it, and success apart.
-/

namespace XVapor.Vm

open Files (ProcId)

def ELF_MAGIC : ℕ := 0x464C457F
def ELF_PROG_LOAD : ℕ := 1
def ELF_PROG_INTERP : ℕ := 3
def MAXARG : ℕ := 512
def MAXENV : ℕ := 8
def MAX_AT : ℕ := 33

/-- The path of the dynamic linker. -/
def interpPath : String := "/musl/lib/libc.so"

/-! ### The format of a program -/

/-- The number of `n` bytes at an offset, the lowest byte first. -/
def field (b : List UInt8) (off n : ℕ) : ℕ :=
  (slice b off n).foldr (fun x acc => x.toNat + 256 * acc) 0

/-- `struct elfhdr`, without the fields that are not read. -/
structure Elfhdr where
  magic : ℕ
  entry : ℕ
  phoff : ℕ
  phentsize : ℕ
  phnum : ℕ
  deriving DecidableEq, Repr

def Elfhdr.size : ℕ := 64

def Elfhdr.read (b : List UInt8) : Elfhdr :=
  ⟨field b 0 4, field b 24 8, field b 32 8, field b 54 2, field b 56 2⟩

/-- `struct proghdr`, without the fields that are not read. -/
structure Proghdr where
  type : ℕ
  off : ℕ
  vaddr : ℕ
  filesz : ℕ
  memsz : ℕ
  deriving DecidableEq, Repr

def Proghdr.size : ℕ := 56

def Proghdr.read (b : List UInt8) : Proghdr :=
  ⟨field b 0 4, field b 8 8, field b 16 8, field b 32 8, field b 40 8⟩

/-! ### Files -/

/-- `filealloc`. -/
def filealloc (k : Kernel) : Option Kernel :=
  if k.nfile = 0 then none else some { k with nfile := k.nfile - 1 }

/-- `ext4_vfopen`. A directory has no entry of `ext4_fpool`, and no bytes to read. -/
def vfopen (k : Kernel) (path : String) : Option (Option (List UInt8) × Kernel) :=
  match k.inode path with
  | some .dir => some (none, k)
  | some (.reg bytes) =>
    if k.npool = 0 then none else some (some bytes, { k with npool := k.npool - 1 })
  | none => none

/-- `ext4_vfclose`. -/
def vfclose (k : Kernel) : Option (List UInt8) → Kernel
  | none => k
  | some _ => { k with npool := k.npool + 1 }

/-- The header of an open file. -/
def readHeader (f : Option (List UInt8)) : Option (List UInt8 × Elfhdr) :=
  match f with
  | none => none
  | some bytes =>
    let b := vfread bytes 0 Elfhdr.size
    if b.length = Elfhdr.size then some (bytes, Elfhdr.read b) else none

/-! ### Loading -/

/-- The loop of `floadseg`, at the page `v` and the byte `i` of the segment. -/
def floadsegLoop (bytes : List UInt8) (offset sz : ℕ) :
    ℕ → ℕ → ℕ → Space → Except Panic (Bool × Space)
  | 0, _, _, S => .ok (true, S)
  | rounds + 1, v, i, S =>
    match walkaddr S v with
    | none => .error .loadsegAddress
    | some f =>
      let n := min (sz - i) PGSIZE
      let d := vfread bytes ((offset + i) % 2 ^ 32 : ℕ) n
      let S : Space := ⟨S.mem.write f 0 d, S.tbl⟩
      if d.length = n then floadsegLoop bytes offset sz rounds (v + 1) (i + PGSIZE) S
      else .ok (false, S)

/-- `floadseg`. The offset and the size are of type `uint`. -/
def floadseg (S : Space) (bytes : List UInt8) (va offset sz : ℕ) :
    Except Panic (Bool × Space) :=
  if va % PGSIZE ≠ 0 then .error .loadsegAligned
  else floadsegLoop bytes (offset % 2 ^ 32) (sz % 2 ^ 32) (pages (sz % 2 ^ 32)) (vpn va) 0 S

/-- What has been loaded: the new page table, its size, whether there is a segment for the
dynamic linker, and the address of the first segment. -/
structure Load where
  S : Space
  sz : ℕ
  interp : Bool
  proghBase : Option ℕ

/-- A segment of type `ELF_PROG_LOAD`, loaded at `base`. -/
def loadSegment (base : ℕ) (bytes : List UInt8) (ph : Proghdr) (l : Load) :
    Except Panic (Bool × Load) :=
  if ph.memsz < ph.filesz then .ok (false, l)
  else if 2 ^ 64 ≤ ph.vaddr + ph.memsz then .ok (false, l)
  else do
    let (sz, S) ← uvmalloc l.S l.sz ((base + ph.vaddr + ph.memsz) % 2 ^ 64)
    if sz = 0 then .ok (false, { l with S })
    else do
      let (loaded, S) ← floadseg S bytes ((base + vpn ph.vaddr * PGSIZE) % 2 ^ 64)
        (vpn ph.off * PGSIZE) (ph.filesz + ph.vaddr % PGSIZE)
      .ok (loaded, { l with
        S, sz, proghBase := l.proghBase <|> some (vpn ph.vaddr * PGSIZE) })

/-- The loop over the program headers. The offset is an `int`. -/
def loadSegments (base : ℕ) (bytes : List UInt8) :
    ℕ → ℤ → Load → Except Panic (Bool × Load)
  | 0, _, l => .ok (true, l)
  | n + 1, off, l =>
    let b := vfread bytes off Proghdr.size
    if b.length ≠ Proghdr.size then .ok (false, l)
    else
      let ph := Proghdr.read b
      let l := { l with interp := l.interp || ph.type = ELF_PROG_INTERP }
      if ph.type ≠ ELF_PROG_LOAD then
        loadSegments base bytes n (Int.bmod (off + Proghdr.size) (2 ^ 32)) l
      else do
        let (loaded, l) ← loadSegment base bytes ph l
        if loaded then loadSegments base bytes n (Int.bmod (off + Proghdr.size) (2 ^ 32)) l
        else .ok (false, l)

/-- The dynamic linker is loaded behind the program. Its file is not closed when it cannot be
loaded. -/
def loadInterp (k : Kernel) (l : Load) : Except Panic (Bool × Kernel × Load) :=
  match filealloc k with
  | none => .ok (false, k, l)
  | some k => match vfopen k interpPath with
    | none => .ok (false, k, l)
    | some (f, k) => match readHeader f with
      | none => .ok (false, k, l)
      | some (bytes, elf) =>
        if elf.magic ≠ ELF_MAGIC then .ok (false, vfclose k f, l)
        else do
          let (loaded, l') ← loadSegments (pages l.sz * PGSIZE) bytes elf.phnum
            (Int.bmod elf.phoff (2 ^ 32)) l
          .ok (loaded, if loaded then vfclose k f else k, { l with S := l'.S, sz := l'.sz })

/-! ### The stack -/

/-- Bytes are pushed on the stack. -/
def push (S : Space) (sp : ℕ) (d : List UInt8) : Bool × Space × ℕ :=
  let sp := u64 (sp - d.length)
  let (copied, S) := copyout S sp d
  (copied, S, sp)

/-- A number of type `uint64`, the lowest byte first. -/
def wordBytes (x : ℕ) : List UInt8 := (List.range 8).map fun i => UInt8.ofNat (x / 256 ^ i)

/-- An array of numbers is pushed, if it does not reach below the stack. -/
def pushWords (stackbase : ℕ) (S : Space) (sp : ℕ) (ws : List ℕ) : Bool × Space × ℕ :=
  if u64 (sp - 8 * ws.length) < stackbase then (false, S, sp)
  else push S sp (ws.flatMap wordBytes)

/-- Strings are pushed one by one, each at a multiple of sixteen; `ptrs` are the addresses of
those before. -/
def pushStrings (limit stackbase : ℕ) :
    List (List UInt8) → Space → ℕ → List ℕ → Bool × Space × ℕ × List ℕ
  | [], S, sp, ptrs => (true, S, sp, ptrs)
  | s :: ss, S, sp, ptrs =>
    if limit ≤ ptrs.length then (false, S, sp, ptrs)
    else
      let sp := u64 (sp - (s.length + 1))
      let sp := sp - sp % 16
      if sp < stackbase then (false, S, sp, ptrs)
      else
        let (copied, S) := copyout S sp (s ++ [0])
        if copied then pushStrings limit stackbase ss S sp (ptrs ++ [sp])
        else (false, S, sp, ptrs)

/-- The auxiliary vector: pairs of a type and a value. The rest of the array is not set; here
it is zero. -/
def auxv (elf : Elfhdr) (proghBase interpBase sp : ℕ) : List ℕ :=
  let aux := [6, PGSIZE, 3, elf.phoff + proghBase, 4, elf.phentsize, 5, elf.phnum,
    7, interpBase, 9, elf.entry, 11, 0, 12, 0, 13, 0, 14, 0, 23, 0, 25, sp, 0, 0]
  aux ++ List.replicate (MAX_AT * 2 - aux.length) 0

/-- The stack of the program, below `top`: the strings, the auxiliary vector and the arrays
of pointers. -/
def fillStack (S : Space) (top stackbase : ℕ) (aux : ℕ → List ℕ) (argv envp : List (List UInt8)) :
    Bool × Space × ℕ :=
  match pushStrings MAXENV stackbase envp S (u64 (top - 16)) [] with
  | (false, S, sp, _) => (false, S, sp)
  | (true, S, sp, estack) => match pushStrings MAXARG stackbase argv S sp [] with
    | (false, S, sp, _) => (false, S, sp)
    | (true, S, sp, ustack) =>
      let sp := u64 (sp - 16)
      match push S sp ((aux sp).flatMap wordBytes) with
      | (false, S, sp) => (false, S, sp)
      | (true, S, sp) => match pushWords stackbase S sp (estack ++ [0]) with
        | (false, S, sp) => (false, S, sp)
        | (true, S, sp) => pushWords stackbase S sp (ustack ++ [0])

/-! ### The call -/

/-- A new image that is ready to be used. -/
structure Image where
  S : Space
  sz : ℕ
  sp : ℕ
  stackbase : ℕ
  argc : ℕ

/-- How the first part of `execve` ends: it returns, it goes to `bad` with a page table, or
the image is ready. -/
inductive Prep
  | fail (k : Kernel)
  | bad (k : Kernel) (S : Space) (sz : ℕ)
  | ready (k : Kernel) (img : Image)

/-- The stack is allocated and filled. -/
def prepareStack (k : Kernel) (l : Load) (aux : ℕ → List ℕ) (argv envp : List (List UInt8)) :
    Except Panic Prep := do
  let lo := pages l.sz * PGSIZE
  let (sz, S) ← uvmalloc l.S lo (lo + 64 * PGSIZE)
  if sz = 0 then .ok (.bad k S lo)
  else do
    let S ← uvmclear S (vpn (sz - 64 * PGSIZE))
    let stackbase := sz - 63 * PGSIZE
    match fillStack S sz stackbase aux argv envp with
    | (false, S, _) => .ok (.bad k S sz)
    | (true, S, sp) => .ok (.ready k ⟨S, sz, sp, stackbase, argv.length⟩)

/-- The program is loaded into the new page table. -/
def prepareImage (k : Kernel) (f : Option (List UInt8)) (bytes : List UInt8) (elf : Elfhdr)
    (S : Space) (argv envp : List (List UInt8)) : Except Panic Prep := do
  let (loaded, l) ← loadSegments 0 bytes elf.phnum (Int.bmod elf.phoff (2 ^ 32))
    ⟨S, 0, false, none⟩
  let k := vfclose k f
  if loaded = false then .ok (.bad k l.S l.sz)
  else if l.interp then do
    let (loaded, k, l') ← loadInterp k l
    if loaded = false then .ok (.bad k l'.S l'.sz)
    else prepareStack k l' (auxv elf (l.proghBase.getD 0) (pages l.sz * PGSIZE)) argv envp
  else prepareStack k l (auxv elf (l.proghBase.getD 0) 0) argv envp

/-- The first part of `execve`, up to the arrays of pointers on the stack. -/
def prepare (k : Kernel) (path : String) (argv envp : List (List UInt8)) : Except Panic Prep :=
  match filealloc k with
  | none => .ok (.fail k)
  | some k => match vfopen k path with
    | none => .ok (.fail k)
    | some (f, k) => match readHeader f with
      | none => .ok (.fail (vfclose k f))
      | some (bytes, elf) =>
        if elf.magic ≠ ELF_MAGIC then .ok (.fail (vfclose k f))
        else do
          let (T, mem) ← procPagetable k.mem
          match T with
          | none => .ok (.fail (vfclose { k with mem } f))
          | some T => prepareImage k f bytes elf ⟨mem, T⟩ argv envp

/-- The label `bad`, with the new page table. -/
def execBad (k : Kernel) (p : ProcId) (S : Space) (sz : ℕ) : Except Panic (Bool × Kernel) := do
  let mem ← procFreepagetable S sz (k.proc p).threadCnt
  .ok (false, { k with mem })

/-- `transfer_trapframe`; the trap frame stays in the old table. -/
def transferTrapframe (S : Space) (t : Tcb) : Except Panic Space := do
  let (mapped, S) ← mappages S (vpn (threadTrapframe t.tidx))
    (trapframePte (t.trapframe.elim .null .page))
  if mapped then .ok S else .error .transferTrapframe

/-- The number of arguments is pushed. -/
def pushArgc (img : Image) (S : Space) : Bool × Space :=
  match pushWords img.stackbase S img.sp [img.argc] with
  | (copied, S, _) => (copied, S)

/-- The process gets the new page table, and the old one is freed. -/
def commit (k : Kernel) (p : ProcId) (S : Space) (sz : ℕ) : Except Panic (Bool × Kernel) := do
  let P := k.proc p
  let old ← ({ k with mem := S.mem } : Kernel).space p
  let mem ← procFreepagetable old P.sz P.threadCnt
  .ok (true, ({ k with
      mem, tables := (k.tables.erase old.tbl.root).insert S.tbl.root S.tbl } : Kernel).setProc p
    { P with
      pagetable := some S.tbl.root, sz,
      ofile := fun fd => (P.ofile fd).filter fun o => !o.cloexec })

/-- The second part of `execve`. The last check comes after the other threads are freed. -/
def install (k : Kernel) (p : ProcId) (t : Tcb) (img : Image) : Except Panic (Bool × Kernel) := do
  let k ← freeAllotherThreadsGroup { k with mem := img.S.mem } p t
  let S ← transferTrapframe ⟨k.mem, img.S.tbl⟩ t
  match pushArgc img S with
  | (false, S) => execBad k p S img.sz
  | (true, S) => commit k p S img.sz

/-- `execve` by the thread `t` of the process `p`. -/
def execve (k : Kernel) (p : ProcId) (t : Tcb) (path : String) (argv envp : List (List UInt8)) :
    Except Panic (Bool × Kernel) := do
  match ← prepare k path argv envp with
  | .fail k => .ok (false, k)
  | .bad k S sz => execBad k p S sz
  | .ready k img => install k p t img

end XVapor.Vm
