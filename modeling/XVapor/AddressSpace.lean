import XVapor.Bytes
import XVapor.FileTable
import XVapor.PageTable

/-!
# Address Spaces of Processes

The processes with their page tables, threads and mappings, and the calls that make, change
and free them: `mmap` and `munmap` (`mm/mmap.c`), the page fault handler (`sched/trap.c`),
`growproc`, `do_clone`, `freeproc`, `wait` and the parts they are made of (`sched/proc.c`), and
`thread_exit` (`sched/thread.c`).

A process names its page table by the root page. The name is a pointer: after a `do_clone`
with `CLONE_VM` two processes have the same name. A page table whose pages have been freed is
gone, and the kernel faults when it is used.

What a call reads from elsewhere is an argument: the entry of the process table and of the
table of threads it gets, the identifier it assigns, and whether there is memory for a
`vma_struct`. The pages of the `vma_struct`s and of the signal handlers are not counted.
-/

namespace XVapor.Vm

open Files (ProcId ProcState)

/-! ### State -/

def MAX_THREAD : ℕ := 4
def MMAP_MAX_ADDR_START : ℕ := threadTrapframe MAX_THREAD
def MMAP_END_ADDRESS : ℕ := MMAP_MAX_ADDR_START - 1024 * 1024 * 1024
def PROT_READ : BitVec 32 := 1
def PROT_WRITE : BitVec 32 := 2
def MAP_SHARED : BitVec 32 := 1

/-- A `struct vma_struct`: its bounds, its protection, its flags, and the file of a
`VMA_FILE`. -/
structure Vma where
  start : ℕ
  stop : ℕ
  prot : BitVec 32
  flags : BitVec 32
  file : Option ℕ
  deriving DecidableEq, Repr

/-- A thread of a group: the index of its trap frame, and the page of the trap frame. -/
structure Tcb where
  tidx : ℕ
  trapframe : Option ℕ
  deriving DecidableEq, Repr

/-- An open descriptor. -/
structure OpenFd where
  file : ℕ
  cloexec : Bool
  deriving DecidableEq, Repr

/-- A `struct proc` with its `mm` and its thread group. `ghosts` counts the threads that have
been freed and are still in the list of the group. -/
structure Proc where
  state : ProcState
  parent : Option ProcId
  pagetable : Option ℕ
  sz : ℕ
  vmas : List Vma
  maxVma : ℕ
  threads : List Tcb
  ghosts : ℕ
  threadCnt : ℤ
  threadIdx : ℕ
  leader : Option ℕ
  ofile : ℕ → Option OpenFd

/-- An open file that can be mapped. No call of this model writes to it. -/
structure File where
  bytes : List UInt8
  writable : Bool

/-- What a path leads to. -/
inductive Inode
  | dir
  | reg (bytes : List UInt8)

/-- The kernel: memory, the page tables by their root pages, the processes, the number of
entries of `ftable` and of `ext4_fpool` that are not in use, the files that are open, and the
file system. -/
structure Kernel where
  mem : Mem
  tables : FiniteMap ℕ Table
  proc : ProcId → Proc
  nfile : ℕ
  npool : ℕ
  file : ℕ → File
  inode : String → Option Inode

/-- The process `initproc`. -/
def initproc : ProcId := ⟨0, Files.nproc_pos⟩

namespace Kernel

variable (k : Kernel)

def setProc (p : ProcId) (P : Proc) : Kernel := { k with proc := Function.update k.proc p P }

/-- The page table of a process. -/
def space (p : ProcId) : Except Panic Space :=
  match (k.proc p).pagetable with
  | none => .error .nullTable
  | some root => match k.tables.lookup root with
    | none => .error .staleTable
    | some T => .ok ⟨k.mem, T⟩

/-- The kernel after an operation on a page table. -/
def put (S : Space) : Kernel :=
  { k with mem := S.mem, tables := k.tables.insert S.tbl.root S.tbl }

end Kernel

/-! ### Files -/

/-- `ext4_vfread` of a file at an offset. The offset is compared with the size as an unsigned
number: a negative one is past every end. -/
def vfread (bytes : List UInt8) (off : ℤ) (n : ℕ) : List UInt8 :=
  if off < 0 ∨ (bytes.length : ℤ) < off then [] else slice bytes off.toNat n

/-! ### Mappings -/

/-- `find_vma`: the mapping that holds the address, with those before and after it. -/
def findVma (addr : ℕ) : List Vma → Option (List Vma × Vma × List Vma)
  | [] => none
  | v :: vs =>
    if v.start ≤ addr ∧ addr < v.stop then some ([], v, vs)
    else (findVma addr vs).map fun (before, w, after) => (v :: before, w, after)

/-- `do_mmap` of the file `fp`, or of none if the mapping is anonymous. `page` says whether
there is memory for the `vma_struct`. -/
def doMmap (k : Kernel) (p : ProcId) (length : ℤ) (prot flags : BitVec 32) (fp : Option ℕ)
    (page : Bool) : Bool × Kernel :=
  if (∃ f ∈ fp, (k.file f).writable = false) ∧ prot &&& PROT_WRITE ≠ 0 ∧
      flags &&& MAP_SHARED ≠ 0 then (false, k)
  else if page = false then (false, k)
  else
    let P := k.proc p
    let v : Vma :=
      ⟨vpn (u64 (P.maxVma - length)) * PGSIZE, vpn P.maxVma * PGSIZE, prot, flags, fp⟩
    let P := { P with maxVma := v.start }
    if v.start < MMAP_END_ADDRESS then (false, k.setProc p P)
    else (true, k.setProc p { P with vmas := P.vmas ++ [v] })

/-- The loop of `mmap_writeback_unmapf`, at the page `v`. -/
def unmapfLoop : ℕ → ℕ → Space → Except Panic Space
  | 0, _, S => .ok S
  | n + 1, v, S => do
    let (found, S) ← walk S v false
    if found then
      match S.tbl.pte v with
      | none => unmapfLoop n (v + 1) S
      | some _ => do
        let S ← uvmunmap S (v * PGSIZE) 1 true
        unmapfLoop n (v + 1) S
    else .error .mmapWriteback

/-- `mmap_writeback_unmapf`, for the page table. -/
def mmapWritebackUnmapf (S : Space) (w : Vma) (len : ℤ) : Except Panic Space :=
  unmapfLoop (pages (min (u64 (w.start + len)) w.stop) - vpn w.start) (vpn w.start) S

/-- `do_munmap`. -/
def doMunmap (k : Kernel) (p : ProcId) (addr : ℕ) (len : ℤ) : Except Panic (Bool × Kernel) :=
  match findVma addr (k.proc p).vmas with
  | none => .ok (false, k)
  | some (before, w, after) => do
    let S ← k.space p
    let S ← mmapWritebackUnmapf S w len
    let w := { w with start := u64 (w.start + len) }
    let vmas := if w.stop ≤ w.start then before ++ after else before ++ w :: after
    .ok (true, (k.put S).setProc p { k.proc p with vmas })

/-- The loop of `freeprocvm` over the mappings. The length of a mapping is passed as an
`int`. -/
def freeVmas (S : Space) (vmas : List Vma) : Except Panic Space :=
  vmas.foldlM (fun S w => mmapWritebackUnmapf S w (Int.bmod (w.stop - w.start) (2 ^ 32))) S

/-- `freeprocvm`. -/
def freeprocvm (k : Kernel) (p : ProcId) : Except Panic Kernel := do
  let S ← k.space p
  let S ← freeVmas S (k.proc p).vmas
  .ok ((k.put S).setProc p { k.proc p with vmas := [] })

/-! ### Page faults and accesses of the user -/

/-- The offset in the file at which the page fault handler reads the page `v` of a mapping. It
is an `int`; the offset of the mapping is not looked at. -/
def faultOff (w : Vma) (v : ℕ) : ℤ := Int.bmod ((v * PGSIZE : ℕ) - w.start : ℤ) (2 ^ 32)

/-- The bytes that the page fault handler puts into the page `v` of a mapping. -/
def faultBytes (k : Kernel) (w : Vma) (v : ℕ) : List UInt8 :=
  match w.file with
  | none => []
  | some f => vfread (k.file f).bytes (faultOff w v) PGSIZE

/-- A read takes a page as a buffer, unless the offset is past the end of the file. -/
def faultBuffer (k : Kernel) (w : Vma) (v : ℕ) : Bool :=
  match w.file with
  | none => false
  | some f => 0 ≤ faultOff w v ∧ faultOff w v ≤ (k.file f).bytes.length

/-- The entry that the page fault handler makes. -/
def faultPte (w : Vma) (n : ℕ) : Pte :=
  ⟨.page n, w.prot &&& PROT_READ != 0, w.prot &&& PROT_WRITE != 0, true⟩

/-- `pgfault_handler`. A file is read through a buffer. -/
def pgfaultHandler (k : Kernel) (p : ProcId) (v : ℕ) : Except Panic Kernel :=
  match findVma (v * PGSIZE) (k.proc p).vmas with
  | none => .error .pageFault
  | some (_, w, _) => do
    let S ← k.space p
    match kalloc S.mem with
    | none => .error .faultKalloc
    | some (n, m) => do
      let (mapped, S) ← mappages ⟨m, S.tbl⟩ v (faultPte w n)
      if mapped then
        if faultBuffer k w v ∧ S.mem.free = 0 then .error .faultRead
        else .ok (k.put ⟨S.mem.write (.page n) 0 (faultBytes k w v), S.tbl⟩)
      else .error .faultMappages

/-- The hardware lets the user read or write the page. -/
def permits (S : Space) (v : ℕ) (write : Bool) : Bool :=
  match S.tbl.pte v with
  | none => false
  | some e => e.u && if write then e.w else e.r

/-- An access of the user. If it is not permitted, the page fault handler runs and the access
is made again. If it is not permitted then either, the handler maps the page again. -/
def access (k : Kernel) (p : ProcId) (v : ℕ) (write : Bool) : Except Panic Kernel := do
  let S ← k.space p
  if permits S v write then .ok k
  else do
    let k ← pgfaultHandler k p v
    let S ← k.space p
    if permits S v write then .ok k else .error .remap

/-- The user reads the byte at `va`. -/
def userLoad (k : Kernel) (p : ProcId) (va : ℕ) : Except Panic (UInt8 × Kernel) := do
  let k ← access k p (vpn va) false
  let S ← k.space p
  match S.tbl.pte (vpn va) with
  | none => .error .pageFault
  | some e => .ok (S.mem.bytes e.frame (va % PGSIZE), k)

/-- The user writes the byte at `va`. -/
def userStore (k : Kernel) (p : ProcId) (va : ℕ) (b : UInt8) : Except Panic Kernel := do
  let k ← access k p (vpn va) true
  let S ← k.space p
  match S.tbl.pte (vpn va) with
  | none => .error .pageFault
  | some e => .ok (k.put ⟨S.mem.write e.frame (va % PGSIZE) [b], S.tbl⟩)

/-- `growproc`. -/
def growproc (k : Kernel) (p : ProcId) (n : ℤ) : Except Panic (Bool × Kernel) := do
  let S ← k.space p
  let P := k.proc p
  if 0 < n then do
    let (sz, S) ← uvmalloc S P.sz (u64 (P.sz + n))
    if sz = 0 then .ok (false, k.put S)
    else .ok (true, (k.put S).setProc p { P with sz })
  else if n < 0 then do
    let (sz, S) ← uvmdealloc S P.sz (u64 (P.sz + n))
    .ok (true, (k.put S).setProc p { P with sz })
  else .ok (true, k)

/-! ### Threads -/

/-- `proc_join_thread` of a new thread. -/
def procJoinThread (k : Kernel) (p : ProcId) : Except Panic (Tcb × Kernel) := do
  let P := k.proc p
  let S ← k.space p
  let (trapframe, S) ← uvmThreadTrapframe S P.threadIdx
  let t : Tcb := ⟨P.threadIdx, trapframe⟩
  .ok (t, (k.put S).setProc p { P with
    threadCnt := P.threadCnt + 1, threadIdx := P.threadIdx + 1,
    threads := P.threads ++ [t], leader := P.leader <|> some P.threadIdx })

/-- `free_thread` of a thread of the process `p`. -/
def freeThread (k : Kernel) (p : ProcId) (t : Tcb) : Except Panic Kernel := do
  let S ← k.space p
  let S ← uvmunmap S (threadTrapframe t.tidx) 1 t.trapframe.isSome
  .ok (k.put S)

/-- A thread that has been freed stays in the list. -/
def Kernel.haunt (k : Kernel) (p : ProcId) (t : Tcb) : Kernel :=
  k.setProc p { k.proc p with
    threads := (k.proc p).threads.erase t, ghosts := (k.proc p).ghosts + 1 }

/-- `free_allother_threads_group`. The count of the threads is not changed. A thread that has
been freed before has no process. -/
def freeAllotherThreadsGroup (k : Kernel) (p : ProcId) (t : Tcb) : Except Panic Kernel :=
  if 0 < (k.proc p).ghosts then .error .nullProc
  else do
    let k ← ((k.proc p).threads.filter (· ≠ t)).foldlM (freeThread · p) k
    .ok (k.setProc p { k.proc p with threads := [t], leader := some t.tidx })

/-! ### Processes -/

/-- Free the page table of a process, with `threadCnt` as in `procFreepagetable`. -/
def Kernel.freeTable (k : Kernel) (T : Table) (sz : ℕ) (threadCnt : ℤ) :
    Except Panic Kernel := do
  let mem ← procFreepagetable ⟨k.mem, T⟩ sz threadCnt
  .ok { k with mem, tables := k.tables.erase T.root }

/-- `allocproc` of the entry `p` of the table. The result of `proc_pagetable` is not
checked. -/
def allocproc (k : Kernel) (p : ProcId) : Except Panic Kernel := do
  let (T, mem) ← procPagetable k.mem
  let k := match T with
    | none => { k with mem }
    | some T => k.put ⟨mem, T⟩
  .ok (k.setProc p { k.proc p with
    state := .used, pagetable := T.map (·.root), vmas := [], maxVma := MMAP_MAX_ADDR_START,
    threads := [], ghosts := 0, threadCnt := 0, threadIdx := 0, leader := none })

/-- One round of the loop of `freeproc` over the threads. The count is that of the process
that runs, `cur`. -/
def freeprocThread (cur p : ProcId) (k : Kernel) (t : Tcb) : Except Panic Kernel :=
  if (k.proc cur).threadCnt = 0 then .error .threadCount
  else freeThread
    (k.setProc cur { k.proc cur with threadCnt := (k.proc cur).threadCnt - 1 }) p t

/-- `freeproc`, called by the process `cur`. -/
def freeproc (k : Kernel) (cur p : ProcId) : Except Panic Kernel :=
  if 0 < (k.proc p).ghosts then .error .nullProc
  else do
    let k ← (k.proc p).threads.foldlM (freeprocThread cur p) k
    let k ← (match (k.proc p).pagetable with
      | none => .ok k
      | some _ => do
        let S ← k.space p
        k.freeTable S.tbl (k.proc p).sz 0)
    .ok (k.setProc p { k.proc p with
      state := .unused, parent := none, pagetable := none, sz := 0, threads := [],
      leader := none })

/-- `proc_copy_vma` of the mappings to the process `np`, with memory for a number of them. -/
def procCopyVma (np : ProcId) : Kernel → ℕ → List Vma → Except Panic (Bool × Kernel)
  | k, _, [] => .ok (true, k)
  | k, 0, _ :: _ => .ok (false, k)
  | k, n + 1, w :: ws =>
    match w.file with
    | none => .error .nullFile
    | some _ =>
      procCopyVma np (k.setProc np { k.proc np with vmas := (k.proc np).vmas ++ [w] }) n ws

/-- The arguments of `do_clone`: the flags `CLONE_THREAD` and `CLONE_VM`, and the addresses
for the identifier of the new thread if `CLONE_CHILD_SETTID` and `CLONE_PARENT_SETTID` are set.
Further, what the call gets: an entry of the process table, one of the table of threads, the
identifier, and memory for a number of mappings. -/
structure CloneArgs where
  thread : Bool
  vm : Bool
  ctid : Option ℕ
  ptid : Option ℕ
  np : Option ProcId
  tcb : Bool
  tid : BitVec 32
  vmaPages : ℕ
  deriving DecidableEq, Repr

/-- The bytes of an `int`. -/
def intBytes (x : BitVec 32) : List UInt8 :=
  (List.range 4).map fun i => UInt8.ofNat (x.toNat / 256 ^ i)

/-- The identifier is copied to the caller. -/
def storeTid (k : Kernel) (p : ProcId) (addr : Option ℕ) (tid : BitVec 32) :
    Except Panic (Bool × Kernel) :=
  match addr with
  | none => .ok (true, k)
  | some a => do
    let S ← k.space p
    let (copied, S) := copyout S a (intBytes tid)
    .ok (copied, k.put S)

/-- Both copies of the identifier. -/
def storeTids (k : Kernel) (p : ProcId) (a : CloneArgs) : Except Panic (Bool × Kernel) := do
  let (copied, k) ← storeTid k p a.ctid a.tid
  if copied then storeTid k p a.ptid a.tid else .ok (false, k)

/-- `do_clone` with `CLONE_THREAD`. If it fails, the thread is freed and stays in the list. -/
def cloneThread (k : Kernel) (p : ProcId) (a : CloneArgs) : Except Panic (Bool × Kernel) :=
  if a.tcb = false then .ok (false, k)
  else do
    let (t, k) ← procJoinThread k p
    if t.trapframe = none then do
      let k ← freeThread k p t
      .ok (false, k.haunt p t)
    else do
      let (copied, k) ← storeTids k p a
      if copied then .ok (true, k)
      else do
        let k ← freeThread k p t
        .ok (false, k.haunt p t)

/-- The part of `do_clone` that copies the address space to the process `np`. -/
def cloneSpace (k : Kernel) (p np : ProcId) (vm : Bool) : Except Panic (Bool × Kernel) :=
  if vm then
    .ok (true, k.setProc np { k.proc np with pagetable := (k.proc p).pagetable })
  else do
    let old ← k.space p
    let S ← k.space np
    let (copied, S) ← uvmcopy old.tbl S (k.proc p).sz
    .ok (copied, k.put S)

/-- `do_clone` without `CLONE_THREAD`, with the entry `np` of the process table. The size is
set after the mappings are copied. -/
def cloneProc (k : Kernel) (p np : ProcId) (a : CloneArgs) : Except Panic (Bool × Kernel) := do
  let k ← allocproc k np
  if a.tcb = false then do
    let k ← freeproc k p np
    .ok (false, k)
  else do
    let (t, k) ← procJoinThread k np
    if t.trapframe = none then .error .nullTrapframe
    else do
      let (stored, k) ← storeTids k p a
      if stored = false then do
        -- the thread is freed with the process, and then again
        let _ ← freeproc k p np
        .error .nullProc
      else do
        let (copied, k) ← cloneSpace k p np a.vm
        if copied = false then do
          let k ← freeproc k p np
          .ok (false, k)
        else do
          let (copied, k) ← procCopyVma np k a.vmaPages (k.proc p).vmas
          if copied = false then do
            let k ← freeproc k p np
            .ok (false, k)
          else
            .ok (true, k.setProc np { k.proc np with
              sz := (k.proc p).sz, ofile := (k.proc p).ofile, parent := some p })

/-- `do_clone`. -/
def doClone (k : Kernel) (p : ProcId) (a : CloneArgs) : Except Panic (Bool × Kernel) :=
  if a.thread then cloneThread k p a
  else match a.np with
    | none => .ok (false, k)
    | some np => cloneProc k p np a

/-! ### Exit and wait -/

/-- `reparent`. -/
def reparent (k : Kernel) (p : ProcId) : Kernel :=
  { k with proc := fun q =>
      if (k.proc q).parent = some p then { k.proc q with parent := some initproc }
      else k.proc q }

/-- `proc_exit`. -/
def procExit (k : Kernel) (p : ProcId) : Except Panic Kernel :=
  if p = initproc then .error .initExiting
  else do
    let k ← freeprocvm
      (k.setProc p { k.proc p with ofile := fun _ => none }) p
    let k := reparent k p
    .ok (k.setProc p { k.proc p with state := .zombie })

/-- `thread_exit` of the thread `t` of the process `p`. -/
def threadExit (k : Kernel) (p : ProcId) (t : Tcb) : Except Panic Kernel := do
  let cnt := (k.proc p).threadCnt
  let k := k.setProc p { k.proc p with threadCnt := cnt - 1 }
  let k ← (if cnt = 1 then procExit k p else .ok k)
  let P := k.proc p
  let rest := P.threads.erase t
  let leader := if P.leader = some t.tidx then rest.head?.map (·.tidx) else P.leader
  freeThread (k.setProc p { P with threads := rest, leader }) p t

/-- `sys_exit_group`. -/
def exitGroup (k : Kernel) (p : ProcId) (t : Tcb) : Except Panic Kernel := do
  let k ← (if (k.proc p).leader = some t.tidx then freeAllotherThreadsGroup k p t else .ok k)
  threadExit k p t

/-- `wait_one` and `wait4`, when they have found the process `q`. The status is copied to
`addr` if that is not null. -/
def reap (k : Kernel) (p q : ProcId) (addr : ℕ) (status : BitVec 32) :
    Except Panic (Bool × Kernel) := do
  let (copied, k) ← storeTid k p (if addr = 0 then none else some addr) status
  if copied then do
    let k ← freeproc k p q
    .ok (true, k)
  else .ok (false, k)

/-! ### The first process -/

def initcodeLen : ℕ := 17687

/-- The address space of the first process: its code, and a stack of eight pages whose lowest
page is a guard. -/
def userSpace (S : Space) : Except Panic (ℕ × Space) := do
  let (done, S) ← uvmallocLoop 0 (pages initcodeLen) 0 S
  if done = false then .error .userinit
  else do
    let sz := pages initcodeLen * PGSIZE
    let (sz, S) ← uvmalloc S sz (sz + 8 * PGSIZE)
    if sz = 0 then .error .userinit
    else do
      let S ← uvmclear S (vpn (sz - 8 * PGSIZE))
      .ok (sz, S)

/-- `userinit`. -/
def userinit (k : Kernel) : Except Panic Kernel := do
  let k ← allocproc k initproc
  let (t, k) ← procJoinThread k initproc
  if t.trapframe = none then .error .nullTrapframe
  else do
    let S ← k.space initproc
    let (sz, S) ← userSpace S
    .ok ((k.put S).setProc initproc { k.proc initproc with sz })

end XVapor.Vm
