import XVapor.Panic
import Mathlib.Data.Fintype.Basic

/-!
# Files, Descriptors and Mappings

The system-wide file table `ftable`, the descriptor table `ofile` of every process with its
counter `ofile_cnt`, and the mappings of a process, with the calls that create and drop
references to files: `open`, `dev`, `dup`, `dup3`, `fcntl`, `pipe`, `close`, `mmap`, `munmap`,
`clone`, `execve`, `exit` and `wait`.

References are counted by hand, in `ref` and in `ofile_cnt`, by `filealloc`, `filedup` and
`fileclose`, whose argument `drop_ofile_cnt` says whether a descriptor goes away with the
reference. What the kernel reads from elsewhere is an argument of the call: whether memory
is found, whether a copy to the user succeeds, whether the file system opens the file, and
the value of a variable that is used without having been set.

A panic or a fault in the kernel ends a call without a next state.
-/

namespace XVapor.Files

def NOFILE : ℕ := 256
def NFILE : ℕ := 1024
def NPROC : ℕ := 16
def NDEV : ℤ := 10
def EMFILE : ℤ := 24
def EINVAL : ℤ := 22

abbrev Fd := Fin NOFILE
abbrev FileId := Fin NFILE
abbrev ProcId := Fin NPROC

/-! ### State -/

/-- A `struct file`: its reference count and its flags. -/
structure File where
  ref : ℤ
  flags : BitVec 32
  deriving DecidableEq, Repr

/-- A `struct vma_struct`: its bounds, and the file of a `VMA_FILE`. -/
structure Vma where
  start : BitVec 64
  stop : BitVec 64
  file : Option FileId
  deriving DecidableEq, Repr

inductive ProcState
  | unused
  | used
  | zombie
  deriving DecidableEq, Repr

/-- The fields of a `struct proc` that the calls read: its state, its descriptors and their
count, the limit `rlim[RLIMIT_NOFILE].rlim_cur`, and its mappings. -/
structure Proc where
  state : ProcState
  ofile : Fd → Option FileId
  ofileCnt : ℤ
  rlimCur : BitVec 64
  vmas : List Vma
  maxVma : BitVec 64

/-- `ftable` and the process table. -/
structure FsState where
  file : FileId → File
  proc : ProcId → Proc

inductive Panic
  /-- `panic("filedup")` -/
  | filedup
  /-- `panic("fileclose")` -/
  | fileclose
  /-- `panic("fileclose: ofile_cnt < 0")` -/
  | ofileCnt
  /-- `panic("init exiting")` -/
  | initExiting
  /-- `panic("mmap_writeback: walk")` -/
  | mmapWriteback
  /-- a read through the null file of an anonymous mapping -/
  | nullFile
  deriving DecidableEq, Repr

namespace FsState

variable (s : FsState)

def setFile (f : FileId) (F : File) : FsState :=
  { s with file := Function.update s.file f F }

def setProc (p : ProcId) (P : Proc) : FsState :=
  { s with proc := Function.update s.proc p P }

/-- `f->ref += d` -/
def addRef (f : FileId) (d : ℤ) : FsState :=
  s.setFile f { s.file f with ref := (s.file f).ref + d }

def setFlags (f : FileId) (flags : BitVec 32) : FsState :=
  s.setFile f { s.file f with flags := flags }

/-- `p->ofile[fd] = o` -/
def setSlot (p : ProcId) (fd : Fd) (o : Option FileId) : FsState :=
  s.setProc p { s.proc p with ofile := Function.update (s.proc p).ofile fd o }

/-- `p->ofile_cnt += d` -/
def addCnt (p : ProcId) (d : ℤ) : FsState :=
  s.setProc p { s.proc p with ofileCnt := (s.proc p).ofileCnt + d }

def setVmas (p : ProcId) (vmas : List Vma) : FsState :=
  s.setProc p { s.proc p with vmas := vmas }

end FsState

/-! ### Flags -/

def O_WRONLY : BitVec 32 := 1
def O_RDWR : BitVec 32 := 2
def O_ACCMODE : BitVec 32 := 3
def O_CLOEXEC : BitVec 32 := 0x80000
def PROT_WRITE : BitVec 32 := 2
def MAP_SHARED : BitVec 32 := 1
def MAP_ANONYMOUS : BitVec 32 := 0x20

/-- The access mode of the flags is replaced. -/
def setMode (flags mode : BitVec 32) : BitVec 32 := (flags &&& ~~~O_ACCMODE) ||| mode

def isWritable (flags : BitVec 32) : Bool := flags &&& O_ACCMODE ≠ 0

def setReadable (flags : BitVec 32) : BitVec 32 :=
  if flags &&& O_ACCMODE = O_WRONLY then setMode flags O_RDWR
  else if flags &&& O_ACCMODE = 0 then setMode flags 0
  else flags

/-- The second branch of the macro tests for the mode of the first one again. -/
def setWritable (flags : BitVec 32) : BitVec 32 :=
  if flags &&& O_ACCMODE = 0 then setMode flags O_RDWR else flags

def unsetReadable (flags : BitVec 32) : BitVec 32 :=
  if flags &&& O_ACCMODE = 0 then setMode flags 0
  else if flags &&& O_ACCMODE = O_RDWR then setMode flags O_WRONLY
  else flags

def unsetWritable (flags : BitVec 32) : BitVec 32 :=
  if flags &&& O_ACCMODE = O_WRONLY then setMode flags 0
  else if flags &&& O_ACCMODE = O_RDWR then setMode flags 0
  else flags

/-- `set_omode`, on the flags. -/
def setOmode (flags omode : BitVec 32) : BitVec 32 :=
  let flags := if omode &&& O_WRONLY = 0 then setReadable flags else flags
  if omode &&& O_WRONLY ≠ 0 ∨ omode &&& O_RDWR ≠ 0 then setWritable flags else flags

/-! ### Files -/

/-- `for (j = i; j < n; j++) if (q(j)) return j;`, with `fuel` rounds. -/
def searchFrom {n : ℕ} (q : Fin n → Bool) : (fuel i : ℕ) → Option (Fin n)
  | 0, _ => none
  | fuel + 1, i =>
    if h : i < n then if q ⟨i, h⟩ then some ⟨i, h⟩ else searchFrom q fuel (i + 1) else none

theorem searchFrom_eq_some {n : ℕ} {q : Fin n → Bool} {fuel i : ℕ} {x : Fin n}
    (h : searchFrom q fuel i = some x) : q x = true := by
  induction fuel generalizing i with
  | zero => nomatch h
  | succ fuel ih =>
    simp only [searchFrom] at h
    split at h
    next hi =>
      split at h
      next hq =>
        cases h
        exact hq
      next => exact ih h
    next => nomatch h

/-- `filealloc`: the first file of the table whose count is zero. -/
def filealloc (s : FsState) : Option (FileId × FsState) :=
  (searchFrom (fun f => (s.file f).ref = 0) NFILE 0).map fun f => (f, s.setFile f ⟨1, 0⟩)

def filedup (s : FsState) (f : FileId) : Except Panic FsState :=
  if (s.file f).ref < 1 then .error .filedup else .ok (s.addRef f 1)

/-- `fileclose`, called by process `p`. The last reference clears the file. -/
def fileclose (s : FsState) (p : ProcId) (f : FileId) (drop : Bool) : Except Panic FsState :=
  let s := if drop then s.addCnt p (-1) else s
  if (s.proc p).ofileCnt < 0 then .error .ofileCnt
  else if (s.file f).ref < 1 then .error .fileclose
  else if 0 < (s.file f).ref - 1 then .ok (s.addRef f (-1))
  else .ok (s.setFile f ⟨0, 0⟩)

/-! ### Descriptors -/

/-- `is_exc_rcfile`. The count is converted to the unsigned type of the limit. -/
def isExcRcfile (P : Proc) : Bool :=
  P.rlimCur ≤ BitVec.ofInt 64 P.ofileCnt ∨ (NOFILE : ℤ) ≤ P.ofileCnt

/-- The first free descriptor from `i` on. -/
def freeSlot (P : Proc) (i : ℕ) : Option Fd :=
  searchFrom (fun fd => (P.ofile fd).isNone) (NOFILE - i) i

/-- A descriptor argument that is in range. -/
def toFd (n : ℤ) : Option Fd :=
  if h : 0 ≤ n ∧ n < NOFILE then some ⟨n.toNat, by omega⟩ else none

/-- `argfd`. -/
def argfd (P : Proc) (n : ℤ) : Option (Fd × FileId) :=
  (toFd n).bind fun fd => (P.ofile fd).map fun f => (fd, f)

/-- The file is put at a free descriptor. -/
def install (s : FsState) (p : ProcId) (fd : Fd) (f : FileId) : FsState :=
  (s.setSlot p fd (some f)).addCnt p 1

/-- The descriptor that `fdalloc` takes. -/
def fdFree (P : Proc) : Option Fd :=
  if isExcRcfile P then none else freeSlot P 0

/-- `fdalloc`, which returns the descriptor, or an error number. -/
def fdalloc (s : FsState) (p : ProcId) (f : FileId) : Except ℤ (Fd × FsState) :=
  match fdFree (s.proc p) with
  | none => .error (-EMFILE)
  | some fd => .ok (fd, install s p fd f)

/-- `fdalloc_lteq`. -/
def fdallocLteq (s : FsState) (p : ProcId) (f : FileId) (dmd : ℤ) :
    Except ℤ (Fd × FsState) :=
  match toFd dmd with
  | none => .error (-1)
  | some i =>
    if isExcRcfile (s.proc p) then .error (-EMFILE)
    else match freeSlot (s.proc p) i with
      | none => .error (-1)
      | some fd => .ok (fd, install s p fd f)

/-- `fdalloc_spec`, for a descriptor that is in range. -/
def fdallocSpec (s : FsState) (p : ProcId) (f : FileId) (fd : Fd) : Except Panic FsState :=
  match (s.proc p).ofile fd with
  | none => .ok (install s p fd f)
  | some g => do
    let s ← fileclose s p g true
    .ok (install (s.setSlot p fd none) p fd f)

/-! ### Calls on descriptors -/

/-- What the file system does with an `open`: there is no file system for the path (or it
has no `open`), it fails, or the file is opened. -/
inductive OpenResult
  | noFs
  | fails (r : ℤ)
  | opened
  deriving DecidableEq, Repr

/-- `generic_open`. Without a file system the descriptor stays. -/
def genericOpen (s : FsState) (p : ProcId) (flags omode : BitVec 32) (res : OpenResult) :
    Except Panic (ℤ × FsState) :=
  match filealloc s with
  | none => .ok (-1, s)
  | some (f, s) =>
    match fdalloc s p f with
    | .error e => do
      let s ← fileclose s p f false
      .ok (e, s)
    | .ok (fd, s) =>
      let s' := s.setFlags f (setOmode ((s.file f).flags ||| flags) omode)
      match res with
      | .noFs => .ok (-1, s)
      | .opened => .ok (fd, s')
      | .fails r => do
        let s ← fileclose s' p f true
        .ok (r, s.setSlot p fd none)

/-- `sys_dev`. -/
def sysDev (s : FsState) (p : ProcId) (omode : BitVec 32) (major : ℤ) :
    Except Panic (ℤ × FsState) :=
  if major < 0 ∨ NDEV ≤ major then .ok (-1, s)
  else match filealloc s with
    | none => .ok (-1, s)
    | some (f, s) =>
      match fdalloc s p f with
      | .error _ => do
        let s ← fileclose s p f false
        .ok (-1, s)
      | .ok (fd, s) => .ok (fd, s.setFlags f (setOmode (s.file f).flags omode))

/-- `sys_dup`. -/
def sysDup (s : FsState) (p : ProcId) (fd : ℤ) : Except Panic (ℤ × FsState) :=
  match argfd (s.proc p) fd with
  | none => .ok (-1, s)
  | some (_, f) =>
    match fdalloc s p f with
    | .error e => .ok (e, s)
    | .ok (fd, s) => do
      let s ← filedup s f
      .ok (fd, s)

/-- `sys_dup3`. -/
def sysDup3 (s : FsState) (p : ProcId) (oldfd newfd : ℤ) (flags : BitVec 32) :
    Except Panic (ℤ × FsState) :=
  match argfd (s.proc p) oldfd, toFd newfd with
  | some (old, f), some new =>
    if new = old then .ok (-EINVAL, s)
    else do
      let s ← fdallocSpec s p f new
      let s := s.setFlags f (if flags &&& O_CLOEXEC ≠ 0 then (s.file f).flags ||| O_CLOEXEC
        else (s.file f).flags &&& ~~~O_CLOEXEC)
      let s ← filedup s f
      .ok (new, s)
  | _, _ => .ok (-1, s)

/-- The commands of `do_fcntl`. -/
inductive FcntlCmd
  | dupfd
  | getfd
  | setfd
  | getfl
  | setfl
  | dupfdCloexec
  | unknown
  deriving DecidableEq, Repr

/-- `fdalloc_lteq` and `filedup`. -/
def fcntlDup (s : FsState) (p : ProcId) (f : FileId) (arg : ℤ) : Except Panic (ℤ × FsState) :=
  match fdallocLteq s p f arg with
  | .error e => .ok (e, s)
  | .ok (fd, s) => do
    let s ← filedup s f
    .ok (fd, s)

/-- `getfd`: the first descriptor of the file. -/
def getfd (P : Proc) (f : FileId) : ℤ :=
  ((searchFrom (fun fd => P.ofile fd = some f) NOFILE 0).map fun fd => (fd : ℤ)).getD (-1)

/-- `setfd`: the file is put at a free descriptor, and nothing is counted. -/
def setfd (s : FsState) (p : ProcId) (f : FileId) (n : ℤ) : ℤ × FsState :=
  match toFd n with
  | none => (-1, s)
  | some fd =>
    match (s.proc p).ofile fd with
    | some _ => (-1, s)
    | none => (0, s.setSlot p fd (some f))

/-- `do_fcntl`. Its argument is passed on as an `int`. -/
def doFcntl (s : FsState) (p : ProcId) (f : FileId) (cmd : FcntlCmd) (arg : BitVec 64) :
    Except Panic (ℤ × FsState) :=
  match cmd with
  | .dupfd => fcntlDup s p f (arg.setWidth 32).toInt
  | .getfd => .ok (getfd (s.proc p) f, s)
  | .setfd => .ok (setfd s p f (arg.setWidth 32).toInt)
  | .getfl => .ok ((s.file f).flags.toInt, s)
  | .setfl => .ok (0, s.setFlags f (arg.setWidth 32))
  | .dupfdCloexec => fcntlDup s p f (arg.setWidth 32).toInt
  | .unknown => .ok (-1, s)

/-- `sys_fcntl`. -/
def sysFcntl (s : FsState) (p : ProcId) (fd : ℤ) (cmd : FcntlCmd) (arg : BitVec 64) :
    Except Panic (ℤ × FsState) :=
  match argfd (s.proc p) fd with
  | none => .ok (-1, s)
  | some (_, f) => doFcntl s p f cmd arg

/-- `pipealloc`, which finds a page or not. -/
def pipealloc (s : FsState) (p : ProcId) (page : Bool) :
    Except Panic (Option (FileId × FileId) × FsState) :=
  match filealloc s with
  | none => .ok (none, s)
  | some (f0, s) =>
    match filealloc s with
    | none => do
      let s ← fileclose s p f0 false
      .ok (none, s)
    | some (f1, s) =>
      if page then
        let s := s.setFlags f0 (unsetWritable (setReadable (s.file f0).flags))
        .ok (some (f0, f1), s.setFlags f1 (setWritable (unsetReadable (s.file f1).flags)))
      else do
        let s ← fileclose s p f0 false
        let s ← fileclose s p f1 false
        .ok (none, s)

/-- The descriptors of `sys_pipe`. `fd₁` is the value of the variable `fd1` before it is set:
if the first `fdalloc` fails, the second is not called, and `fd1` is read without having been
set. -/
def pipeFds (s : FsState) (p : ProcId) (rf wf : FileId) (fd₁ : ℤ) (copied : Bool) :
    Except Panic (ℤ × FsState) :=
  match fdalloc s p rf with
  | .error _ => do
    let s ← fileclose s p rf false
    let s ← fileclose s p wf (decide (0 ≤ fd₁))
    .ok (-1, s)
  | .ok (fd0, s) =>
    match fdalloc s p wf with
    | .error _ => do
      let s ← fileclose (s.setSlot p fd0 none) p rf true
      let s ← fileclose s p wf false
      .ok (-1, s)
    | .ok (fd1, s) =>
      if copied then .ok (0, s)
      else do
        let s ← fileclose ((s.setSlot p fd0 none).setSlot p fd1 none) p rf true
        let s ← fileclose s p wf true
        .ok (-1, s)

/-- `sys_pipe`. -/
def sysPipe (s : FsState) (p : ProcId) (page : Bool) (fd₁ : ℤ) (copied : Bool) :
    Except Panic (ℤ × FsState) := do
  let (files, s) ← pipealloc s p page
  match files with
  | none => .ok (-1, s)
  | some (rf, wf) => pipeFds s p rf wf fd₁ copied

/-- `sys_close`. -/
def sysClose (s : FsState) (p : ProcId) (fd : ℤ) : Except Panic (ℤ × FsState) :=
  match argfd (s.proc p) fd with
  | none => .ok (-1, s)
  | some (fd, f) => do
    let s ← fileclose (s.setSlot p fd none) p f true
    .ok (0, s)

/-! ### Mappings -/

/-- `PGROUNDDOWN` -/
def pgRoundDown (a : BitVec 64) : BitVec 64 := a &&& ~~~4095

/-- `if (vma->type == VMA_FILE) vma->file->ref += d;` -/
def refVma (s : FsState) (file : Option FileId) (d : ℤ) : FsState :=
  match file with
  | none => s
  | some f => s.addRef f d

/-- `do_mmap` of the file `fp`, or of none if the mapping is anonymous. `top` is
`MMAP_MAX_ADDR_START`. The reference is counted before the last check. -/
def doMmap (top : BitVec 64) (s : FsState) (p : ProcId) (length : BitVec 64)
    (prot flags : BitVec 32) (fp : Option FileId) (page : Bool) : ℤ × FsState :=
  if (∃ f ∈ fp, isWritable (s.file f).flags = false) ∧ prot &&& PROT_WRITE ≠ 0 ∧
      flags &&& MAP_SHARED ≠ 0 then (-1, s)
  else if page = false then (-1, s)
  else
    let P := s.proc p
    let v : Vma := ⟨pgRoundDown (P.maxVma - length), pgRoundDown P.maxVma, fp⟩
    let s := refVma (s.setProc p { P with maxVma := v.start }) fp 1
    if v.start < top - 0x40000000 then (-1, s)
    else (v.start.toNat, s.setVmas p (P.vmas ++ [v]))

/-- `sys_mmap`. -/
def sysMmap (top : BitVec 64) (s : FsState) (p : ProcId) (length : BitVec 32)
    (prot flags : BitVec 32) (fd : ℤ) (page : Bool) : ℤ × FsState :=
  if flags &&& MAP_ANONYMOUS ≠ 0 then
    doMmap top s p (length.signExtend 64) prot flags none page
  else match argfd (s.proc p) fd with
    | none => (-1, s)
    | some (_, f) => doMmap top s p (length.signExtend 64) prot flags (some f) page

/-- `find_vma`: the mapping that holds the address, with those before and after it. -/
def findVma (addr : BitVec 64) : List Vma → Option (List Vma × Vma × List Vma)
  | [] => none
  | v :: vs =>
    if v.start ≤ addr ∧ addr < v.stop then some ([], v, vs)
    else (findVma addr vs).map fun (before, w, after) => (v :: before, w, after)

theorem findVma_eq_some {addr : BitVec 64} {vs before after : List Vma} {v : Vma}
    (h : findVma addr vs = some (before, v, after)) : vs = before ++ v :: after := by
  induction vs generalizing before with
  | nil => nomatch h
  | cons w vs ih =>
    simp only [findVma] at h
    split at h
    · obtain ⟨rfl, rfl, rfl⟩ : [] = before ∧ w = v ∧ vs = after := by simpa using h
      rfl
    obtain ⟨⟨b, u, a⟩, hf, heq⟩ := Option.map_eq_some_iff.1 h
    obtain ⟨rfl, rfl, rfl⟩ : w :: b = before ∧ u = v ∧ a = after := by simpa using heq
    rw [ih hf, List.cons_append]

/-- `do_munmap`. `walks` says that every walk of `mmap_writeback_unmapf` finds an entry. -/
def doMunmap (s : FsState) (p : ProcId) (addr : BitVec 64) (len : BitVec 32) (walks : Bool) :
    Except Panic (ℤ × FsState) :=
  match findVma addr (s.proc p).vmas with
  | none => .ok (-1, s)
  | some (before, v, after) =>
    if walks = false then .error .mmapWriteback
    else
      let v := { v with start := v.start + len.signExtend 64 }
      if v.stop ≤ v.start then .ok (0, (refVma s v.file (-1)).setVmas p (before ++ after))
      else .ok (0, s.setVmas p (before ++ v :: after))

/-! ### Processes -/

/-- `MMAP_MAX_ADDR_START` on RISC-V, below the trampoline, the signal page and the trap frames
of the four threads. -/
def mmapMaxAddrStart : BitVec 64 := (1 <<< 38) - (3 + 4) * 4096

/-- `allocproc` of the entry `p` of the table. -/
def allocproc (top : BitVec 64) (s : FsState) (p : ProcId) : FsState :=
  s.setProc p { s.proc p with
    state := .used, ofileCnt := 0, rlimCur := BitVec.allOnes 64, vmas := [], maxVma := top }

/-- `freeproc`. The descriptors and the mappings are not looked at. -/
def freeproc (s : FsState) (p : ProcId) : FsState :=
  s.setProc p { s.proc p with state := .unused, ofileCnt := 0, rlimCur := 0 }

/-- `proc_copy_vma` of the mappings to process `np`, with a number of pages for them. -/
def procCopyVma (np : ProcId) : FsState → ℕ → List Vma → Except Panic (Bool × FsState)
  | s, _, [] => .ok (true, s)
  | s, 0, _ :: _ => .ok (false, s)
  | s, pages + 1, v :: vs =>
    match v.file with
    | none => .error .nullFile
    | some f =>
      procCopyVma np ((s.addRef f 1).setVmas np ((s.proc np).vmas ++ [v])) pages vs

/-- One round of the loop of `do_clone` over the descriptors. -/
def copySlot (p np : ProcId) (s : FsState) (fd : Fd) : Except Panic FsState :=
  match (s.proc p).ofile fd with
  | none => .ok s
  | some f => do
    let s ← filedup s f
    .ok ((s.setSlot np fd (some f)).addCnt np 1)

/-- How far a `do_clone` gets that is not for a thread: it fails before the mappings are
copied, or it has a number of pages for the mappings. -/
inductive CloneResult
  | fails
  | pages (n : ℕ)
  deriving DecidableEq, Repr

/-- `do_clone` without `CLONE_THREAD`, with the entry `np` of the process table. -/
def doClone (top : BitVec 64) (s : FsState) (p np : ProcId) (pid : ℤ) (res : CloneResult) :
    Except Panic (ℤ × FsState) :=
  if (s.proc np).state ≠ .unused then .ok (-1, s)
  else
    let s := allocproc top s np
    match res with
    | .fails => .ok (-1, freeproc s np)
    | .pages n => do
      let (copied, s) ← procCopyVma np s n (s.proc p).vmas
      if copied then do
        let s ← (List.finRange NOFILE).foldlM (copySlot p np) s
        .ok (pid, s)
      else .ok (-1, freeproc s np)

/-- One round of the loop of `execve` over the descriptors. -/
def closeCloexec (p : ProcId) (s : FsState) (fd : Fd) : Except Panic FsState :=
  match (s.proc p).ofile fd with
  | none => .ok s
  | some f =>
    if (s.file f).flags &&& O_CLOEXEC ≠ 0 then do
      let s ← fileclose s p f true
      .ok (s.setSlot p fd none)
    else .ok s

/-- `execve`. It allocates a file for the program and, if that is linked dynamically, one for
the linker; it fails later, or commits to the new image. -/
def execve (s : FsState) (p : ProcId) (needDynamic commits : Bool) :
    Except Panic (ℤ × FsState) :=
  match filealloc s with
  | none => .ok (-1, s)
  | some (_, s) =>
    match if needDynamic then (filealloc s).map Prod.snd else some s with
    | none => .ok (-1, s)
    | some s =>
      if commits then do
        let s ← (List.finRange NOFILE).foldlM (closeCloexec p) s
        .ok (0, s)
      else .ok (-1, s)

/-- One round of the loop of `proc_exit` over the descriptors. -/
def closeSlot (p : ProcId) (s : FsState) (fd : Fd) : Except Panic FsState :=
  match (s.proc p).ofile fd with
  | none => .ok s
  | some f =>
    if 0 < (s.file f).ref then do
      let s ← fileclose s p f true
      .ok (s.setSlot p fd none)
    else .ok (s.setSlot p fd none)

theorem nproc_pos : 0 < NPROC := by decide

theorem one_lt_nproc : 1 < NPROC := by decide

def initproc : ProcId := ⟨0, nproc_pos⟩

/-- `proc_exit`. `freeprocvm` frees the mappings, and leaves the counts of their files. -/
def procExit (s : FsState) (p : ProcId) (walks : Bool) : Except Panic (ℤ × FsState) :=
  if p = initproc then .error .initExiting
  else do
    let s ← (List.finRange NOFILE).foldlM (closeSlot p) s
    if (s.proc p).vmas ≠ [] ∧ walks = false then .error .mmapWriteback
    else .ok (0, s.setProc p { s.proc p with vmas := [], state := .zombie })

/-- The end of `wait_one` and `wait4` for the child `pp`. -/
def waitChild (s : FsState) (pp : ProcId) : ℤ × FsState :=
  if (s.proc pp).state = .zombie then (0, freeproc s pp) else (-1, s)

/-- `prlimit` of `RLIMIT_NOFILE`. -/
def prlimit (s : FsState) (p : ProcId) (cur : BitVec 64) : ℤ × FsState :=
  (0, s.setProc p { s.proc p with rlimCur := cur })

/-! ### The machine -/

/-- The calls. -/
inductive FileCall
  | openFile (flags omode : BitVec 32) (res : OpenResult)
  | dev (omode : BitVec 32) (major : ℤ)
  | dup (fd : ℤ)
  | dup3 (oldfd newfd : ℤ) (flags : BitVec 32)
  | fcntl (fd : ℤ) (cmd : FcntlCmd) (arg : BitVec 64)
  | pipe (page : Bool) (fd₁ : ℤ) (copied : Bool)
  | close (fd : ℤ)
  | mmap (length prot flags : BitVec 32) (fd : ℤ) (page : Bool)
  | munmap (addr : BitVec 64) (len : BitVec 32) (walks : Bool)
  | clone (np : ProcId) (pid : ℤ) (res : CloneResult)
  | execve (needDynamic commits : Bool)
  | exit (walks : Bool)
  | wait (pp : ProcId)
  | prlimit (cur : BitVec 64)
  deriving DecidableEq, Repr

/-- A call of process `p`. -/
def call (top : BitVec 64) (s : FsState) (p : ProcId) : FileCall → Except Panic (ℤ × FsState)
  | .openFile flags omode res => genericOpen s p flags omode res
  | .dev omode major => sysDev s p omode major
  | .dup fd => sysDup s p fd
  | .dup3 oldfd newfd flags => sysDup3 s p oldfd newfd flags
  | .fcntl fd cmd arg => sysFcntl s p fd cmd arg
  | .pipe page fd₁ copied => sysPipe s p page fd₁ copied
  | .close fd => sysClose s p fd
  | .mmap length prot flags fd page => .ok (sysMmap top s p length prot flags fd page)
  | .munmap addr len walks => doMunmap s p addr len walks
  | .clone np pid res => doClone top s p np pid res
  | .execve needDynamic commits => Files.execve s p needDynamic commits
  | .exit walks => procExit s p walks
  | .wait pp => .ok (waitChild s pp)
  | .prlimit cur => .ok (Files.prlimit s p cur)

/-- The tables before the first process. -/
def emptyTables : FsState where
  file _ := ⟨0, 0⟩
  proc _ := ⟨.unused, fun _ => none, 0, 0, [], 0⟩

/-- The state after `userinit`. -/
def boot (top : BitVec 64) : FsState := allocproc top emptyTables initproc

/-- The machine of processes that make these calls one after the other. -/
def filesMachine (top : BitVec 64) : Machine FsState (ProcId × FileCall) :=
  callMachine (boot top) (fun s a => (s.proc a.1).state = .used) fun s a => call top s a.1 a.2

end XVapor.Files
