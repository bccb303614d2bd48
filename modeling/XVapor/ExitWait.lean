import XVapor.FileTable
import XVapor.Ownership
import XVapor.Tally

/-!
# The Last Exit and the Wait

`thread_exit`, `proc_exit`, `wait_one`, `wait4`, `freeproc` and the part of `do_clone` that makes
a process (`sched/thread.c`, `sched/proc.c`), as steps of any number of threads on any number of
CPUs. A step is what happens between two operations on a lock, or one such operation: `wait_lock`,
the lock of a process, its `lth_exitlock`, and the locks of the threads. A section that takes a
lock, does one thing and gives it back is one step, for which the lock has to be free.

The thread that counts the threads of its process down from one runs `proc_exit`, with
`lth_exitlock` held until it has passed itself to `free_thread`. The lock of a thread that
switches to the scheduler is given back by the scheduler, when the CPU is off its stack.

Three fields are history: the exits (`exits`), the children that have been reaped with what the
call returns and has stored (`reaps`), and how often `proc_exit` and `free_thread` have been
called since an entry was allocated (`procExits`, `frees`).

## Main definitions

* `Pc`, `St`: where a thread is, and the state.
* `next`: the step of a thread.
* `machine`: all threads.
* `Orderly`: a thread that counts down from one is the only one left.
-/

namespace XVapor.ExitWait

open Function
open Files (ProcState)

/-- What a call waits for: any child (`wait_one`) or the child with a pid (`wait4`), whether there
is an address for the status, and `WNOHANG`. -/
structure Target where
  pid : Option ℕ
  addr : Bool
  nohang : Bool
  deriving DecidableEq

/-- A process with this pid is looked for. -/
def Target.sees (g : Target) (pid : ℕ) : Bool := g.pid.all fun n => n = pid

/-- What a wait returns and stores. -/
abbrev Found := ℕ × Option (BitVec 32)

/-- Where a thread is. -/
inductive Pc (K T : Type)
  /-- Not in use. -/
  | unused
  /-- Made, and not yet runnable. -/
  | fresh
  /-- In none of the calls. -/
  | user
  -- `thread_exit` and `proc_exit`
  | exit (status : BitVec 32)
  | exitWait (k : K) (status : BitVec 32)
  | exitLast (k : K) (status : BitVec 32)
  | reparent (k : K) (status : BitVec 32) (l : List K)
  | rewake (k : K) (status : BitVec 32) (l : List K) (ts : List T)
  | wakeParent (k : K) (status : BitVec 32) (ts : List T)
  | exitLock (k : K) (status : BitVec 32)
  | zombie (k : K) (status : BitVec 32)
  | exitUnwait (k : K)
  | exitUnlock (k : K)
  | unlink (k : K) (last : Bool)
  | lockTcb (k : K) (last : Bool)
  | freeTcb (k : K) (last : Bool)
  | unlast (k : K)
  /-- In `thread_sched`, still on its stack. -/
  | sched
  /-- Off its stack; the scheduler has its lock. -/
  | switched
  -- `wait_one` and `wait4`
  | wait (g : Target)
  | scan (g : Target) (l : List K) (havekids : Bool)
  | childLock (g : Target) (q : K) (l : List K)
  | child (g : Target) (q : K) (l : List K)
  | reapLast (q : K) (v : Found)
  | freeTable (q : K) (v : Found)
  | reset (q : K) (v : Found)
  | reapUnlast (q : K)
  | reapUnlock (q : K)
  | unwait
  -- `thread_sleep`
  | sleepLock (g : Target)
  | sleepUnwait (g : Target)
  | sleepMark (g : Target)
  | sleepSwitch (g : Target)
  | asleep (g : Target)
  | woken (g : Target)
  | resumed (g : Target)
  -- `do_clone`
  | cloneLock (k : K)
  | cloneInit (k : K)
  | cloneTcb (k : K)
  | tcbLock (k : K) (u : T)
  | tcbInit (k : K) (u : T)
  | tcbUnlock (k : K) (u : T)
  | cloneUnlock (k : K) (u : T)
  | cloneParent (k : K) (u : T)
  | cloneRun (k : K) (u : T)
  deriving DecidableEq

/-- The tables, and the first process. -/
structure Conf (K T : Type) where
  procTable : List K
  tcbPool : List T
  initproc : K

/-- The state: locks, processes, threads, history. -/
structure St (K T : Type) where
  waitLock : Option T
  lock : K → Option T
  lastLock : K → Option T
  tcbLock : T → Option T
  state : K → ProcState
  parent : K → Option K
  pid : K → ℕ
  xstate : K → BitVec 32
  /-- The process is on the queue of those that are not used. -/
  unusedProc : K → Bool
  threadCnt : K → ℤ
  /-- The list of threads that the thread is on. -/
  linked : T → Option K
  proc : T → Option K
  /-- The thread is on the queue of those that are not used. -/
  unusedTcb : T → Bool
  pc : T → Pc K T
  nextPid : ℕ
  exits : List (ℕ × BitVec 32)
  reaps : List Found
  procExits : K → ℕ
  frees : T → ℕ

namespace St

variable {K T : Type} [DecidableEq K] [DecidableEq T] (s : St K T)

/-- The thread goes on. -/
def goto (t : T) (x : Pc K T) : St K T := { s with pc := update s.pc t x }

/-- `acquire(&wait_lock)`. -/
def takeWait (t : T) (x : Pc K T) : Option (St K T) :=
  if s.waitLock = none then some ({ s with waitLock := some t }.goto t x) else none

/-- `release(&wait_lock)`. -/
def dropWait (t : T) (x : Pc K T) : St K T := { s with waitLock := none }.goto t x

/-- `acquire(&p->lock)`. -/
def takeLock (k : K) (t : T) (x : Pc K T) : Option (St K T) :=
  if s.lock k = none then some ({ s with lock := update s.lock k (some t) }.goto t x)
  else none

/-- `release(&p->lock)`. -/
def dropLock (k : K) (t : T) (x : Pc K T) : St K T :=
  { s with lock := update s.lock k none }.goto t x

/-- `acquire(&p->lth_exitlock)`. -/
def takeLast (k : K) (t : T) (x : Pc K T) : Option (St K T) :=
  if s.lastLock k = none then
    some ({ s with lastLock := update s.lastLock k (some t) }.goto t x)
  else none

/-- `release(&p->lth_exitlock)`. -/
def dropLast (k : K) (t : T) (x : Pc K T) : St K T :=
  { s with lastLock := update s.lastLock k none }.goto t x

/-- `acquire(&t->lock)`, for the thread `u`. -/
def takeTcb (u t : T) (x : Pc K T) : Option (St K T) :=
  if s.tcbLock u = none then
    some ({ s with tcbLock := update s.tcbLock u (some t) }.goto t x)
  else none

/-- `release(&t->lock)`, for the thread `u`. -/
def dropTcb (u t : T) (x : Pc K T) : St K T :=
  { s with tcbLock := update s.tcbLock u none }.goto t x

/-- `free_thread`. -/
def freeThread (t : T) : St K T :=
  { s with
    proc := update s.proc t none
    unusedTcb := update s.unusedTcb t true
    frees := update s.frees t (s.frees t + 1) }

/-- One turn of `thread_wakeup_chan`, for the threads that wait in the process `p`. -/
def wakeup (p : Option K) (w : T) : St K T :=
  match s.pc w with
  | .asleep g => if s.proc w = p then s.goto w (.woken g) else s
  | _ => s

/-- The loop of `freeproc` over the threads that are still linked: the caller's process counts
them down, and panics at zero. -/
def freeThreads (p : K) : List T → St K T → Option (St K T)
  | [], s => some s
  | t :: ts, s =>
    if s.threadCnt p = 0 then none
    else freeThreads p ts
      ({ s with
        linked := update s.linked t none
        threadCnt := update s.threadCnt p (s.threadCnt p - 1) }.freeThread t)

/-- `proc_exit` of the process `k`: its exit status, and the state. -/
def setZombie (k : K) (status : BitVec 32) : St K T :=
  { s with
    xstate := update s.xstate k (status <<< 8)
    state := update s.state k .zombie
    exits := s.exits ++ [(s.pid k, status)] }

/-- The end of `freeproc`. -/
def resetProc (q : K) (v : Found) : St K T :=
  { s with
    pid := update s.pid q 0
    parent := update s.parent q none
    xstate := update s.xstate q 0
    state := update s.state q .unused
    unusedProc := update s.unusedProc q true
    reaps := s.reaps ++ [v] }

/-- The end of `allocproc`. -/
def initProc (k : K) : St K T :=
  { s with
    pid := update s.pid k s.nextPid
    nextPid := s.nextPid + 1
    state := update s.state k .used
    threadCnt := update s.threadCnt k 0
    procExits := update s.procExits k 0 }

/-- The end of `alloc_thread`, and `proc_join_thread`. -/
def joinThread (k : K) (u : T) : St K T :=
  { s with
    proc := update s.proc u (some k)
    linked := update s.linked u (some k)
    threadCnt := update s.threadCnt k (s.threadCnt k + 1)
    frees := update s.frees u 0
    pc := update s.pc u .fresh }

end St

section

variable {K T : Type} [DecidableEq K] [DecidableEq T]

/-- **The step of a thread.** `b` says whether `copyout` succeeds, and whether the caller of a
wait has been killed. -/
def next (c : Conf K T) (s : St K T) (t : T) (b : Bool) : Option (St K T) :=
  match s.pc t with
  | .unused | .fresh | .user | .asleep _ | .cloneTcb _ => none
  | .exit status =>
    match s.proc t with
    | none => none
    | some k =>
      let s' := { s with threadCnt := update s.threadCnt k (s.threadCnt k - 1) }
      if s.threadCnt k = 1 then
        -- the first process must not exit
        if k = c.initproc then none
        else some ({ s' with procExits := update s.procExits k (s.procExits k + 1) }.goto t
          (.exitWait k status))
      else some (s'.goto t (.unlink k false))
  | .exitWait k status => s.takeWait t (.exitLast k status)
  | .exitLast k status => s.takeLast k t (.reparent k status c.procTable)
  | .reparent k status [] => some (s.goto t (.wakeParent k status c.tcbPool))
  | .reparent k status (q :: l) =>
    if s.parent q = some k then
      some ({ s with parent := update s.parent q (some c.initproc) }.goto t
        (.rewake k status l c.tcbPool))
    else some (s.goto t (.reparent k status l))
  | .rewake k status l [] => some (s.goto t (.reparent k status l))
  | .rewake k status l (w :: ts) =>
    if w = t then some (s.goto t (.rewake k status l ts))
    else if s.tcbLock w = none then
      some ((s.wakeup (some c.initproc) w).goto t (.rewake k status l ts))
    else none
  | .wakeParent k status [] => some (s.goto t (.exitLock k status))
  | .wakeParent k status (w :: ts) =>
    if w = t then some (s.goto t (.wakeParent k status ts))
    else if s.tcbLock w = none then
      some ((s.wakeup (s.parent k) w).goto t (.wakeParent k status ts))
    else none
  | .exitLock k status => s.takeLock k t (.zombie k status)
  | .zombie k status => some ((s.setZombie k status).goto t (.exitUnwait k))
  | .exitUnwait k => some (s.dropWait t (.exitUnlock k))
  | .exitUnlock k => some (s.dropLock k t (.unlink k true))
  | .unlink k last =>
    some ({ s with linked := update s.linked t none }.goto t (.lockTcb k last))
  | .lockTcb k last => s.takeTcb t t (.freeTcb k last)
  | .freeTcb k last =>
    -- `t->p` is read
    if s.proc t = none then none
    else some ((s.freeThread t).goto t (if last then .unlast k else .sched))
  | .unlast k => some (s.dropLast k t .sched)
  | .sched => some (s.goto t .switched)
  | .switched => some (s.dropTcb t t .unused)
  | .wait g => s.takeWait t (.scan g c.procTable false)
  | .scan g [] havekids =>
    if !havekids || b then some (s.goto t .unwait)
    else if g.nohang then some (s.goto t .unwait)
    else some (s.goto t (.sleepLock g))
  | .scan g (q :: l) havekids =>
    if s.parent q = s.proc t ∧ g.sees (s.pid q) = true then some (s.goto t (.childLock g q l))
    else some (s.goto t (.scan g l havekids))
  | .childLock g q l => s.takeLock q t (.child g q l)
  | .child g q l =>
    if s.state q = .zombie then
      if g.addr && !b then some (s.goto t (.reapUnlock q))
      else some (s.goto t
        (.reapLast q (s.pid q, if g.addr then some (s.xstate q) else none)))
    else some (s.dropLock q t (.scan g l true))
  | .reapLast q v => s.takeLast q t (.freeTable q v)
  | .freeTable q v =>
    match s.proc t with
    | none => none
    | some p =>
      (St.freeThreads p (c.tcbPool.filter fun u => s.linked u = some q) s).map fun s' =>
        s'.goto t (.reset q v)
  | .reset q v => some ((s.resetProc q v).goto t (.reapUnlast q))
  | .reapUnlast q => some (s.dropLast q t (.reapUnlock q))
  | .reapUnlock q => some (s.dropLock q t .unwait)
  | .unwait => some (s.dropWait t .user)
  | .sleepLock g => s.takeTcb t t (.sleepUnwait g)
  | .sleepUnwait g => some (s.dropWait t (.sleepMark g))
  | .sleepMark g => some (s.goto t (.sleepSwitch g))
  | .sleepSwitch g => some (s.dropTcb t t (.asleep g))
  | .woken g => s.takeTcb t t (.resumed g)
  | .resumed g => some (s.dropTcb t t (.wait g))
  | .cloneLock k => s.takeLock k t (.cloneInit k)
  | .cloneInit k => some ((s.initProc k).goto t (.cloneTcb k))
  | .tcbLock k u => s.takeTcb u t (.tcbInit k u)
  | .tcbInit k u => some ((s.joinThread k u).goto t (.tcbUnlock k u))
  | .tcbUnlock k u => some (s.dropTcb u t (.cloneUnlock k u))
  | .cloneUnlock k u => some (s.dropLock k t (.cloneParent k u))
  | .cloneParent k u =>
    if s.waitLock = none then
      some ({ s with parent := update s.parent k (s.proc t) }.goto t (.cloneRun k u))
    else none
  | .cloneRun _ u =>
    if s.tcbLock u = none then some ((s.goto u .user).goto t .user) else none

/-- The actions: a thread enters a call, `do_clone` having popped the entry `k`; `alloc_thread`
pops a thread; a step; and a thread that is asleep is woken by something else. -/
inductive Act (K T : Type)
  | exit (t : T) (status : BitVec 32)
  | wait (t : T) (g : Target)
  | clone (t : T) (k : K)
  | allocThread (t u : T)
  | step (t : T) (b : Bool)
  | wake (t : T)

/-- The effect of an action. -/
def act (c : Conf K T) (s : St K T) : Act K T → Option (St K T)
  | .exit t status => if s.pc t = .user then some (s.goto t (.exit status)) else none
  | .wait t g => if s.pc t = .user then some (s.goto t (.wait g)) else none
  | .clone t k =>
    if s.pc t = .user ∧ s.unusedProc k = true then
      some ({ s with unusedProc := update s.unusedProc k false }.goto t (.cloneLock k))
    else none
  | .allocThread t u =>
    match s.pc t with
    | .cloneTcb k =>
      if s.unusedTcb u = true then
        some ({ s with unusedTcb := update s.unusedTcb u false }.goto t (.tcbLock k u))
      else none
    | _ => none
  | .step t b => next c s t b
  | .wake t =>
    match s.pc t with
    | .asleep g => if s.tcbLock t = none then some (s.goto t (.woken g)) else none
    | _ => none

/-- A state with processes and their threads, before any of the calls. -/
structure Boot [Fintype T] (c : Conf K T) (s : St K T) : Prop where
  procTable : ∀ k, k ∈ c.procTable
  tcbPool : ∀ t, t ∈ c.tcbPool
  waitLock : s.waitLock = none
  lock : ∀ k, s.lock k = none
  lastLock : ∀ k, s.lastLock k = none
  tcbLock : ∀ t, s.tcbLock t = none
  state : ∀ k, s.state k ≠ .zombie
  unusedProc : ∀ k, s.unusedProc k = true ↔ s.state k = .unused
  pc : ∀ t, s.pc t = if s.proc t = none then .unused else .user
  proc : ∀ t k, s.proc t = some k → s.state k = .used
  linked : ∀ t, s.linked t = s.proc t
  unusedTcb : ∀ t, s.unusedTcb t = true ↔ s.proc t = none
  threadCnt : ∀ k, s.threadCnt k = tally (· = some k) s.proc
  threads : ∀ k, s.state k = .used → ∃ t, s.proc t = some k
  pidLt : ∀ k, s.state k ≠ .unused → s.pid k < s.nextPid
  pidInj : ∀ k k', s.state k ≠ .unused → s.state k' ≠ .unused → s.pid k = s.pid k' → k = k'
  exits : s.exits = []
  reaps : s.reaps = []
  procExits : ∀ k, s.procExits k = 0
  frees : ∀ t, s.frees t = 0

/-- Threads that exit, wait and make processes. -/
def machine [Fintype T] (c : Conf K T) : Machine (St K T) (Act K T) where
  init := Boot c
  step := act c

/-- The thread is about to count down. -/
def Pc.exiting : Pc K T → Bool
  | .exit _ => true
  | _ => false

/-- **The only remaining thread**: when a thread counts down from one, every other thread of the
process has been freed. -/
def Orderly (s : St K T) : Act K T → Prop
  | .step t _ => ∀ k, (s.pc t).exiting = true → s.proc t = some k → s.threadCnt k = 1 →
      ∀ u, s.proc u = some k → u = t
  | _ => True

instance [Fintype K] [Fintype T] (s : St K T) : ∀ a, Decidable (Orderly s a)
  | .step t _ => inferInstanceAs (Decidable (∀ k, (s.pc t).exiting = true → s.proc t = some k →
      s.threadCnt k = 1 → ∀ u, s.proc u = some k → u = t))
  | .exit _ _ | .wait _ _ | .clone _ _ | .allocThread _ _ | .wake _ => .isTrue trivial

end

end XVapor.ExitWait
