import XVapor.Machine
import XVapor.Tcb

/-!
# Thread Groups

A process keeps its threads twice: as the list `tg.threads` and as the counter
`tg.thread_cnt`, which decides in `thread_exit` whether the exiting thread is the last one
and has to run `proc_exit`. The two are updated separately in `proc_join_thread`,
`thread_exit`, `free_allother_threads_group` and `freeproc`. This module embeds those
functions with the calls that use them, error paths included, and asks when the counter
and the list agree.

They do not always: `free_allother_threads_group` unlinks threads without counting them
down, `freeproc` counts the calling process down in place of the freed one, and the error
paths of `do_clone` free a thread that stays linked and counted.

Each call runs to completion before the next one starts. A call that ends in a kernel fault
or a panic has no next state.

## Main definitions

* `groupMachine`: the calls `create_proc`, `do_clone`, `thread_exit`, `sys_exit_group`,
  `execve`, and the `freeproc` of a waiting parent.
* `GroupsOk`: counters, lists and leaders of the `USED` processes are right.
* `Orderly`: the condition on one call under which they stay right.
-/

namespace XVapor.Group

open Function

/-! ### The state -/

/-- `enum procstate`. -/
inductive ProcState
  | unused
  | used
  | zombie
  deriving DecidableEq, Repr

/-- The pointer `group_leader`. `list_first_entry` of an empty list is the list head taken
for a tcb. -/
inductive Leader (T : Type)
  | null
  | tcb (t : T)
  | listHead
  deriving DecidableEq, Repr

/-- `struct thread_group`. -/
structure ThreadGroup (T : Type) where
  groupLeader : Leader T
  threadCnt : ℤ
  threads : List T

/-- The process and the thread tables. `proc` is the field `p` of a tcb, and `unusedPQ` is
the queue `unused_p_q`. -/
structure GroupState (P T : Type) where
  initproc : Option P
  procState : P → ProcState
  unusedPQ : List P
  tg : P → ThreadGroup T
  tcbs : Tcbs T
  proc : T → Option P

variable {P T : Type} [DecidableEq P] [DecidableEq T]
variable {s s' : GroupState P T} {p q cur : P} {t u : T}

/-! ### Threads -/

/-- `list_first_entry`. -/
def listFirstEntry : List T → Leader T
  | [] => .listHead
  | t :: _ => .tcb t

/-- `list_del_reinit` of the `threads` node of a tcb, from whichever list it is on. -/
def listDel (s : GroupState P T) (t : T) : GroupState P T :=
  { s with tg := fun p => { s.tg p with threads := (s.tg p).threads.erase t } }

/-- The assignment to `thread_cnt` of one group. -/
def setCnt (s : GroupState P T) (p : P) (n : ℤ) : GroupState P T :=
  { s with tg := update s.tg p { s.tg p with threadCnt := n } }

/-- The assignment to `group_leader` of one group. -/
def setLeader (s : GroupState P T) (p : P) (l : Leader T) : GroupState P T :=
  { s with tg := update s.tg p { s.tg p with groupLeader := l } }

/-- `tcb_q_change_state`. -/
def changeState (s : GroupState P T) (t : T) (st : TcbState) : GroupState P T :=
  { s with tcbs := s.tcbs.tcbQChangeState t st }

/-- `alloc_thread`. A tcb of the pool is on no `threads` list, so that the initialisation
of its node changes nothing. -/
def allocThread (s : GroupState P T) : Option (T × GroupState P T) :=
  (s.tcbs.queuePop .unused).map fun r =>
    (r.1, changeState { s with tcbs := r.2 } r.1 .used)

/-- `proc_join_thread` up to the allocation of the trapframe, whose result the callers
look at. -/
def procJoinThread (s : GroupState P T) (p : P) (t : T) : GroupState P T :=
  { s with
    tg := update s.tg p
      { groupLeader :=
          if (s.tg p).groupLeader = .null then .tcb t else (s.tg p).groupLeader
        threadCnt := (s.tg p).threadCnt + 1
        threads := (s.tg p).threads ++ [t] }
    proc := update s.proc t (some p) }

/-- `free_thread`. It reads `t->p->mm`, which is a fault if the thread has no process. -/
def freeThread (s : GroupState P T) (t : T) : Option (GroupState P T) :=
  match s.proc t with
  | none => none
  | some _ => some (changeState { s with proc := update s.proc t none } t .unused)

/-! ### Processes -/

/-- `allocproc`, with the `tginit` it calls. -/
def allocproc (s : GroupState P T) : Option (P × GroupState P T) :=
  match s.unusedPQ with
  | [] => none
  | p :: ps => some (p,
      { s with
        unusedPQ := ps
        procState := update s.procState p .used
        tg := update s.tg p ⟨.null, 0, []⟩ })

/-- One round of the loop of `freeproc`: the counter is that of the calling process `cur`,
and the loop panics if it was 0. -/
def freeprocThread (cur : P) (s : GroupState P T) (t : T) : Option (GroupState P T) :=
  let s := listDel s t
  if (s.tg cur).threadCnt = 0 then none
  else freeThread (setCnt s cur ((s.tg cur).threadCnt - 1)) t

/-- The end of `freeproc`: no leader, and back to the pool. -/
def retire (s : GroupState P T) (p : P) : GroupState P T :=
  { setLeader s p .null with
    procState := update s.procState p .unused
    unusedPQ := s.unusedPQ ++ [p] }

/-- `freeproc(p)`, called by a thread of `cur`. -/
def freeproc (s : GroupState P T) (cur p : P) : Option (GroupState P T) :=
  ((s.tg p).threads.foldlM (freeprocThread cur) s).map fun s => retire s p

/-- `create_proc`, called by a thread of `cur`: the new process with its leader, unless the
processes or the threads ran out. It ignores the result of `proc_join_thread`. -/
def createProc (s : GroupState P T) (cur : P) :
    Option (Option (P × T) × GroupState P T) :=
  match allocproc s with
  | none => some (none, s)
  | some (p, s) =>
    match allocThread s with
    | none => (freeproc s cur p).map fun s => (none, s)
    | some (t, s) => some (some (p, t), procJoinThread s p t)

/-- `proc_exit`, as far as the process table goes. -/
def procExit (s : GroupState P T) (p : P) : Option (GroupState P T) :=
  if s.initproc = some p then none
  else some { s with procState := update s.procState p .zombie }

/-- The test of `thread_exit` on the old value of the counter: run `proc_exit`? -/
def exitsProc (s : GroupState P T) (p : P) : Prop :=
  (s.tg p).threadCnt = 1

instance : Decidable (exitsProc s p) := inferInstanceAs (Decidable (_ = _))

/-- The new leader `thread_exit` picks if the exiting thread was the leader. -/
def fixLeader (s : GroupState P T) (p : P) (t : T) : GroupState P T :=
  if (s.tg p).groupLeader = .tcb t then
    setLeader s p (listFirstEntry (s.tg p).threads)
  else s

/-- `thread_exit` of thread `t` of process `p`. -/
def threadExit (s : GroupState P T) (p : P) (t : T) : Option (GroupState P T) :=
  let dec := setCnt s p ((s.tg p).threadCnt - 1)
  (if exitsProc s p then procExit dec p else some dec).bind fun s =>
    freeThread (fixLeader (listDel s t) p t) t

/-- One round of the loop of `free_allother_threads_group`. -/
def freeOther (p : P) (t : T) (s : GroupState P T) (tt : T) : Option (GroupState P T) :=
  if tt = t then some s
  else (freeThread s tt).map fun s =>
    listDel (if (s.tg p).groupLeader = .tcb tt then setLeader s p (.tcb t) else s) tt

/-- `free_allother_threads_group(t)`, called by thread `t` of process `p`. -/
def freeAllotherThreadsGroup (s : GroupState P T) (p : P) (t : T) :
    Option (GroupState P T) :=
  (s.tg p).threads.foldlM (freeOther p t) s

/-! ### The calls -/

/-- The flags of `clone` that decide which of its steps can fail. -/
structure CloneFlags where
  thread : Bool
  childSettid : Bool
  parentSettid : Bool
  vm : Bool

/-- What the memory allocator and the user's page table answer during a `clone`: whether
the trapframe, the two `copyout`s, `uvmcopy`, and `proc_copy_vma` succeed. -/
structure CloneEnv where
  trapframe : Bool
  childTid : Bool
  parentTid : Bool
  uvmcopy : Bool
  copyVma : Bool

/-- One of the two `copyout`s that go to `bad` fails. -/
def settidFails (f : CloneFlags) (env : CloneEnv) : Prop :=
  (f.childSettid ∧ ¬ env.childTid) ∨ (f.parentSettid ∧ ¬ env.parentTid)

/-- The copy of the address space or of its VMAs fails. -/
def copyFails (f : CloneFlags) (env : CloneEnv) : Prop :=
  (¬ f.vm ∧ ¬ env.uvmcopy) ∨ ¬ env.copyVma

instance {f : CloneFlags} {env : CloneEnv} : Decidable (settidFails f env) :=
  inferInstanceAs (Decidable (_ ∨ _))

instance {f : CloneFlags} {env : CloneEnv} : Decidable (copyFails f env) :=
  inferInstanceAs (Decidable (_ ∨ _))

/-- `do_clone` with `CLONE_THREAD`. -/
def cloneThread (s : GroupState P T) (p : P) (f : CloneFlags) (env : CloneEnv) :
    Option (GroupState P T) :=
  match allocThread s with
  | none => some s
  | some (t, s) =>
    let s := procJoinThread s p t
    -- the first is the failure of `proc_join_thread`, the second the label `bad`
    if ¬ env.trapframe ∨ settidFails f env then freeThread s t
    else some (changeState s t .runnable)

/-- `do_clone` without `CLONE_THREAD`. -/
def cloneProc (s : GroupState P T) (p : P) (f : CloneFlags) (env : CloneEnv) :
    Option (GroupState P T) :=
  (createProc s p).bind fun
    | (none, s) => some s
    | (some (np, t), s) =>
      -- the copy of the registers stores through `t->trapframe`
      if ¬ env.trapframe then none
      else if settidFails f env then (freeproc s p np).bind fun s => freeThread s t
      else if copyFails f env then freeproc s p np
      else some (changeState s t .runnable)

/-- The calls. `execve` carries whether it gets as far as freeing the other threads, and
`wait` is `wait_one` or `wait4` when it finds the child `np`, with the result of the
`copyout` of the status. -/
inductive Op (P : Type)
  | createProc
  | clone (f : CloneFlags) (env : CloneEnv)
  | exit
  | exitGroup
  | execve (frees : Bool)
  | wait (np : P) (copyout : Bool)

/-- The call `op` of thread `t` of process `p`. -/
def runOp (s : GroupState P T) (p : P) (t : T) : Op P → Option (GroupState P T)
  | .createProc => (createProc s p).map Prod.snd
  | .clone f env => if f.thread then cloneThread s p f env else cloneProc s p f env
  | .exit => threadExit s p t
  | .exitGroup =>
    if (s.tg p).groupLeader = .tcb t then
      (freeAllotherThreadsGroup s p t).bind fun s => threadExit s p t
    else threadExit s p t
  | .execve frees => if frees then freeAllotherThreadsGroup s p t else some s
  | .wait np copyout =>
    if s.procState np = .zombie ∧ copyout then freeproc s p np else some s

/-- The process a thread calls from. Scheduling is left out: a thread that can be scheduled
is `RUNNABLE` here. -/
def caller (s : GroupState P T) (t : T) : Option P :=
  if s.tcbs.state t = .runnable then s.proc t else none

/-- One call of one thread. -/
def groupStep (s : GroupState P T) (a : T × Op P) : Option (GroupState P T) :=
  (caller s a.1).bind fun p => runOp s p a.1 a.2

/-- The tables after `procinit` and `tcb_init`, with the pools `ps` and `ts`. -/
def pools (ps : List P) (ts : List T) : GroupState P T where
  initproc := none
  procState _ := .unused
  unusedPQ := ps
  tg _ := ⟨.null, 0, []⟩
  tcbs := ⟨fun _ => .unused, fun st => if st = .unused then ts else []⟩
  proc _ := none

/-- `userinit`: the first process, with one thread. -/
def userinit (s : GroupState P T) : Option (GroupState P T) :=
  match allocproc s with
  | none => none
  | some (p, s) => (allocThread s).map fun r =>
    changeState { procJoinThread r.2 p r.1 with initproc := some p } r.1 .runnable

/-- The machine of the calls. -/
def groupMachine (P T : Type) [DecidableEq P] [DecidableEq T] :
    Machine (GroupState P T) (T × Op P) where
  init s := ∃ ps ts, ps.Nodup ∧ ts.Nodup ∧ userinit (pools ps ts) = some s
  step := groupStep

/-! ### What is to hold -/

/-- The group of `p` is right: the counter is the length of the list, the threads on the
list belong to `p`, and the leader is one of them. -/
structure GroupOk (s : GroupState P T) (p : P) : Prop where
  count : (s.tg p).threadCnt = (s.tg p).threads.length
  proc : ∀ t ∈ (s.tg p).threads, s.proc t = some p
  leader : ∃ t ∈ (s.tg p).threads, (s.tg p).groupLeader = .tcb t

/-- **The groups are right**: each `USED` process has a right group, and the exit of one of
its threads runs `proc_exit` if and only if no other thread is left. -/
def GroupsOk (s : GroupState P T) : Prop :=
  ∀ p, s.procState p = .used → GroupOk s p ∧
    ∀ t, s.proc t = some p → (exitsProc s p ↔ (s.tg p).threads = [t])

/-- The call leaves the groups right, if it comes to an end. -/
def StaysOk (s : GroupState P T) (a : T × Op P) : Prop :=
  ∀ s', groupStep s a = some s' → GroupsOk s'

/-- The condition on one call. The other threads are freed only if there are none; a
thread that `do_clone` has allocated gets its trapframe, and its tid is copied out; and a
process that passed its `copyout`s gets its copy of the address space. -/
def OrderlyOp (s : GroupState P T) (p : P) (t : T) : Op P → Prop
  | .clone f env => s.tcbs.queue .unused ≠ [] →
      if f.thread then env.trapframe ∧ ¬ settidFails f env
      else s.unusedPQ ≠ [] → env.trapframe → ¬ settidFails f env → ¬ copyFails f env
  | .exitGroup => (s.tg p).groupLeader = .tcb t → (s.tg p).threads = [t]
  | .execve frees => frees → (s.tg p).threads = [t]
  | .createProc => True
  | .exit => True
  | .wait _ _ => True

/-- A call that meets the condition. -/
def Orderly (s : GroupState P T) (a : T × Op P) : Prop :=
  ∀ p, caller s a.1 = some p → OrderlyOp s p a.1 a.2

end XVapor.Group
