import XVapor.Machine
import XVapor.Tcb

/-!
# The Scheduler and the State Queues

`tcb_q_change_state` moves a tcb between the state queues in three steps, an unlink, a
push, and the assignment of the state word, with `t->lock` held. The two places that pop a
tcb, `thread_scheduler` and `alloc_thread`, do so before they take its lock. This module
embeds everything that moves a tcb as a machine of agents whose steps interleave freely.

An agent is either a CPU, which runs the loop of `thread_scheduler` and, while it has
switched to a thread, that thread's own calls (`thread_yield`, `thread_sleep` and the other
ways to sleep, `thread_exit`); or a kernel path that acts on another thread: a wakeup,
`alloc_thread` with what `create_proc` and `do_clone` do next, or the `free_thread` of
`free_allother_threads_group`. A path is not tied to the CPU that executes it, which only
adds interleavings. Which thread a path acts on is left open, and a wakeup may find that
the channel of the thread is another one.

## Main definitions

* `schedMachine`: the machine.
* `Act`: its actions; `Act.step` is the next step of an agent, the others start a call.
-/

namespace XVapor.Sched

open Function
open scoped Sample

/-! ### Program counters -/

/-- The three steps of `tcb_q_change_state`: `queue_remove`, `queue_push_back`, and the
assignment of the state word. -/
inductive Stage
  | remove
  | push
  | set
  deriving DecidableEq, Repr

/-- The calls of `tcb_q_change_state`, by what follows. -/
inductive Change
  /-- by the thread itself, before `thread_sched` -/
  | own
  /-- in `alloc_thread` -/
  | alloc
  /-- in a wakeup function -/
  | wake
  /-- of a new thread to `RUNNABLE`, in `do_clone` -/
  | ready
  /-- in the `free_thread` of a `do_clone` that fails, which returns with the lock held -/
  | abort
  /-- in the `free_thread` of `free_allother_threads_group` -/
  | free
  deriving DecidableEq, Repr

/-- The paths that take the lock of a given thread. -/
inductive Path
  | wake
  | ready
  | free
  deriving DecidableEq, Repr

/-- Where an agent is. -/
inductive Pc (T : Type)
  /-- `thread_scheduler`, before `queue_pop_atomic` -/
  | loop
  /-- popped, before `acquire(&t->lock)` -/
  | popped (t : T)
  /-- before `tcb_change2_running` -/
  | locked (t : T)
  /-- before `c->thread = t` -/
  | marked (t : T)
  /-- switched to the thread, which still holds its lock -/
  | switched (t : T)
  /-- the thread runs -/
  | run (t : T)
  /-- back from the thread, before `c->thread = 0` -/
  | back (t : T)
  /-- before the `release` of the scheduler -/
  | unlock (t : T)
  /-- a path between two calls -/
  | idle
  /-- before the `acquire` of a path -/
  | want (path : Path) (t : T)
  /-- after it -/
  | got (path : Path) (t : T)
  /-- `alloc_thread` has popped, before its `acquire` -/
  | allocWant (t : T)
  /-- `alloc_thread` has the lock -/
  | allocGot (t : T)
  /-- `alloc_thread` has returned, with the lock held -/
  | allocated (t : T)
  /-- `create_proc` has returned, with the lock released -/
  | created (t : T)
  /-- in `tcb_q_change_state` -/
  | change (k : Change) (st : TcbState) (stage : Stage) (t : T)
  /-- in the `free_thread` of `freeproc`, which does not take the lock -/
  | freeproc (stage : Stage) (t : T)
  /-- before the `release` of a path -/
  | rel (t : T)
  deriving DecidableEq, Repr

/-- Where `tcb_q_change_state` returns to. -/
def Change.after {T : Type} (t : T) : Change → Pc T
  | .own => .back t
  | .alloc => .allocated t
  | .wake => .rel t
  | .ready => .rel t
  | .abort => .idle
  | .free => .rel t

/-! ### The state -/

/-- The tcbs with their queues, the holder of each `t->lock`, and `c->thread` and the
program counter of each agent. -/
structure SchedState (A T : Type) where
  tcbs : Tcbs T
  lock : T → Option A
  cthread : A → Option T
  pc : A → Pc T

variable {A T : Type} [DecidableEq A] [DecidableEq T]

/-- The agent moves on. -/
@[simp]
def SchedState.goto (s : SchedState A T) (a : A) (p : Pc T) : SchedState A T :=
  { s with pc := update s.pc a p }

@[simp]
def SchedState.setTcbs (s : SchedState A T) (c : Tcbs T) : SchedState A T :=
  { s with tcbs := c }

@[simp]
def SchedState.setThread (s : SchedState A T) (a : A) (t : Option T) : SchedState A T :=
  { s with cthread := update s.cthread a t }

/-- `acquire(&t->lock)`, which spins while the lock is held. -/
def acquire (s : SchedState A T) (a : A) (t : T) (p : Pc T) : Option (SchedState A T) :=
  if s.lock t = none then
    some ({ s with lock := update s.lock t (some a) }.goto a p)
  else none

/-- `release(&t->lock)`. -/
@[simp]
def release (s : SchedState A T) (a : A) (t : T) (p : Pc T) : SchedState A T :=
  { s with lock := update s.lock t none }.goto a p

/-! ### Steps -/

/-- One step of `tcb_q_change_state`. -/
def changeStep (c : Tcbs T) (st : TcbState) (t : T) : Stage → Tcbs T
  | .remove => c.queueRemove t
  | .push => c.queuePushBack st t
  | .set => c.setState t st

/-- The next step of an agent that is inside a call. `hit` is the answer of a wakeup's test
of the channel, the timeout or the wait queue. -/
def agentStep (s : SchedState A T) (a : A) (hit : Bool) : Option (SchedState A T) :=
  match s.pc a with
  | .loop =>
    match s.tcbs.queuePop .runnable with
    | none => some s
    | some (t, c) => some ((s.setTcbs c).goto a (.popped t))
  | .popped t => acquire s a t (.locked t)
  | .locked t => some ((s.setTcbs (s.tcbs.setState t .running)).goto a (.marked t))
  | .marked t => some ((s.setThread a (some t)).goto a (.switched t))
  | .switched t => some (release s a t (.run t))
  | .run _ => none
  | .back t => some ((s.setThread a none).goto a (.unlock t))
  | .unlock t => some (release s a t .loop)
  | .idle => none
  | .want path t => acquire s a t (.got path t)
  | .got .wake t =>
    if s.tcbs.state t = .sleeping ∧ hit then
      some (s.goto a (.change .wake .runnable .remove t))
    else some (s.goto a (.rel t))
  | .got .ready t => some (s.goto a (.change .ready .runnable .remove t))
  | .got .free t => some (s.goto a (.change .free .unused .remove t))
  | .allocWant t => acquire s a t (.allocGot t)
  | .allocGot t => some (s.goto a (.change .alloc .used .remove t))
  | .allocated _ => none
  | .created _ => none
  | .change k st .remove t =>
    some ((s.setTcbs (changeStep s.tcbs st t .remove)).goto a (.change k st .push t))
  | .change k st .push t =>
    some ((s.setTcbs (changeStep s.tcbs st t .push)).goto a (.change k st .set t))
  | .change k st .set t =>
    some ((s.setTcbs (changeStep s.tcbs st t .set)).goto a (k.after t))
  | .freeproc .remove t =>
    some ((s.setTcbs (changeStep s.tcbs .unused t .remove)).goto a (.freeproc .push t))
  | .freeproc .push t =>
    some ((s.setTcbs (changeStep s.tcbs .unused t .push)).goto a (.freeproc .set t))
  | .freeproc .set t =>
    some ((s.setTcbs (changeStep s.tcbs .unused t .set)).goto a .idle)
  | .rel t => some (release s a t .idle)

/-- The calls of a running thread that end in `thread_sched`. -/
inductive OwnCall
  | yield
  | sleep
  | exit
  deriving DecidableEq, Repr

/-- The state the call puts the thread in. -/
def OwnCall.state : OwnCall → TcbState
  | .yield => .runnable
  | .sleep => .sleeping
  | .exit => .unused

/-- What `create_proc` and `do_clone` do with the thread they have allocated. -/
inductive Next
  /-- `create_proc` releases the lock -/
  | createProc
  /-- `do_clone` with `CLONE_THREAD` succeeds -/
  | cloneThread
  /-- `do_clone` with `CLONE_THREAD` fails, and frees the thread -/
  | cloneThreadFails
  /-- `do_clone` makes the leader of the new process `RUNNABLE` -/
  | cloneProc
  /-- `do_clone` fails, and `freeproc` frees the leader -/
  | cloneProcFails
  deriving DecidableEq, Repr

/-- The actions: the next step of an agent, or the start of a call. -/
inductive Act (A T : Type)
  | step (a : A) (hit : Bool)
  | own (a : A) (call : OwnCall)
  | wake (a : A) (t : T)
  | freeOther (a : A) (t : T)
  | alloc (a : A)
  | next (a : A) (n : Next)
  deriving DecidableEq, Repr

/-- The continuation of an allocation. -/
def nextStep (s : SchedState A T) (a : A) : Next → Option (SchedState A T)
  | .createProc =>
    match s.pc a with
    | .allocated t => some (release s a t (.created t))
    | _ => none
  | .cloneThread =>
    match s.pc a with
    | .allocated t => some (s.goto a (.change .ready .runnable .remove t))
    | _ => none
  | .cloneThreadFails =>
    match s.pc a with
    | .allocated t => some (s.goto a (.change .abort .unused .remove t))
    | _ => none
  | .cloneProc =>
    match s.pc a with
    | .created t => some (s.goto a (.want .ready t))
    | _ => none
  | .cloneProcFails =>
    match s.pc a with
    | .created t => some (s.goto a (.freeproc .remove t))
    | _ => none

/-- One action. -/
def act (s : SchedState A T) : Act A T → Option (SchedState A T)
  | .step a hit => agentStep s a hit
  | .own a call =>
    match s.pc a with
    | .run t => acquire s a t (.change .own call.state .remove t)
    | _ => none
  | .wake a t => if s.pc a = .idle then some (s.goto a (.want .wake t)) else none
  | .freeOther a t => if s.pc a = .idle then some (s.goto a (.want .free t)) else none
  | .alloc a =>
    if s.pc a = .idle then
      match s.tcbs.queuePop .unused with
      | none => some s
      | some (t, c) => some ((s.setTcbs c).goto a (.allocWant t))
    else none
  | .next a n => nextStep s a n

/-- After `tcb_init`: every tcb is `UNUSED`, on its queue, and unlocked; the CPUs are in
their scheduler loops, and the paths have not begun. -/
structure Boot (s : SchedState A T) : Prop where
  state : ∀ t, s.tcbs.state t = .unused
  pool : ∀ t, t ∈ s.tcbs.queue .unused
  nodup : (s.tcbs.queue .unused).Nodup
  empty : ∀ st, st ≠ .unused → s.tcbs.queue st = []
  lock : ∀ t, s.lock t = none
  cthread : ∀ a, s.cthread a = none
  pc : ∀ a, s.pc a = .loop ∨ s.pc a = .idle

/-- The machine of the scheduler and the paths that move a tcb. -/
def schedMachine (A T : Type) [DecidableEq A] [DecidableEq T] :
    Machine (SchedState A T) (Act A T) where
  init := Boot
  step := act

/-- Two tcbs; agent 0 is a CPU, and every other agent a path. -/
def bootTwo : SchedState ℕ (Fin 2) where
  tcbs := ⟨fun _ => .unused, fun st => if st = .unused then [0, 1] else []⟩
  lock _ := none
  cthread _ := none
  pc a := if a = 0 then .loop else .idle

theorem boot_bootTwo : Boot bootTwo := by
  refine ⟨fun _ => rfl, by decide, by decide, fun st h => by simp [bootTwo, h],
    fun _ => rfl, fun _ => rfl, fun a => ?_⟩
  by_cases h : a = 0
  · exact .inl (by simp [bootTwo, h])
  · exact .inr (by simp [bootTwo, h])

end XVapor.Sched
