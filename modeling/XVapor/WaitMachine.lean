import XVapor.FutexTable
import XVapor.Machine
import XVapor.Tcb

/-!
# The Wait and Wake Machine

The concurrent embedding of the code that puts threads on waiting queues and takes them
off: `futex_wait` and `futex_wake` (`ipc/futex.c`), `cond_wait`, `cond_signal` and
`cond_broadcast` (`atomic/cond.c`), `thread_sleep`, `thread_wakeup_timeout`,
`thread_wakeup_chan`, `thread_send_signal` and `thread_exit` (`sched/thread.c`).

Every thread has a program counter in this code, and one action is one step of one thread:
what it does between two points where another CPU can observe it. A step that has to take
a `t->lock` is enabled only while that lock is free. The table lock of the futexes and the
lock of a queue are held for one step only and are not part of the state. The mutex of a
condition, `timeout_lock` and `tickslock` are left out, which only adds interleavings.

Stores of user code, ticks, timeouts, signals, wakeups by channel, preemption and dispatch
are actions of their own. Those that run entirely under the target's `t->lock`, and touch
only what it guards, are one step.

The state also carries a history of the `futex_wake` calls: which values the word has had
since the call began, whether it has returned, and how many threads it woke.
-/

namespace XVapor.Wait

open Function
open FutexTable

/-- A `wait_chan_entry`: the waiting queue of the futex in a page, or of a condition. -/
inductive QRef
  | futex (fp : ℕ)
  | cond (c : ℕ)
  deriving DecidableEq, Repr

/-- Where a thread that called `thread_sched` continues: in `futex_wait` on a word with the
expected value, in `cond_wait`, or in `thread_sleep`. -/
inductive Sleep
  | futex (uaddr : UAddr) (val : UInt32)
  | cond
  | chan
  deriving DecidableEq, Repr

/-- The steps of going to sleep on a queue, shared by `futex_wait` and `cond_wait`. -/
inductive EnqStage
  | lock
  | state
  | push
  | chan
  | timeout
  | sched
  deriving DecidableEq, Repr

/-- The steps of `thread_sleep`. -/
inductive SlpStage
  | lock
  | state
  | sched
  deriving DecidableEq, Repr

/-- The steps of waking from a queue. `check` is the test that `futex_wake` makes on the
state of a popped thread before it takes the thread's lock. -/
inductive WakeStage (T : Type)
  | test
  | pop
  | check (t : T)
  | lock (t : T)
  | body (t : T)
  | release (t : T)
  deriving DecidableEq, Repr

/-- Who wakes: `futex_wake` with the number of wakes left, from a system call or from
`thread_exit`, or one of the two operations on conditions. -/
inductive WakeKind
  | futex (uaddr : UAddr) (left : ℕ) (exiting : Bool)
  | signal
  | broadcast
  deriving DecidableEq, Repr

/-- The program counter of a thread. -/
inductive Pc (T : Type)
  | user
  | copyin (uaddr : UAddr) (val : UInt32) (timeout : Option ℕ)
  | getWait (uaddr : UAddr) (val : UInt32) (timeout : Option ℕ)
  | badWait (fp : ℕ)
  | enq (stage : EnqStage) (q : QRef) (timeout : Option ℕ) (k : Sleep)
  | slp (stage : SlpStage) (chan : ℕ) (timeout : Option ℕ)
  | asleep (k : Sleep)
  | getWake (uaddr : UAddr) (nrWake : Int) (exiting : Bool)
  | badWake (fp : ℕ) (exiting : Bool)
  | wake (stage : WakeStage T) (q : QRef) (kind : WakeKind)
  | free (fp : ℕ) (uaddr : UAddr) (exiting : Bool)
  | exit
  | exitLock
  | exitFree
  deriving DecidableEq, Repr

/-- The history of one `futex_wake` call: the values of the word from just before the call
to now, latest first, whether the call has returned, and how many threads it woke. -/
structure WakeRec (T : Type) where
  waker : T
  uaddr : UAddr
  nrWake : Int
  vals : List (Option UInt32)
  woken : ℕ
  done : Bool

/-- The state of the machine. `chan` is 0 for `NULL`, and `clearTid` is
`clear_child_tid`. -/
structure WState (T : Type) where
  kern : Kern T
  condQ : ℕ → List T
  mem : UAddr → Option UInt32
  state : T → TcbState
  lock : T → Option T
  waitChan : T → Option QRef
  chan : T → ℕ
  timeout : T → ℕ
  killed : T → Bool
  clearTid : T → Option UAddr
  ticks : ℕ
  pc : T → Pc T
  log : List (WakeRec T)
  fault : Option Fault

variable {T : Type} [DecidableEq T]

/-! ### Pieces of the steps -/

/-- The threads on a queue, of a futex or of a condition. -/
def readQueue (k : Kern T) (condQ : ℕ → List T) : QRef → List T
  | .futex fp =>
    match k.page fp with
    | .futex f => f.waitingQueue
    | _ => []
  | .cond c => condQ c

/-- The queue is in live memory. -/
def queueLive (k : Kern T) : QRef → Bool
  | .futex fp =>
    match k.page fp with
    | .futex _ => true
    | _ => false
  | .cond _ => true

/-- Replace the threads on the queue of a futex. -/
def writeFutexQueue (k : Kern T) (q : QRef) (l : List T) : Kern T :=
  match q with
  | .futex fp =>
    match k.page fp with
    | .futex f =>
      { k with page := update k.page fp (.futex { f with waitingQueue := l }) }
    | _ => k
  | .cond _ => k

/-- Replace the threads on the queue of a condition. -/
def writeCondQueue (condQ : ℕ → List T) (q : QRef) (l : List T) : ℕ → List T :=
  match q with
  | .futex _ => condQ
  | .cond c => update condQ c l

namespace WState

/-- Continue at another point of the code. -/
@[simp]
def goto (s : WState T) (t : T) (pc : Pc T) : WState T :=
  { s with pc := update s.pc t pc }

/-- A panic, or an access after which nothing is known. -/
@[simp]
def crash (s : WState T) (e : Fault) : WState T := { s with fault := some e }

/-- Take the lock of thread `u`, or give it back. -/
@[simp]
def setLock (s : WState T) (u : T) (o : Option T) : WState T :=
  { s with lock := update s.lock u o }

@[simp]
def setState (s : WState T) (t : T) (st : TcbState) : WState T :=
  { s with state := update s.state t st }

@[simp]
def setChan (s : WState T) (t : T) (c : ℕ) : WState T :=
  { s with chan := update s.chan t c }

@[simp]
def setWaitChan (s : WState T) (t : T) (q : Option QRef) : WState T :=
  { s with waitChan := update s.waitChan t q }

/-- `t->timeout = get_timeout_ticks(timeout)` if a timeout was given; `ticks` is a 32-bit
counter. -/
@[simp]
def setTimeout (s : WState T) (t : T) (timeout : Option ℕ) : WState T :=
  { s with timeout :=
      match timeout with
      | none => s.timeout
      | some n => update s.timeout t ((n + s.ticks) % 2 ^ 32) }

/-- The threads on a waiting queue; a futex that has been freed has none. -/
def queue (s : WState T) (q : QRef) : List T := readQueue s.kern s.condQ q

/-- Replace the threads on a queue. -/
@[simp]
def setQueue (s : WState T) (q : QRef) (l : List T) : WState T :=
  { s with kern := writeFutexQueue s.kern q l, condQ := writeCondQueue s.condQ q l }

/-- A store to a user word, seen by the calls of the history. -/
@[simp]
def store (s : WState T) (uaddr : UAddr) (v : UInt32) : WState T :=
  { s with
    mem := update s.mem uaddr (some v)
    log := s.log.map fun r => if r.uaddr = uaddr then { r with vals := some v :: r.vals } else r }

/-- Change the history of the call thread `t` is in. -/
@[simp]
def record (s : WState T) (t : T) (f : WakeRec T → WakeRec T) : WState T :=
  { s with log := s.log.map fun r => if r.waker = t ∧ r.done = false then f r else r }

/-- The call to `futex_wake` begins. -/
@[simp]
def beginWake (s : WState T) (t : T) (uaddr : UAddr) (nrWake : Int) (exiting : Bool) :
    WState T :=
  { s.goto t (.getWake uaddr nrWake exiting) with
    log := ⟨t, uaddr, nrWake, [s.mem uaddr], 0, false⟩ :: s.log }

/-- The call to `futex_wake` returns, to user code or into `thread_exit`. -/
@[simp]
def endWake (s : WState T) (t : T) (exiting : Bool) : WState T :=
  (s.record t fun r => { r with done := true }).goto t (if exiting then .exitLock else .user)

end WState

open WState

/-- The fields of a tcb that both `free_thread` and `alloc_thread` clear. -/
@[simp]
def resetTcb (s : WState T) (t : T) : WState T :=
  { s with
    waitChan := update s.waitChan t none
    chan := update s.chan t 0
    timeout := update s.timeout t 0
    killed := update s.killed t false }

/-! ### The steps of a thread -/

/-- Going to sleep on a queue: `futex_wait` from `acquire(&t->lock)` on, and `cond_wait`. -/
def enqStep (s : WState T) (t : T) (q : QRef) (timeout : Option ℕ) (k : Sleep) :
    EnqStage → Option (WState T)
  | .lock =>
    if s.lock t = none then
      some ((s.setLock t (some t)).goto t (.enq .state q timeout k))
    else none
  | .state => some ((s.setState t .sleeping).goto t (.enq .push q timeout k))
  | .push =>
    if queueLive s.kern q then
      some ((s.setQueue q (s.queue q ++ [t])).goto t (.enq .chan q timeout k))
    else some (s.crash .wild)
  | .chan => some ((s.setWaitChan t (some q)).goto t (.enq .timeout q timeout k))
  | .timeout => some ((s.setTimeout t timeout).goto t (.enq .sched q timeout k))
  | .sched => some ((s.setLock t none).goto t (.asleep k))

/-- `thread_sleep`. -/
def slpStep (s : WState T) (t : T) (chan : ℕ) (timeout : Option ℕ) :
    SlpStage → Option (WState T)
  | .lock =>
    if s.lock t = none then
      some ((s.setLock t (some t)).goto t (.slp .state chan timeout))
    else none
  | .state =>
    some ((((s.setChan t chan).setTimeout t timeout).setState t .sleeping).goto t
      (.slp .sched chan timeout))
  | .sched => some ((s.setLock t none).goto t (.asleep .chan))

/-- What the waker does when it finds no further thread to wake. -/
def wakeDone (s : WState T) (a : T) (q : QRef) : WakeKind → WState T
  | .futex uaddr _ exiting =>
    match q with
    | .futex fp => s.goto a (.free fp uaddr exiting)
    | .cond _ => s.goto a .user
  | .signal => s.goto a .user
  | .broadcast => s.goto a .user

/-- What the waker does after it has woken a thread. -/
def wakeNext (s : WState T) (a : T) (q : QRef) : WakeKind → WState T
  | .futex uaddr left exiting =>
    (s.record a fun r => { r with woken := r.woken + 1 }).goto a
      (.wake .test q (.futex uaddr (left - 1) exiting))
  | .signal => s.goto a .user
  | .broadcast => s.goto a (.wake .test q .broadcast)

/-- The loop condition of the waker on a queue that is not empty. -/
def WakeKind.more : WakeKind → Bool
  | .futex _ left _ => 0 < left
  | .signal => true
  | .broadcast => true

/-- `queue_pop_atomic` found the queue empty after all: `futex_wake` panics, the other two
take the lock of a thread at address 0. -/
def WakeKind.popNull : WakeKind → Fault
  | .futex _ _ _ => .panic "futex wakeup : no waiting queue"
  | .signal => .wild
  | .broadcast => .wild

/-- The message of the waker for a popped thread that is not `SLEEPING`. -/
def WakeKind.message : WakeKind → String
  | .futex _ _ _ => "futex wakeup : this thread is not sleeping"
  | .signal => "cond signal : this thread is not sleeping"
  | .broadcast => "cond broadcast : this thread is not sleeping"

/-- How the waker ends on a popped thread in state `st`, not `SLEEPING`: it prints the state as if
it were a string, and then panics. So the panic is reached for `UNUSED` only. -/
def WakeKind.notSleeping (kind : WakeKind) (st : TcbState) : Fault :=
  .printed st.ctorIdx kind.message

/-- `futex_wake` from its loop on, `cond_signal` and `cond_broadcast`. -/
def wakeStep (s : WState T) (a : T) (q : QRef) (kind : WakeKind) :
    WakeStage T → Option (WState T)
  | .test =>
    if queueLive s.kern q = false then some (s.crash .wild)
    else if s.queue q ≠ [] ∧ kind.more then some (s.goto a (.wake .pop q kind))
    else some (wakeDone s a q kind)
  | .pop =>
    if queueLive s.kern q = false then some (s.crash .wild)
    else
      match s.queue q with
      | [] => some (s.crash kind.popNull)
      | t :: rest =>
        -- only `futex_wake` looks at the state before it takes the lock
        match kind with
        | .futex _ _ _ => some ((s.setQueue q rest).goto a (.wake (.check t) q kind))
        | _ => some ((s.setQueue q rest).goto a (.wake (.lock t) q kind))
  | .check t =>
    if s.state t ≠ .sleeping then some (s.crash (kind.notSleeping (s.state t)))
    else some (s.goto a (.wake (.lock t) q kind))
  | .lock t =>
    if s.lock t = none then some ((s.setLock t (some a)).goto a (.wake (.body t) q kind))
    else none
  | .body t =>
    if kind ≠ .signal ∧ kind ≠ .broadcast ∨ s.state t = .sleeping then
      if s.waitChan t = none then some (s.crash (.panic "assert failed"))
      else some (((s.setWaitChan t none).setState t .runnable).goto a
        (.wake (.release t) q kind))
    else some (s.crash (kind.notSleeping (s.state t)))
  | .release t => some (wakeNext (s.setLock t none) a q kind)

/-- The tail of `futex_wake`: `futex_free` if the queue is empty, then return. -/
def freeStep (s : WState T) (a : T) (fp : ℕ) (uaddr : UAddr) (exiting : Bool) :
    WState T :=
  if s.queue (.futex fp) ≠ [] then s.endWake a exiting
  else
    match futexFree s.kern uaddr with
    | .error e => s.crash e
    | .ok k => ({ s with kern := k }).endWake a exiting

/-- One step of thread `t` in kernel code. -/
def threadStep (s : WState T) (t : T) : Option (WState T) :=
  match s.pc t with
  | .user => none
  | .copyin uaddr val timeout =>
    match s.mem uaddr with
    | none => some (s.goto t .user)
    | some uval =>
      if uval ≠ val then some (s.goto t .user)
      else some (s.goto t (.getWait uaddr val timeout))
  | .getWait uaddr val timeout =>
    match getFutexLocked s.kern uaddr false with
    | .error e => some (s.crash e)
    | .ok (.got fp, k) =>
      some (({ s with kern := k }).goto t (.enq .lock (.futex fp) timeout (.futex uaddr val)))
    | .ok (.bad none, k) => some (({ s with kern := k }).goto t .user)
    | .ok (.bad (some fp), k) => some (({ s with kern := k }).goto t (.badWait fp))
  | .badWait fp =>
    match kfree s.kern (.page fp) with
    | .error e => some (s.crash e)
    | .ok k => some (({ s with kern := k }).goto t .user)
  | .enq stage q timeout k => enqStep s t q timeout k stage
  | .slp stage chan timeout => slpStep s t chan timeout stage
  | .asleep _ => none
  | .getWake uaddr nrWake exiting =>
    match getFutexLocked s.kern uaddr true with
    | .error e => some (s.crash e)
    | .ok (.got fp, k) =>
      some (({ s with kern := k }).goto t
        (.wake .test (.futex fp) (.futex uaddr nrWake.toNat exiting)))
    | .ok (.bad none, k) => some (({ s with kern := k }).endWake t exiting)
    | .ok (.bad (some fp), k) => some (({ s with kern := k }).goto t (.badWake fp exiting))
  | .badWake fp exiting =>
    match kfree s.kern (.page fp) with
    | .error e => some (s.crash e)
    | .ok k => some (({ s with kern := k }).endWake t exiting)
  | .wake stage q kind => wakeStep s t q kind stage
  | .free fp uaddr exiting => some (freeStep s t fp uaddr exiting)
  | .exit =>
    match s.clearTid t with
    | none => some (s.goto t .exitLock)
    | some uaddr =>
      -- `copyout` of 0, which fails on an address that is not mapped
      if s.mem uaddr = none then some (s.beginWake t uaddr 1 true)
      else some ((s.store uaddr 0).beginWake t uaddr 1 true)
  | .exitLock =>
    if s.lock t = none then some ((s.setLock t (some t)).goto t .exitFree) else none
  | .exitFree => some (((resetTcb s t).setState t .unused).setLock t none |>.goto t .user)

/-! ### The actions -/

/-- A system call of a thread in user code. -/
inductive Call
  | futexWait (uaddr : UAddr) (val : UInt32) (timeout : Option ℕ)
  | futexWake (uaddr : UAddr) (nrWake : Int)
  | condWait (c : ℕ)
  | condSignal (c : ℕ)
  | condBroadcast (c : ℕ)
  | threadSleep (chan : ℕ) (timeout : Option ℕ)
  | setTid (clear : Option UAddr)
  | exit
  deriving DecidableEq, Repr

/-- The entry of a call. -/
def enter (s : WState T) (t : T) : Call → WState T
  | .futexWait uaddr val timeout => s.goto t (.copyin uaddr val timeout)
  | .futexWake uaddr nrWake => s.beginWake t uaddr nrWake false
  | .condWait c => s.goto t (.enq .lock (.cond c) none .cond)
  | .condSignal c => s.goto t (.wake .test (.cond c) .signal)
  | .condBroadcast c => s.goto t (.wake .test (.cond c) .broadcast)
  | .threadSleep chan timeout => s.goto t (.slp .lock chan timeout)
  | .setTid clear => { s with clearTid := update s.clearTid t clear }
  | .exit => s.goto t .exit

/-- Where a thread that slept continues: a killed thread leaves `cond_wait` through
`thread_exit`. -/
def resumePc (killed : Bool) : Pc T → Pc T
  | .asleep (.futex _ _) => .user
  | .asleep .cond => if killed then .exit else .user
  | .asleep .chan => .user
  | pc => pc

/-- The code after `thread_sched` returned, up to `release`; `thread_sleep` tidies up. -/
@[simp]
def resume (s : WState T) (t : T) : WState T :=
  { s with
    pc := update s.pc t (resumePc (s.killed t) (s.pc t))
    chan := if s.pc t = .asleep .chan then update s.chan t 0 else s.chan
    timeout := if s.pc t = .asleep .chan then update s.timeout t 0 else s.timeout }

/-- The part of `thread_send_signal` on the state of the thread. -/
def threadSendSignal (s : WState T) (t : T) (kill : Bool) : WState T :=
  let s := { s with killed := update s.killed t (s.killed t || kill) }
  if s.state t = .sleeping then
    if s.chan t = 0 ∧ s.waitChan t = none then s.crash (.panic "assert failed")
    else (s.setChan t 0).setState t .runnable
  else s

/-- Everything that can happen next. -/
inductive Act (T : Type)
  | call (t : T) (c : Call)
  | step (t : T)
  | yield (t : T)
  | dispatch (t : T)
  | spawn (t : T)
  | store (uaddr : UAddr) (v : UInt32)
  | tick
  | timeout (t : T)
  | wakeChan (t : T) (chan : ℕ)
  | signal (t : T) (kill : Bool)
  deriving DecidableEq, Repr

/-- The thread holds a `t->lock`, its own or that of the thread it wakes. Interrupts are
off then. -/
def heldLock (t : T) : Pc T → Option T
  | .enq .lock _ _ _ => none
  | .enq _ _ _ _ => some t
  | .slp .lock _ _ => none
  | .slp _ _ _ => some t
  | .wake (.body u) _ _ => some u
  | .wake (.release u) _ _ => some u
  | .exitFree => some t
  | _ => none

/-- One action. A thread makes steps while it is `RUNNING`, and while it holds its own lock
on the way into `thread_sched`. -/
def act (s : WState T) (a : Act T) : Option (WState T) :=
  if s.fault ≠ none then none
  else
    match a with
    | .call t c =>
      if s.state t = .running ∧ s.pc t = .user then some (enter s t c) else none
    | .step t =>
      if s.state t = .running ∨ heldLock t (s.pc t) = some t then threadStep s t else none
    | .yield t =>
      if s.state t = .running ∧ heldLock t (s.pc t) = none ∧ s.lock t = none then
        some (s.setState t .runnable)
      else none
    | .dispatch t =>
      if s.state t = .runnable ∧ s.lock t = none then
        some (resume (s.setState t .running) t)
      else none
    | .spawn t =>
      if s.state t = .unused ∧ s.lock t = none then
        some { (resetTcb s t).setState t .runnable with
          clearTid := update s.clearTid t none }
      else none
    | .store uaddr v => if s.mem uaddr = none then none else some (s.store uaddr v)
    | .tick => some { s with ticks := (s.ticks + 1) % 2 ^ 32 }
    | .timeout t =>
      if s.lock t = none ∧ s.state t = .sleeping ∧ s.timeout t = s.ticks then
        some (s.setState t .runnable)
      else none
    | .wakeChan t chan =>
      if s.lock t = none ∧ s.state t = .sleeping ∧ s.chan t = chan ∧ chan ≠ 0 then
        some (s.setState t .runnable)
      else none
    | .signal t kill => if s.lock t = none then some (threadSendSignal s t kill) else none

/-- Boot: nothing on any queue, nobody asleep or inside the code, all locks free. -/
structure Boot (s : WState T) : Prop where
  kern : ∃ n, s.kern = boot n
  condQ : ∀ c, s.condQ c = []
  state : ∀ t, s.state t ≠ .sleeping
  lock : ∀ t, s.lock t = none
  waitChan : ∀ t, s.waitChan t = none
  pc : ∀ t, s.pc t = .user
  chan : ∀ t, s.chan t = 0
  log : s.log = []
  fault : s.fault = none

/-- The wait and wake machine. -/
def waitMachine (T : Type) [DecidableEq T] : Machine (WState T) (Act T) where
  init := Boot
  step := act

/-- Threads 1 and 2 `RUNNING`, two free pages, every word 7. -/
def bootTwo : WState ℕ where
  kern := boot 2
  condQ := fun _ => []
  mem := fun _ => some 7
  state := fun t => if t = 1 ∨ t = 2 then .running else .unused
  lock := fun _ => none
  waitChan := fun _ => none
  chan := fun _ => 0
  timeout := fun _ => 0
  killed := fun _ => false
  clearTid := fun _ => none
  ticks := 1
  pc := fun _ => .user
  log := []
  fault := none

theorem boot_bootTwo : Boot bootTwo where
  kern := ⟨2, rfl⟩
  condQ := fun _ => rfl
  state := fun t => by
    by_cases h : t = 1 ∨ t = 2 <;> simp [bootTwo, h]
  lock := fun _ => rfl
  waitChan := fun _ => rfl
  pc := fun _ => rfl
  chan := fun _ => rfl
  log := rfl
  fault := rfl

theorem ne_notSleeping {e : Fault} (he : e = .wild ∨ e = .panic "assert failed") (kind : WakeKind)
    (st : TcbState) : e ≠ kind.notSleeping st := by
  rw [WakeKind.notSleeping, Fault.printed]
  rcases he with rfl | rfl <;> split <;> cases kind <;> simp [WakeKind.message]

/-- The actions with their guards, as a relation. -/
inductive Acted (s : WState T) : Act T → WState T → Prop
  | call {t : T} {c : Call} : s.state t = .running → s.pc t = .user →
      Acted s (.call t c) (enter s t c)
  | step {t : T} {s' : WState T} : s.state t = .running ∨ heldLock t (s.pc t) = some t →
      threadStep s t = some s' → Acted s (.step t) s'
  | yield {t : T} : s.state t = .running → heldLock t (s.pc t) = none → s.lock t = none →
      Acted s (.yield t) (s.setState t .runnable)
  | dispatch {t : T} : s.state t = .runnable → s.lock t = none →
      Acted s (.dispatch t) (resume (s.setState t .running) t)
  | spawn {t : T} : s.state t = .unused → s.lock t = none →
      Acted s (.spawn t) { (resetTcb s t).setState t .runnable with
        clearTid := update s.clearTid t none }
  | store {u : UAddr} {v : UInt32} : s.mem u ≠ none → Acted s (.store u v) (s.store u v)
  | tick : Acted s .tick { s with ticks := (s.ticks + 1) % 2 ^ 32 }
  | timeout {t : T} : s.lock t = none → s.state t = .sleeping → s.timeout t = s.ticks →
      Acted s (.timeout t) (s.setState t .runnable)
  | wakeChan {t : T} {chan : ℕ} : s.lock t = none → s.state t = .sleeping →
      s.chan t = chan → chan ≠ 0 → Acted s (.wakeChan t chan) (s.setState t .runnable)
  | signal {t : T} {kill : Bool} : s.lock t = none →
      Acted s (.signal t kill) (threadSendSignal s t kill)

theorem act_inv {s s' : WState T} {a : Act T} (h : act s a = some s') : Acted s a s' := by
  unfold act at h
  obtain ⟨-, h⟩ := Option.ite_none_left_eq_some.1 h
  cases a with
  | tick =>
    cases h
    exact .tick
  | store u v =>
    simp only at h
    split at h
    · cases h
    next hm =>
      cases h
      exact .store hm
  | step t =>
    simp only at h
    split at h
    next hr => exact .step hr h
    next => cases h
  | call t c =>
    obtain ⟨hr, rfl⟩ := guard_eq_some.1 h
    exact .call hr.1 hr.2
  | yield t =>
    obtain ⟨hr, rfl⟩ := guard_eq_some.1 h
    exact .yield hr.1 hr.2.1 hr.2.2
  | dispatch t =>
    obtain ⟨hr, rfl⟩ := guard_eq_some.1 h
    exact .dispatch hr.1 hr.2
  | spawn t =>
    obtain ⟨hr, rfl⟩ := guard_eq_some.1 h
    exact .spawn hr.1 hr.2
  | timeout t =>
    obtain ⟨hr, rfl⟩ := guard_eq_some.1 h
    exact .timeout hr.1 hr.2.1 hr.2.2
  | wakeChan t chan =>
    obtain ⟨hr, rfl⟩ := guard_eq_some.1 h
    exact .wakeChan hr.1 hr.2.1 hr.2.2.1 hr.2.2.2
  | signal t kill =>
    obtain ⟨hr, rfl⟩ := guard_eq_some.1 h
    exact .signal hr

/-- `thread_send_signal` on a thread that is not `SLEEPING`, on one that is, and on one
that is and fails the assertion. -/
theorem threadSendSignal_cases (s : WState T) (t : T) (kill : Bool) :
    (s.state t ≠ .sleeping ∧ threadSendSignal s t kill =
      { s with killed := update s.killed t (s.killed t || kill) }) ∨
    (s.state t = .sleeping ∧ threadSendSignal s t kill =
      { s with
        killed := update s.killed t (s.killed t || kill)
        chan := update s.chan t 0
        state := update s.state t .runnable }) ∨
    (s.state t = .sleeping ∧ threadSendSignal s t kill =
      { s with
        killed := update s.killed t (s.killed t || kill)
        fault := some (.panic "assert failed") }) := by
  by_cases hs : s.state t = .sleeping
  · by_cases hc : s.chan t = 0 ∧ s.waitChan t = none
    · exact .inr (.inr ⟨hs, by simp [threadSendSignal, hs, hc]⟩)
    · exact .inr (.inl ⟨hs, by simp [threadSendSignal, hs, hc]⟩)
  · exact .inl ⟨hs, by simp [threadSendSignal, hs]⟩

end XVapor.Wait
