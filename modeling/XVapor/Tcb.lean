import Mathlib.Data.List.Nodup

/-!
# Thread States and State Queues

`kernel/sched/sched.c` keeps every tcb linked, through its one `state_list` node, on the
global queue of its state; a `RUNNING` thread is on none. This module embeds the state
word and the queues with the three primitives of `kernel/lib/queue.c` that move a tcb:
unlink, push, pop. `tcb_q_change_state` is their composition. The primitives are kept
apart because each takes and drops its own queue lock, so other CPUs run between them.
-/

namespace XVapor

open Function

/-- `enum thread_state`. -/
inductive TcbState
  | unused
  | used
  | runnable
  | running
  | sleeping
  deriving DecidableEq, Repr

/-- The state word of every tcb and the global queues `g_tcb_queues`. -/
structure Tcbs (T : Type) where
  state : T → TcbState
  queue : TcbState → List T

namespace Tcbs

variable {T : Type} {c : Tcbs T} {t t' : T} {st st' : TcbState}

/-- `queue_push_back` on the queue of a state. -/
def queuePushBack (c : Tcbs T) (st : TcbState) (t : T) : Tcbs T :=
  { c with queue := update c.queue st (c.queue st ++ [t]) }

@[simp]
theorem queuePushBack_state : (c.queuePushBack st t).state = c.state := rfl

theorem mem_queuePushBack :
    t' ∈ (c.queuePushBack st t).queue st' ↔ t' ∈ c.queue st' ∨ (st' = st ∧ t' = t) := by
  obtain rfl | h := eq_or_ne st' st
  · simp [queuePushBack]
  · simp [queuePushBack, h]

variable [DecidableEq T]

/-- `queue_remove` of a tcb's `state_list`: `list_del_reinit` unlinks the node from
whichever queue it is on, and does nothing to a node that is linked to itself. -/
def queueRemove (c : Tcbs T) (t : T) : Tcbs T :=
  { c with queue := fun st => (c.queue st).erase t }

/-- `queue_pop` with `remove` set, on the queue of a state. -/
def queuePop (c : Tcbs T) (st : TcbState) : Option (T × Tcbs T) :=
  match c.queue st with
  | [] => none
  | t :: _ => some (t, c.queueRemove t)

/-- The plain assignment to the state word, as in `tcb_change2_running`. -/
def setState (c : Tcbs T) (t : T) (st : TcbState) : Tcbs T :=
  { c with state := update c.state t st }

/-- `tcb_q_change_state`, with nobody running in between. -/
def tcbQChangeState (c : Tcbs T) (t : T) (st : TcbState) : Tcbs T :=
  ((c.queueRemove t).queuePushBack st t).setState t st

@[simp]
theorem queueRemove_state : (c.queueRemove t).state = c.state := rfl

@[simp]
theorem setState_queue : (c.setState t st).queue = c.queue := rfl

@[simp]
theorem setState_state : (c.setState t st).state = update c.state t st := rfl

@[simp]
theorem tcbQChangeState_state :
    (c.tcbQChangeState t st).state = update c.state t st := rfl

section

variable (hnd : ∀ st, (c.queue st).Nodup)
include hnd

theorem mem_queueRemove :
    t' ∈ (c.queueRemove t).queue st ↔ t' ≠ t ∧ t' ∈ c.queue st := by
  simp [queueRemove, (hnd st).mem_erase_iff]

theorem nodup_queueRemove (st : TcbState) :
    ((c.queueRemove t).queue st).Nodup :=
  (hnd st).erase t

theorem mem_tcbQChangeState :
    t' ∈ (c.tcbQChangeState t st).queue st' ↔
      (t' ≠ t ∧ t' ∈ c.queue st') ∨ (st' = st ∧ t' = t) := by
  simp only [tcbQChangeState, setState_queue, mem_queuePushBack, mem_queueRemove hnd]

theorem nodup_tcbQChangeState (st' : TcbState) :
    ((c.tcbQChangeState t st).queue st').Nodup := by
  have hrem := nodup_queueRemove (t := t) hnd
  obtain rfl | h := eq_or_ne st' st
  · have hnot : t ∉ (c.queueRemove t).queue st' := by simp [mem_queueRemove hnd]
    simpa [tcbQChangeState, queuePushBack] using (hrem st').concat hnot
  · simpa [tcbQChangeState, queuePushBack, h] using hrem st'

end

end Tcbs

end XVapor
