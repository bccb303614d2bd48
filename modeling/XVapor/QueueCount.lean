import XVapor.Machine

/-!
# The Count of a Queue

A `queue_t` (`lib/queue.c`) is a list of nodes with their number `cnt` beside it. Every push
counts up, but only `queue_remove_atomic` counts down: `queue_remove` is not given the queue,
and `queue_pop` removes through it. So **the count is right until the first such removal**,
and from then on it is too large.

A node stands for its `list_head` of the queue's type, and the list for the ring of these. The
functions that take the lock of the queue do under it what those without the lock do, except
for the two that remove.

## Main results

* `right_along_iff`: the queue is right after every call, if and only if no node is taken out
  by `queue_remove` or by a `queue_pop` that removes.
-/

namespace XVapor.QueueCount

/-- A `queue_t`, and beside it the nodes ever pushed, in the order of their last pushes. -/
structure Queue (N : Type) where
  list : List N
  cnt : BitVec 32
  pushed : List N

variable {N : Type} [DecidableEq N]

namespace Queue

def queueInit : Queue N := ⟨[], 0, []⟩

variable (q : Queue N)

def queueIsempty : Bool := q.list.isEmpty

def queuePushBack (node : N) : Queue N :=
  ⟨q.list ++ [node], q.cnt + 1, q.pushed.erase node ++ [node]⟩

def queueRemove (node : N) : Queue N := { q with list := q.list.erase node }

def queueRemoveAtomic (node : N) : Queue N := { q.queueRemove node with cnt := q.cnt - 1 }

def queuePop (remove : Bool) : Option N × Queue N :=
  if q.queueIsempty then (none, q)
  else
    match q.list.head? with
    | none => (none, q)
    | some node => (some node, if remove then q.queueRemove node else q)

def getQueueCount : ℤ := q.cnt.toInt

end Queue

open Queue

/-- A call; `atomic` tells the function that takes the lock. -/
inductive Call (N : Type)
  | pushBack (atomic : Bool) (node : N)
  | pop (atomic remove : Bool)
  | remove (node : N)
  | removeAtomic (node : N)

/-- The queue after a call. -/
def after (q : Queue N) : Call N → Queue N
  | .pushBack _ node => q.queuePushBack node
  | .pop _ remove => (q.queuePop remove).2
  | .remove node => q.queueRemove node
  | .removeAtomic node => q.queueRemoveAtomic node

/-- A node that is pushed is not on the queue, which has less than `2 ^ 31` nodes; one that is
removed is on it. -/
def legal (q : Queue N) : Call N → Bool
  | .pushBack _ node => node ∉ q.list ∧ q.list.length + 1 < 2 ^ 31
  | .pop _ _ => true
  | .remove node => node ∈ q.list
  | .removeAtomic node => node ∈ q.list

/-- All sequences of legal calls. -/
def queueMachine (N : Type) [DecidableEq N] : Machine (Queue N) (Call N) where
  init q := q = queueInit
  step q c := if legal q c then some (after q c) else none

/-- **A queue that is right**: the count is the number of nodes; the nodes are in the order of
their last pushes and `queue_pop` returns the first; it returns `NULL` exactly if the count is 0. -/
structure Right (q : Queue N) : Prop where
  count : q.getQueueCount = q.list.length
  last : q.pushed.Nodup
  order : q.list.Sublist q.pushed
  pop : ∀ remove, (q.queuePop remove).1 = q.list.head?
  null : ∀ remove, (q.queuePop remove).1 = none ↔ q.getQueueCount = 0

/-- A call that takes a node out and does not count it. -/
def Uncounted (q : Queue N) : Call N → Prop
  | .pushBack _ _ => False
  | .pop _ remove => remove = true ∧ q.list ≠ []
  | .remove _ => True
  | .removeAtomic _ => False

section

variable {q : Queue N} {c : Call N}

theorem queuePop_fst (remove : Bool) : (q.queuePop remove).1 = q.list.head? := by
  cases hq : q.list <;> simp [queuePop, queueIsempty, hq]

theorem right_of_count (hcount : q.getQueueCount = q.list.length) (hlast : q.pushed.Nodup)
    (horder : q.list.Sublist q.pushed) : Right q := by
  refine ⟨hcount, hlast, horder, queuePop_fst, fun remove => ?_⟩
  rw [queuePop_fst, List.head?_eq_none_iff, hcount, Int.natCast_eq_zero, List.length_eq_zero_iff]

theorem not_right_queueRemove {node : N} (hcount : q.getQueueCount = q.list.length)
    (hmem : node ∈ q.list) : ¬ Right (q.queueRemove node) := by
  intro hr
  have hlen := List.length_erase_of_mem hmem
  have hpos := List.length_pos_of_mem hmem
  have hcnt : q.getQueueCount = (q.list.erase node).length := hr.count
  omega

theorem Right.pushBack {node : N} (h : Right q) (hnode : node ∉ q.list)
    (hlen : q.list.length + 1 < 2 ^ 31) : Right (q.queuePushBack node) := by
  have hcount : q.cnt.toInt = q.list.length := h.count
  have hone : (1 : BitVec 32).toInt = 1 := by decide
  refine right_of_count ?_ ?_ ?_
  · rw [getQueueCount, queuePushBack, BitVec.toInt_add, hcount, hone, List.length_append]
    exact Int.bmod_eq_of_le (by omega) (by omega)
  · refine List.nodup_append.2 ⟨h.last.erase node, by simp, ?_⟩
    rintro a ha b hb rfl
    exact h.last.not_mem_erase (List.mem_singleton.1 hb ▸ ha)
  · have horder := h.order.erase node
    rw [List.erase_of_not_mem hnode] at horder
    exact horder.append (List.Sublist.refl _)

theorem Right.after_iff (h : Right q) (hl : legal q c) : Right (after q c) ↔ ¬ Uncounted q c := by
  cases c with
  | pushBack _ node =>
    obtain ⟨hnode, hlen⟩ := of_decide_eq_true hl
    exact iff_of_true (h.pushBack hnode hlen) id
  | pop _ remove =>
    cases hq : q.list with
    | nil => simpa [Uncounted, hq, after, queuePop, queueIsempty] using h
    | cons node l =>
      have hnot := not_right_queueRemove h.count (show node ∈ q.list by simp [hq])
      cases remove with
      | false => simpa [Uncounted, hq, after, queuePop, queueIsempty] using h
      | true => simpa [Uncounted, hq, after, queuePop, queueIsempty] using hnot
  | remove node =>
    exact iff_of_false (not_right_queueRemove h.count (of_decide_eq_true hl)) (by simp [Uncounted])
  | removeAtomic node =>
    have hlen := List.length_erase_of_mem (of_decide_eq_true hl)
    have hpos := List.length_pos_of_mem (of_decide_eq_true hl)
    have hcount : q.cnt.toInt = q.list.length := h.count
    have hlt := q.cnt.toInt_lt
    have hone : (1 : BitVec 32).toInt = 1 := by decide
    refine iff_of_true (right_of_count ?_ h.last (List.erase_sublist.trans h.order)) id
    rw [after, queueRemoveAtomic, getQueueCount, BitVec.toInt_sub, hcount, hone, queueRemove, hlen,
      Int.bmod_eq_of_le (by omega) (by omega)]
    omega

end

/-- **The queue is right after every call of a sequence**, if and only if no call takes a node
out without counting it. -/
theorem right_along_iff (calls : List (Call N)) :
    (queueMachine N).Along (fun q c => legal q c → Right (after q c)) queueInit calls ↔
      (queueMachine N).Along (fun q c => legal q c → ¬ Uncounted q c) queueInit calls := by
  refine Machine.along_iff_along (I := Right) (fun q c h => ?_) (fun q c q' h hc hs => ?_)
    (right_of_count rfl List.nodup_nil (List.Sublist.refl _))
  · exact forall_congr' h.after_iff
  · obtain ⟨hl, rfl⟩ := guard_eq_some.1 hs
    exact (h.after_iff hl).2 (hc hl)

/-- A node is pushed and popped: the queue is empty and `queue_pop` returns `NULL`, with a count
of 1. -/
theorem count_after_pop :
    ∃ q, (queueMachine ℕ).exec queueInit [.pushBack false 1, .pop false true] = some q ∧
      q.list = [] ∧ (q.queuePop true).1 = none ∧ q.getQueueCount = 1 :=
  ⟨⟨[], 1, [1]⟩, rfl, rfl, rfl, rfl⟩

end XVapor.QueueCount
