import Mathlib.Data.List.Basic

/-!
# Queues of Asynchronous Transfers

A device carries out transfers between buffers and the places of a store. A transfer was
submitted and has not taken effect: it is in a queue, in the order of submission. A write
takes the contents of its buffer at some time before its effect, so a change of the buffer
before that time changes what is written. Transfers at the same place take effect in their
order, others in any order.

`eventual` is what a place will hold when the device has carried out the queue, with the
buffers as they are now.

## Main results

* `eventual_fetch`: taking the contents of the buffer changes nothing.
* `eventual_write`, `eventual_erase_read`: nor does an effect that is next at its place.
* `eventual_congr`: nor a change of the buffers of other places.
-/

namespace XVapor

/-- A transfer that was submitted: what is known of it by `id`, its place, its direction, its
buffer, and what was taken from the buffer. -/
structure Transfer (K B D : Type*) where
  id : ℕ
  sector : K
  write : Bool
  buf : B
  fetched : Option D

variable {K B D : Type*} {q : Transfer K B D} {l l1 l2 : List (Transfer K B D)}
  {data data' : B → D} {disk : K → D} {k : K} {v : D} {i : ℕ}

/-- What a write will put at its place. -/
def Transfer.value (data : B → D) (q : Transfer K B D) : D := q.fetched.getD (data q.buf)

/-- The device takes the contents of the buffer. -/
def Transfer.fetch (i : ℕ) (v : D) (q : Transfer K B D) : Transfer K B D :=
  if q.id = i ∧ q.fetched = none then { q with fetched := some v } else q

theorem Transfer.fetch_fields (i : ℕ) (v : D) (q : Transfer K B D) :
    (q.fetch i v).id = q.id ∧ (q.fetch i v).buf = q.buf ∧ (q.fetch i v).write = q.write ∧
      (q.fetch i v).sector = q.sector ∧ ((q.fetch i v).fetched = none → q.fetched = none) := by
  rw [fetch]
  split <;> simp

variable [DecidableEq K]

/-- What the queue will have put at a place, over what was there. -/
def carryOut (data : B → D) (k : K) : D → List (Transfer K B D) → D
  | v, [] => v
  | v, q :: l => carryOut data k (if q.write = true ∧ q.sector = k then q.value data else v) l

/-- **What a place will hold** when the queue was carried out. -/
def eventual (data : B → D) (disk : K → D) (l : List (Transfer K B D)) (k : K) : D :=
  carryOut data k (disk k) l

@[simp] theorem eventual_nil : eventual data disk [] k = disk k := rfl

theorem carryOut_append :
    carryOut data k v (l1 ++ l2) = carryOut data k (carryOut data k v l1) l2 := by
  induction l1 generalizing v with
  | nil => rfl
  | cons q l1 ih => exact ih

theorem eventual_concat : eventual data disk (l ++ [q]) k =
    if q.write = true ∧ q.sector = k then q.value data else eventual data disk l k := by
  rw [eventual, carryOut_append]
  rfl

theorem carryOut_of_forall (h : ∀ q ∈ l, ¬ (q.write = true ∧ q.sector = k)) :
    carryOut data k v l = v := by
  induction l with
  | nil => rfl
  | cons q l ih =>
    rw [List.forall_mem_cons] at h
    rw [carryOut, if_neg h.1]
    exact ih h.2

/-- **Buffers that matter elsewhere only.** -/
theorem eventual_congr (h : ∀ q ∈ l, q.write = true → q.sector = k → q.fetched = none →
    data' q.buf = data q.buf) : eventual data' disk l k = eventual data disk l k := by
  rw [eventual, eventual]
  generalize disk k = v
  induction l generalizing v with
  | nil => rfl
  | cons q l ih =>
    rw [List.forall_mem_cons] at h
    have hvalue : q.write = true ∧ q.sector = k → q.value data' = q.value data := by
      rintro ⟨hw, hk⟩
      cases hf : q.fetched with
      | none => simp [Transfer.value, hf, h.1 hw hk hf]
      | some u => simp [Transfer.value, hf]
    have hhead : (if q.write = true ∧ q.sector = k then q.value data' else v) =
        if q.write = true ∧ q.sector = k then q.value data else v := by
      split
      next hc => exact hvalue hc
      next => rfl
    rw [carryOut, carryOut, hhead]
    exact ih h.2 _

/-- **The contents of a buffer are taken.** -/
theorem eventual_fetch (h : ∀ q ∈ l, q.id = i → data q.buf = v) :
    eventual data disk (l.map (Transfer.fetch i v)) k = eventual data disk l k := by
  rw [eventual, eventual]
  generalize disk k = u
  induction l generalizing u with
  | nil => rfl
  | cons q l ih =>
    rw [List.forall_mem_cons] at h
    have hfields : (q.fetch i v).write = q.write ∧ (q.fetch i v).sector = q.sector ∧
        (q.fetch i v).value data = q.value data := by
      by_cases hc : q.id = i ∧ q.fetched = none
      · simp [Transfer.fetch, Transfer.value, hc, h.1 hc.1]
      · simp [Transfer.fetch, hc]
    obtain ⟨hw, hk, hvalue⟩ := hfields
    rw [List.map_cons, carryOut, carryOut, hw, hk, hvalue]
    exact ih h.2 _

/-- **A write takes effect**, which no earlier transfer at its place has to do. -/
theorem eventual_write (hv : q.value data = v) (hfirst : ∀ q' ∈ l1, q'.sector ≠ q.sector)
    (hw : q.write = true) :
    eventual data (Function.update disk q.sector v) (l1 ++ l2) k =
      eventual data disk (l1 ++ q :: l2) k := by
  rw [eventual, eventual, carryOut_append, carryOut_append, carryOut]
  congr 1
  obtain rfl | hk := eq_or_ne q.sector k
  · have hskip : ∀ u, carryOut data q.sector u l1 = u := fun u =>
      carryOut_of_forall fun q' hq' hc => hfirst q' hq' hc.2
    rw [hskip, if_pos ⟨hw, rfl⟩, Function.update_self, hv]
  · rw [if_neg fun hc => hk hc.2, Function.update_of_ne (Ne.symm hk)]

/-- **A read takes effect.** -/
theorem eventual_erase_read (hw : q.write = false) :
    eventual data disk (l1 ++ l2) k = eventual data disk (l1 ++ q :: l2) k := by
  rw [eventual, eventual, carryOut_append, carryOut_append, carryOut, if_neg (by simp [hw])]

end XVapor
