import Mathlib.Logic.Nontrivial.Basic
import XVapor.Bytes

/-!
# Buffers That Are Assigned in Part

A local variable of a program has bytes before the program assigns them: those that its memory had
from earlier use. A `Buffer` tells the elements that have been assigned from those that have not,
and `Buffer.over old` is the content of the variable if its memory held `old` before. What an
observer learns of `old` depends on the elements it sees.

## Main results

* `Buffer.over_same_iff`: an observer who sees the elements at the positions `R` **sees the same
  for every earlier content of the memory if and only if all of them have been assigned**.
* `Buffer.stale_first_iff`: for an observer who sees a beginning of the buffer, the first element
  that is not assigned decides.
-/

namespace XVapor

variable {α : Type*} {n off i : ℕ}

/-- A buffer, with the elements that have been assigned. -/
abbrev Buffer (α : Type*) := List (Option α)

/-- The content of a buffer in memory that held `old`. -/
def Buffer.over (b : Buffer α) (old : ℕ → α) : List α := b.mapIdx fun i x => x.getD (old i)

namespace Buffer

variable {b : Buffer α} {d : List α} {old old' : ℕ → α}

/-- A buffer of which nothing has been assigned. -/
def fresh (n : ℕ) : Buffer α := List.replicate n none

/-- An assignment at an offset. -/
def put (b : Buffer α) (off : ℕ) (d : List α) : Buffer α := splice none b off (d.map some)

/-- Assignments, one after the other. -/
def puts (b : Buffer α) (l : List (ℕ × List α)) : Buffer α :=
  l.foldl (fun b x => b.put x.1 x.2) b

/-- The element `i` has not been assigned. -/
def Stale (b : Buffer α) (i : ℕ) : Prop := b[i]? = some none

@[simp]
theorem length_fresh : (fresh n : Buffer α).length = n := List.length_replicate

@[simp]
theorem length_put : (b.put off d).length = max b.length (off + d.length) := by
  rw [put, length_splice, List.length_map]

@[simp]
theorem length_over : (b.over old).length = b.length := List.length_mapIdx

theorem getElem?_over : (b.over old)[i]? = b[i]?.map fun x => x.getD (old i) :=
  List.getElem?_mapIdx

theorem stale_fresh : (fresh n : Buffer α).Stale i ↔ i < n := by
  rw [Stale, fresh, List.getElem?_replicate]
  split
  next h => simp [h]
  next h => simp [h]

/-- **An assignment** within the buffer leaves the elements that it does not write. -/
theorem stale_put (h : off + d.length ≤ b.length) :
    (b.put off d).Stale i ↔ b.Stale i ∧ ¬ (off ≤ i ∧ i < off + d.length) := by
  rw [Stale, put, getElem?_splice, List.length_map]
  by_cases hi : i < off
  · rw [if_pos hi, if_pos (by omega), Stale]
    exact ⟨fun hb => ⟨hb, by omega⟩, fun hb => hb.1⟩
  rw [if_neg hi]
  by_cases hd : i < off + d.length
  · rw [if_pos hd, List.getElem?_map]
    constructor
    · intro hb
      obtain ⟨x, -, hx⟩ := Option.map_eq_some_iff.1 hb
      cases hx
    · rintro ⟨-, hout⟩
      exact absurd ⟨by omega, hd⟩ hout
  · rw [if_neg hd, Stale]
    exact ⟨fun hb => ⟨hb, by omega⟩, fun hb => hb.1⟩

theorem stale_puts {l : List (ℕ × List α)} (h : ∀ x ∈ l, x.1 + x.2.length ≤ b.length) :
    (b.puts l).Stale i ↔ b.Stale i ∧ ∀ x ∈ l, ¬ (x.1 ≤ i ∧ i < x.1 + x.2.length) := by
  induction l generalizing b with
  | nil => simp [puts]
  | cons x l ih =>
    have hx := h x (List.mem_cons_self ..)
    have hlen : (b.put x.1 x.2).length = b.length := by rw [length_put, Nat.max_eq_left hx]
    rw [puts, List.foldl_cons, ← puts, ih fun y hy => ?_, stale_put hx, List.forall_mem_cons,
      and_assoc]
    rw [hlen]
    exact h y (List.mem_cons_of_mem x hy)

/-- The content of a buffer of which nothing has been assigned. -/
theorem over_fresh (n : ℕ) (old : ℕ → α) : (fresh n).over old = (List.range n).map old := by
  refine List.ext_getElem? fun i => ?_
  rw [getElem?_over, fresh, List.getElem?_replicate, List.getElem?_map]
  by_cases hi : i < n
  · rw [if_pos hi, List.getElem?_range hi]
    rfl
  · rw [if_neg hi, List.getElem?_eq_none (by simp; omega)]
    rfl

theorem over_of_not_stale (h : ¬ b.Stale i) : (b.over old)[i]? = (b.over old')[i]? := by
  rw [getElem?_over, getElem?_over]
  rcases hx : b[i]? with _ | x
  · rfl
  cases x with
  | none => exact absurd hx h
  | some y => rfl

theorem over_of_stale (h : b.Stale i) : (b.over old)[i]? = some (old i) := by
  rw [getElem?_over, h]
  rfl

variable {R : ℕ → Prop}

/-- **What an observer learns.** An observer who sees the elements at the positions `R` sees the same
for every earlier content of the memory if and only if all of them have been assigned. -/
theorem over_same_iff [Nontrivial α] (old : ℕ → α) :
    (∀ old' : ℕ → α, ∀ i < b.length, R i → (b.over old')[i]? = (b.over old)[i]?) ↔
      ∀ i, R i → ¬ b.Stale i := by
  constructor
  · intro h i hr hs
    obtain ⟨x, hx⟩ := exists_ne (old i)
    have hi := h (fun _ => x) i (List.getElem?_eq_some_iff.1 hs).1 hr
    rw [over_of_stale hs, over_of_stale hs] at hi
    exact hx (Option.some.inj hi)
  · intro h old' i _ hr
    exact over_of_not_stale (h i hr)

/-- The content of a buffer after an assignment. -/
theorem getElem?_over_put (h : off ≤ b.length) : ((b.put off d).over old)[i]? =
    if off ≤ i ∧ i < off + d.length then d[i - off]? else (b.over old)[i]? := by
  rw [getElem?_over, put, getElem?_splice, List.length_map, getElem?_over]
  by_cases hi : i < off
  · rw [if_pos hi, if_pos (by omega), if_neg (by omega)]
  rw [if_neg hi]
  by_cases hd : i < off + d.length
  · rw [if_pos hd, if_pos ⟨by omega, hd⟩, List.getElem?_map, Option.map_map]
    exact congrFun Option.map_id _
  · rw [if_neg hd, if_neg (by omega)]

/-- An observer who sees a beginning of the buffer sees an element that is not assigned if and only
if it sees the first of them. -/
theorem stale_first_iff {k : ℕ} (hR : ∀ i j, j ≤ i → R i → R j)
    (hk : b.Stale k) (hfirst : ∀ i < k, ¬ b.Stale i) :
    (∀ i, R i → ¬ b.Stale i) ↔ ¬ R k := by
  constructor
  · intro h hr
    exact h k hr hk
  · intro h i hr hs
    have hki : k ≤ i := by
      by_contra hlt
      exact hfirst i (by omega) hs
    exact h (hR i k hki hr)

end Buffer

end XVapor
