import Mathlib.Algebra.BigOperators.Pi
import Mathlib.Algebra.BigOperators.Ring.Finset
import Mathlib.Algebra.Order.BigOperators.Group.Finset
import Mathlib.Data.Fintype.BigOperators
import Mathlib.Tactic.Abel

/-!
# Tallies under Updates

How many entries of a table meet a condition, and how this number and a sum over a table
change when one entry is replaced: the old entry is taken away, and the new one added.

## Main results

* `sum_comp_update`: a sum over a table, after one entry is replaced.
* `tally_update`: a tally, after one entry is replaced.
* `one_le_tally`, `tally_eq_zero`: what a tally says about the entries.
-/

namespace XVapor

open Function

variable {ι β : Type*} [Fintype ι]

/-- The number of the entries that meet `q`. -/
def tally (q : β → Prop) [DecidablePred q] (h : ι → β) : ℕ :=
  (Finset.univ.filter fun i => q (h i)).card

variable {q : β → Prop} [DecidablePred q]

/-- A tally is a sum of ones. -/
theorem tally_eq_sum (h : ι → β) : (tally q h : ℤ) = ∑ i, if q (h i) then 1 else 0 := by
  rw [tally, Finset.card_filter, Nat.cast_sum]
  simp

variable {h : ι → β}

theorem one_le_tally {a : ι} (ha : q (h a)) : 1 ≤ tally q h :=
  Finset.card_pos.2 ⟨a, by simpa using ha⟩

theorem tally_eq_zero : tally q h = 0 ↔ ∀ i, ¬ q (h i) := by
  simp [tally, Finset.filter_eq_empty_iff]

variable [DecidableEq ι]

theorem sum_comp_update {G : Type*} [AddCommGroup G] (h : ι → β) (a : ι) (v : β)
    (g : β → G) : ∑ i, g (update h a v i) = ∑ i, g (h i) - g (h a) + g v := by
  have hcomp : (fun i => g (update h a v i)) = update (g ∘ h) a (g v) :=
    comp_update g h a v
  rw [hcomp, Finset.sum_update_of_mem (Finset.mem_univ a),
    ← Finset.add_sum_erase Finset.univ (fun i => g (h i)) (Finset.mem_univ a),
    Finset.sdiff_singleton_eq_erase]
  simp only [comp_apply]
  abel

/-- The old value is counted down, and the new one up. -/
theorem tally_update (h : ι → β) (a : ι) (v : β) :
    (tally q (update h a v) : ℤ) =
      tally q h - (if q (h a) then 1 else 0) + if q v then 1 else 0 := by
  rw [tally_eq_sum, tally_eq_sum]
  exact sum_comp_update h a v fun b => if q b then (1 : ℤ) else 0

end XVapor
