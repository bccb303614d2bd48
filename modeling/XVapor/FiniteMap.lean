import Mathlib.Algebra.Order.BigOperators.Group.List
import Mathlib.Data.Finmap
import Mathlib.Tactic.Linarith

/-!
# Weights of Finite Maps

A finite map is an association list without a repeated key. Its **weight** under a function
of the values is the sum over the entries; with the function that is one on the values that
refer to a given object, it counts the references of the map to that object.

## Main results

* `weight_insert`, `weight_insert_of_lookup`, `weight_erase`: how the weight changes when an
  entry is added, replaced or removed.
-/

namespace XVapor

variable {α β : Type}

/-- A finite map from `α` to `β`. -/
abbrev FiniteMap (α β : Type) := AList fun _ : α => β

/-- The sum of `f` over the values. -/
def weight (f : β → ℤ) (s : FiniteMap α β) : ℤ := (s.entries.map fun e => f e.2).sum

variable {f : β → ℤ} {s : FiniteMap α β} {a a' : α} {b b' : β}

@[simp]
theorem weight_empty : weight f (∅ : FiniteMap α β) = 0 := List.sum_nil

theorem weight_nonneg (hf : ∀ b, 0 ≤ f b) (s : FiniteMap α β) : 0 ≤ weight f s := by
  refine List.sum_nonneg fun w hw => ?_
  obtain ⟨e, -, rfl⟩ := List.mem_map.1 hw
  exact hf e.2

/-- The weight that is one on a value counts it. -/
theorem weight_eq_count [DecidableEq β] (b : β) (s : FiniteMap α β) :
    weight (fun x => if x = b then 1 else 0) s = ((s.entries.map (·.2)).count b : ℕ) := by
  rw [weight]
  induction s.entries with
  | nil => rfl
  | cons e l ih =>
    rw [List.map_cons, List.sum_cons, ih, List.map_cons, List.count_cons]
    by_cases he : e.2 = b
    · simp [he, add_comm]
    · simp [he]

theorem weight_of_entries (h : s.entries = []) : weight f s = 0 := by
  simp [weight, h]

variable [DecidableEq α]

/-- The weight of an entry is taken away with it. -/
theorem weight_erase (h : s.lookup a = some b) : weight f (s.erase a) = weight f s - f b := by
  have hmem : a ∈ s.entries.keys := AList.lookup_isSome.1 (by rw [h]; rfl)
  obtain ⟨b', l1, l2, hl1, heq, herase⟩ := List.exists_of_kerase hmem
  have hb : b' = b := by
    have hin : Sigma.mk a b' ∈ s.entries := by simp [heq]
    exact Option.some.inj ((AList.mem_lookup_iff.2 hin).symm.trans h)
  have hsum : weight f s = (l1.map fun e => f e.2).sum + (f b' + (l2.map fun e => f e.2).sum) := by
    simp [weight, heq]
  have hrest : weight f (s.erase a) =
      (l1.map fun e => f e.2).sum + (l2.map fun e => f e.2).sum := by
    have hentries : (s.erase a).entries = l1 ++ l2 := herase
    simp [weight, hentries]
  rw [hsum, hrest, hb]
  omega

theorem weight_insert (h : s.lookup a = none) :
    weight f (s.insert a b) = weight f s + f b := by
  rw [weight, AList.entries_insert_of_notMem (AList.lookup_eq_none.1 h), List.map_cons,
    List.sum_cons, add_comm, weight]

/-- An entry that is replaced. -/
theorem weight_insert_of_lookup (h : s.lookup a = some b) :
    weight f (s.insert a b') = weight f s - f b + f b' := by
  rw [← weight_erase h, ← weight_insert (AList.lookup_erase a s)]
  congr 1
  refine AList.ext ?_
  simp only [AList.insert, AList.erase, List.kinsert_def]
  rw [List.kerase_of_notMem_keys (List.notMem_keys_kerase a s.nodupKeys)]

theorem le_weight (hf : ∀ b, 0 ≤ f b) (h : s.lookup a = some b) : f b ≤ weight f s := by
  have hrest := weight_nonneg hf (s.erase a)
  rw [weight_erase h] at hrest
  omega

theorem add_le_weight (hf : ∀ b, 0 ≤ f b) (hne : a ≠ a') (h : s.lookup a = some b)
    (h' : s.lookup a' = some b') : f b + f b' ≤ weight f s := by
  have hrest := le_weight hf (s := s.erase a) ((AList.lookup_erase_ne hne.symm).trans h')
  rw [weight_erase h] at hrest
  omega

end XVapor
