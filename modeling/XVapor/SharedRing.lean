import Mathlib.Data.List.Basic
import Mathlib.Data.Nat.ModEq

/-!
# Rings with Wrapping Counters

A ring of `n` slots between one producer and one consumer. Each side counts what it has
done, modulo `m`, and the entry with count `i` is in slot `i % n`. The counters wrap, the
slots do not notice as long as `n` divides `m`, and the ring is empty exactly when the
counters agree as long as `n < m`.

## Main results

* `RingHolds.write`: writing the next slot disturbs no entry.
* `RingHolds.produce`, `RingHolds.consume`: advancing a counter adds or removes an entry.
* `RingHolds.eq_nil_iff`: the counters agree if and only if the ring is empty.
-/

namespace XVapor

variable {α : Type*} {n m : ℕ} {slot : ℕ → α} {c p : ℕ} {l : List α} {a : α}

/-- **The ring holds `l`**: the entries that were produced (count `p`) and not yet consumed
(count `c`), the oldest first. -/
structure RingHolds (n m : ℕ) (slot : ℕ → α) (c p : ℕ) (l : List α) : Prop where
  lt : c < m
  produced : p = (c + l.length) % m
  fits : l.length ≤ n
  entry : ∀ k, k < l.length → l[k]? = some (slot ((c + k) % n))

namespace RingHolds

theorem nil (hc : c < m) : RingHolds n m slot c c [] :=
  ⟨hc, by simp [Nat.mod_eq_of_lt hc], Nat.zero_le _, by simp⟩

section

variable (h : RingHolds n m slot c p l)
include h

theorem next_slot (hdvd : n ∣ m) :
    p % n = (c + l.length) % n := by
  rw [h.produced, Nat.mod_mod_of_dvd _ hdvd]

/-- **No entry is in the slot of the next one**, unless the ring is full. -/
theorem slot_ne (hdvd : n ∣ m) (hl : l.length < n) {k : ℕ}
    (hk : k < l.length) : (c + k) % n ≠ p % n := by
  rw [h.next_slot hdvd]
  intro heq
  have hmod : k ≡ l.length [MOD n] := Nat.ModEq.add_left_cancel' c heq
  rw [Nat.ModEq, Nat.mod_eq_of_lt (hk.trans hl), Nat.mod_eq_of_lt hl] at hmod
  omega

theorem write (hdvd : n ∣ m) (hl : l.length < n) (a : α) :
    RingHolds n m (Function.update slot (p % n) a) c p l :=
  ⟨h.lt, h.produced, h.fits, fun k hk => by
    rw [h.entry k hk, Function.update_of_ne (h.slot_ne hdvd hl hk)]⟩

/-- Advancing the counter of the producer. -/
theorem produce (hdvd : n ∣ m) (hl : l.length < n)
    (ha : slot (p % n) = a) : RingHolds n m slot c ((p + 1) % m) (l ++ [a]) := by
  refine ⟨h.lt, ?_, by simpa using Nat.succ_le_of_lt hl, fun k hk => ?_⟩
  · rw [h.produced, Nat.mod_add_mod, List.length_append, List.length_singleton, Nat.add_assoc]
  · rw [List.getElem?_append]
    by_cases hlt : k < l.length
    · rw [if_pos hlt, h.entry k hlt]
    have hk : k = l.length := by
      simp at hk
      omega
    rw [if_neg hlt, hk, Nat.sub_self, ← h.next_slot hdvd, ha]
    rfl

end

theorem head (h : RingHolds n m slot c p (a :: l)) : slot (c % n) = a := by
  have hentry := h.entry 0 (by simp)
  simpa using hentry.symm

/-- Advancing the counter of the consumer. -/
theorem consume (h : RingHolds n m slot c p (a :: l)) (hdvd : n ∣ m) :
    RingHolds n m slot ((c + 1) % m) p l := by
  have hm : 0 < m := (Nat.zero_le c).trans_lt h.lt
  refine ⟨Nat.mod_lt _ hm, ?_, ?_, fun k hk => ?_⟩
  · rw [h.produced, Nat.mod_add_mod, List.length_cons]
    congr 1
    omega
  · exact (Nat.le_succ _).trans h.fits
  · have hslot : ((c + 1) % m + k) % n = (c + (k + 1)) % n := by
      rw [Nat.add_mod, Nat.mod_mod_of_dvd _ hdvd, ← Nat.add_mod]
      congr 1
      omega
    have hentry := h.entry (k + 1) (by simpa using hk)
    rw [List.getElem?_cons_succ] at hentry
    rw [hentry, hslot]

section

variable (h : RingHolds n m slot c p l)
include h

/-- **The counters agree if and only if the ring is empty.** -/
theorem eq_nil_iff (hnm : n < m) : c = p ↔ l = [] := by
  constructor
  · intro heq
    have hlen := h.fits
    have hp : (c + l.length) % m = c := by rw [← h.produced, ← heq]
    by_cases hwrap : c + l.length < m
    · rw [Nat.mod_eq_of_lt hwrap] at hp
      exact List.eq_nil_of_length_eq_zero (by omega)
    · rw [Nat.mod_eq_sub_mod (not_lt.1 hwrap), Nat.mod_eq_of_lt (by have := h.lt; omega)] at hp
      have hlt := h.lt
      omega
  · rintro rfl
    rw [h.produced, List.length_nil, Nat.add_zero, Nat.mod_eq_of_lt h.lt]

/-- The number of entries, from the counters. -/
theorem length_eq (hnm : n < m) :
    l.length = (p + m - c) % m := by
  have hlen := h.fits
  have hlt := h.lt
  by_cases hwrap : c + l.length < m
  · have hp : p = c + l.length := by rw [h.produced, Nat.mod_eq_of_lt hwrap]
    have hsub : p + m - c = l.length + m := by omega
    rw [hsub, Nat.add_mod_right, Nat.mod_eq_of_lt (by omega)]
  · have hp : p = c + l.length - m := by
      rw [h.produced, Nat.mod_eq_sub_mod (not_lt.1 hwrap), Nat.mod_eq_of_lt (by omega)]
    have hsub : p + m - c = l.length := by omega
    rw [hsub, Nat.mod_eq_of_lt (by omega)]

/-- The counters and the slots determine the entries. -/
theorem unique {l' : List α} (h' : RingHolds n m slot c p l')
    (hnm : n < m) : l = l' := by
  have hlen : l.length = l'.length := (h.length_eq hnm).trans (h'.length_eq hnm).symm
  refine List.ext_getElem? fun k => ?_
  by_cases hk : k < l.length
  · rw [h.entry k hk, h'.entry k (hlen ▸ hk)]
  · rw [List.getElem?_eq_none (not_lt.1 hk), List.getElem?_eq_none (hlen ▸ not_lt.1 hk)]

end

end RingHolds

end XVapor
