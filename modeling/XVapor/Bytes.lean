import Mathlib.Data.List.Basic

/-!
# Slices and Splices of Lists

A file is a list of bytes that is read and written at an offset. `slice l off n` is what a
read of `n` elements at `off` returns, cut at the end of the list; `splice z l off d` is the
list after a write of `d` at `off`, with `z` in the gap if `off` is past the end.

## Main results

* `slice_append_slice`, `splice_splice_append`: two transfers one after the other are one
  transfer, so a transfer can be done in pieces.
* `splice_fill_iff`: filling the gap from any earlier position changes nothing if and only if
  it overwrites only `z`.
-/

namespace XVapor

variable {α : Type*} {l : List α} {off m n : ℕ}

/-- The `n` elements at `off`, or what there is of them. -/
def slice (l : List α) (off n : ℕ) : List α := (l.drop off).take n

@[simp]
theorem length_slice : (slice l off n).length = min n (l.length - off) := by
  simp [slice]

@[simp]
theorem slice_zero : slice l off 0 = [] := by simp [slice]

theorem slice_eq_nil : slice l off n = [] ↔ n = 0 ∨ l.length ≤ off := by
  simp [slice, List.take_eq_nil_iff]

theorem slice_append_slice (l : List α) (off m n : ℕ) :
    slice l off m ++ slice l (off + m) n = slice l off (m + n) := by
  simp [slice, List.take_add, List.drop_drop]

/-- A read that goes on where a read of `m` elements has stopped. -/
theorem slice_add_length (l : List α) (off m n : ℕ) :
    slice l (off + (slice l off m).length) n = slice l (off + m) n := by
  rw [length_slice]
  by_cases hm : m ≤ l.length - off
  · rw [Nat.min_eq_left hm]
  · -- the first read has come to the end of the list
    have hnil : ∀ k, l.length ≤ k → slice l k n = [] := fun k hk => slice_eq_nil.2 (.inr hk)
    rw [hnil _ (by omega), hnil _ (by omega)]

/-- The list with `d` written at `off`. -/
def splice (z : α) (l : List α) (off : ℕ) (d : List α) : List α :=
  (l ++ List.replicate (off - l.length) z).take off ++ d ++ l.drop (off + d.length)

variable {z : α} {d e : List α}

/-- The elements of a splice: before the offset, written, and behind. -/
theorem getElem?_splice (i : ℕ) : (splice z l off d)[i]? =
    if i < off then (if i < l.length then l[i]? else some z)
    else if i < off + d.length then d[i - off]? else l[i]? := by
  have hlen : ((l ++ List.replicate (off - l.length) z).take off).length = off := by
    simp
    omega
  rw [splice, List.append_assoc, List.getElem?_append, hlen]
  by_cases hi : i < off
  · rw [if_pos hi, if_pos hi, List.getElem?_take_of_lt hi, List.getElem?_append]
    by_cases hl : i < l.length
    · rw [if_pos hl, if_pos hl]
    · rw [if_neg hl, if_neg hl, List.getElem?_replicate, if_pos (by omega)]
  rw [if_neg hi, if_neg hi, List.getElem?_append]
  by_cases hd : i - off < d.length
  · rw [if_pos hd, if_pos (by omega)]
  · rw [if_neg hd, if_neg (by omega), List.getElem?_drop]
    congr 1
    omega

@[simp]
theorem length_splice : (splice z l off d).length = max l.length (off + d.length) := by
  simp [splice]
  omega

theorem splice_nil (h : off ≤ l.length) : splice z l off [] = l := by
  simp [splice, Nat.sub_eq_zero_of_le h]

theorem splice_splice_append (z : α) (l : List α) (off : ℕ) (d e : List α) :
    splice z (splice z l off d) (off + d.length) e = splice z l off (d ++ e) := by
  refine List.ext_getElem? fun i => ?_
  simp only [getElem?_splice, length_splice, List.length_append, List.getElem?_append]
  grind

/-- **A gap filled from too early.** With zeros from `c` on, where `c` may be before the end
of the list, the write at `off` gives what it gives at once if and only if the zeros
overwrite zeros. -/
theorem splice_fill_iff (z : α) (l d : List α) {c off : ℕ} (hoff : c ≤ off) :
    splice z (splice z l c (List.replicate (off - c) z)) off d = splice z l off d ↔
      ∀ i, c ≤ i → i < off → i < l.length → l[i]? = some z := by
  constructor
  · intro h i hci hio hil
    have hi := congrArg (·[i]?) h
    simp only [getElem?_splice, length_splice, List.length_replicate,
      List.getElem?_replicate] at hi
    grind
  · intro h
    refine List.ext_getElem? fun i => ?_
    simp only [getElem?_splice, length_splice, List.length_replicate,
      List.getElem?_replicate]
    grind

end XVapor
