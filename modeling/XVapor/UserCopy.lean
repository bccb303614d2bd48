import XVapor.PageTableSpec
import Mathlib.Data.List.GetD

/-!
# Writes to User Memory

`copyout` and the other writes of the kernel and the user to the pages of a page table. They
change bytes of the pages that the table maps and nothing else: neither the table nor the
allocator.
-/

namespace XVapor.Vm

variable {S S' S'' : Space} {v : ℕ}

namespace Space

/-- Bytes of the pages of the table are written, and nothing else happens. -/
structure Writes (S S' : Space) : Prop where
  tbl : S'.tbl = S.tbl
  mem : S'.mem = { S.mem with data := S'.mem.data }
  data : ∀ n, (∀ v e, S.tbl.pte v = some e → e.frame ≠ .page n) →
    S'.mem.data n = S.mem.data n

theorem Writes.refl (S : Space) : S.Writes S := ⟨rfl, rfl, fun _ _ => rfl⟩

section

variable (h : S.Writes S')
include h

theorem Writes.trans (h' : S'.Writes S'') : S.Writes S'' := by
  refine ⟨h'.tbl.trans h.tbl, h'.mem.trans (by rw [h.mem]), fun n hn => ?_⟩
  rw [h'.data n fun v e hv => hn v e (h.tbl ▸ hv), h.data n hn]

theorem Writes.le : S.mem.Le S'.mem := by
  rw [h.mem]
  exact ⟨rfl, Nat.le_refl _, List.suffix_refl _, id⟩

theorem Writes.live (n : ℕ) : S'.mem.live n = S.mem.live n := by
  rw [h.mem, Mem.live, Mem.live]

theorem Writes.excess (n : ℕ) : S'.excess n = S.excess n := by
  rw [Space.excess, Space.excess, h.live, h.tbl]

end

theorem Writes.write {e : Pte} (he : S.tbl.pte v = some e) (off : ℕ) (d : List UInt8) :
    S.Writes ⟨S.mem.write e.frame off d, S.tbl⟩ := by
  cases hf : e.frame with
  | kernel => exact .refl S
  | null => exact .refl S
  | page n =>
    refine ⟨rfl, rfl, fun i hi => Function.update_of_ne ?_ _ _⟩
    rintro rfl
    exact hi v e he hf

end Space

open Space

/-! ### `walkaddr` -/

/-- `walkaddr` finds an entry for the user. -/
theorem walkaddr_some {f : Frame} (h : walkaddr S v = some f) :
    ∃ e, S.tbl.pte v = some e ∧ e.u = true ∧ e.frame = f := by
  rw [walkaddr] at h
  obtain ⟨hv, h⟩ := Option.ite_none_left_eq_some.1 h
  rw [walk_false (not_le.1 hv)] at h
  rcases hw : decide (S.tbl.Walks v) with _ | _
  · simp [hw] at h
  rcases he : S.tbl.pte v with _ | e
  · simp [hw, he] at h
  simp only [hw, he, Option.ite_none_right_eq_some, Option.some.injEq] at h
  exact ⟨e, rfl, h.1, h.2⟩

theorem walkaddr_ne_none (hwf : S.tbl.Wf) :
    walkaddr S v ≠ none ↔ ∃ e, S.tbl.pte v = some e ∧ e.u = true := by
  constructor
  · intro h
    obtain ⟨f, hf⟩ := Option.ne_none_iff_exists'.1 h
    obtain ⟨e, he, hu, -⟩ := walkaddr_some hf
    exact ⟨e, he, hu⟩
  · rintro ⟨e, he, hu⟩
    obtain ⟨hv, hwalks⟩ := hwf v e he
    rw [walkaddr, if_neg (not_le.2 hv), walk_false hv]
    simp [hwalks, he, hu]

/-! ### `copyout` -/

/-- A copy changes bytes of user memory only. -/
theorem copyoutLoop_writes (rounds dst : ℕ) (S : Space) (d : List UInt8) :
    S.Writes (copyoutLoop rounds S dst d).2 := by
  induction rounds generalizing S dst d with
  | zero => exact .refl S
  | succ rounds ih =>
    rw [copyoutLoop]
    split
    · exact .refl S
    split
    · exact .refl S
    rename_i f hf
    obtain ⟨e, he, -, rfl⟩ := walkaddr_some hf
    exact (Writes.write he _ _).trans (ih _ _ _)

theorem copyout_writes (S : Space) (dst : ℕ) (d : List UInt8) : S.Writes (copyout S dst d).2 :=
  copyoutLoop_writes _ _ _ _

variable {dst n rounds off : ℕ}

theorem vpn_round {i : ℕ} (h : i < min (PGSIZE - dst % PGSIZE) n) :
    vpn (dst + i) = vpn dst := by
  simp only [vpn, PGSIZE] at h ⊢
  omega

/-- The next round begins at the next page. -/
theorem next_round (h : min (PGSIZE - dst % PGSIZE) n < n) :
    (vpn dst + 1) * PGSIZE = dst + min (PGSIZE - dst % PGSIZE) n := by
  simp only [vpn, PGSIZE] at h ⊢
  omega

theorem round_pos (dst : ℕ) (h : 0 < n) : 0 < min (PGSIZE - dst % PGSIZE) n := by
  simp only [PGSIZE]
  omega

variable {d : List UInt8}

/-- A copy succeeds if and only if all its pages are for the user. -/
theorem copyoutLoop_fst (hwf : S.tbl.Wf) (hd : d.length ≤ rounds) :
    (copyoutLoop rounds S dst d).1 = true ↔
      ∀ i < d.length, ∃ e, S.tbl.pte (vpn (dst + i)) = some e ∧ e.u = true := by
  induction rounds generalizing S dst d with
  | zero =>
    obtain rfl : d = [] := List.eq_nil_of_length_eq_zero (by omega)
    simp [copyoutLoop]
  | succ rounds ih =>
    rw [copyoutLoop]
    split
    · rename_i hnil
      simp [hnil]
    rename_i hnil
    have hlen : 0 < d.length := List.length_pos_iff.2 hnil
    have hround := round_pos dst hlen
    rcases hf : walkaddr S (vpn dst) with _ | f
    · simp only [Bool.false_eq_true, false_iff]
      intro hall
      exact (walkaddr_ne_none hwf).2 (hall 0 hlen) hf
    rw [ih (by exact hwf) (by rw [List.length_drop]; omega), List.length_drop]
    have hhere := (walkaddr_ne_none hwf).1 (show walkaddr S (vpn dst) ≠ none by simp [hf])
    constructor
    · intro hrest i hi
      by_cases hir : i < min (PGSIZE - dst % PGSIZE) d.length
      · rw [vpn_round hir]
        exact hhere
      · have hi' := hrest (i - min (PGSIZE - dst % PGSIZE) d.length) (by omega)
        rwa [next_round (n := d.length) (by omega), Nat.add_assoc,
          Nat.add_sub_cancel' (by omega)] at hi'
    · intro hall i hi
      rw [next_round (n := d.length) (by omega), Nat.add_assoc]
      exact hall _ (by omega)

/-- **`copyout` succeeds** if and only if all its bytes go to pages of the user. -/
theorem copyout_fst (hwf : S.tbl.Wf) (dst : ℕ) (d : List UInt8) :
    (copyout S dst d).1 = true ↔
      ∀ i < d.length, ∃ e, S.tbl.pte (vpn (dst + i)) = some e ∧ e.u = true :=
  copyoutLoop_fst hwf (Nat.le_refl _)

/-- A page is mapped at one place of the table. -/
def Table.Simple (T : Table) : Prop :=
  ∀ v v' e e' n, T.pte v = some e → T.pte v' = some e' → e.frame = .page n →
    e'.frame = .page n → v = v'

/-- What a page holds after a copy. -/
theorem copyoutLoop_bytes (hs : S.tbl.Simple)
    (hd : d.length ≤ rounds) (hok : (copyoutLoop rounds S dst d).1 = true) {e : Pte}
    (he : S.tbl.pte v = some e) (hn : e.frame = .page n) (hoff : off < PGSIZE) :
    (copyoutLoop rounds S dst d).2.mem.data n off =
      if dst ≤ v * PGSIZE + off ∧ v * PGSIZE + off < dst + d.length then
        d.getD (v * PGSIZE + off - dst) 0
      else S.mem.data n off := by
  induction rounds generalizing S dst d with
  | zero =>
    obtain rfl : d = [] := List.eq_nil_of_length_eq_zero (by omega)
    rw [copyoutLoop, if_neg (by simp only [List.length_nil]; omega)]
  | succ rounds ih =>
    rw [copyoutLoop] at hok ⊢
    split
    · rename_i hnil
      rw [if_neg (by simp only [hnil, List.length_nil]; omega)]
    rename_i hnil
    rw [if_neg hnil] at hok
    have hlen : 0 < d.length := List.length_pos_iff.2 hnil
    have hround := round_pos dst hlen
    rcases hf : walkaddr S (vpn dst) with _ | f
    · simp [hf] at hok
    simp only [hf] at hok ⊢
    rw [ih (by exact hs) (by rw [List.length_drop]; omega) hok he, List.length_drop]
    obtain ⟨e', he', -, rfl⟩ := walkaddr_some hf
    -- the bytes that this round has written
    have hwrite : (S.mem.write e'.frame (dst % PGSIZE)
        (d.take (min (PGSIZE - dst % PGSIZE) d.length))).data n off =
        if v = vpn dst ∧ dst ≤ v * PGSIZE + off ∧ v * PGSIZE + off < dst + d.length then
          d.getD (v * PGSIZE + off - dst) 0
        else S.mem.data n off := by
      by_cases hv : v = vpn dst
      · obtain rfl : e' = e := Option.some.inj (he'.symm.trans (hv ▸ he))
        have hoffs : v * PGSIZE + off - dst = off - dst % PGSIZE := by
          simp only [hv, vpn, PGSIZE] at hoff ⊢
          omega
        have hdst : dst ≤ v * PGSIZE + off ↔ dst % PGSIZE ≤ off := by
          simp only [hv, vpn, PGSIZE] at hoff ⊢
          omega
        rw [hn, Mem.write, Mem.fill]
        simp only [Function.update_self]
        by_cases hle : dst % PGSIZE ≤ off
        · rw [if_pos hle]
          by_cases hlt : off - dst % PGSIZE < d.length
          · have htake : off - dst % PGSIZE < min (PGSIZE - dst % PGSIZE) d.length := by
              omega
            rw [if_pos ⟨hv, hdst.2 hle, by omega⟩, hoffs,
              List.getD_eq_getElem _ _ (by simpa using htake), List.getElem_take,
              List.getD_eq_getElem _ _ hlt]
          · rw [if_neg (by omega), List.getD_eq_default _ _ (by simp; omega)]
        · rw [if_neg hle, if_neg (by rw [hdst]; omega)]
      · rw [if_neg (by simp [hv])]
        cases hf' : e'.frame with
        | kernel => rfl
        | null => rfl
        | page k =>
          have hne : n ≠ k := by
            rintro rfl
            exact hv (hs v (vpn dst) e e' n he he' hn hf')
          rw [Mem.write, Mem.fill]
          simp only [Function.update_of_ne hne]
    rw [hwrite]
    by_cases hv : v = vpn dst
    · rw [if_neg (by rw [hv, Nat.add_mul]; omega)]
      simp only [hv, true_and]
    rw [if_neg (show ¬ (v = vpn dst ∧ _) by simp [hv])]
    by_cases hmore : min (PGSIZE - dst % PGSIZE) d.length < d.length
    · rw [next_round hmore]
      have hlow : dst ≤ v * PGSIZE + off ↔
          dst + min (PGSIZE - dst % PGSIZE) d.length ≤ v * PGSIZE + off := by
        simp only [vpn, PGSIZE] at hv hmore hoff ⊢
        omega
      rw [List.getD_eq_getElem?_getD, List.getElem?_drop, ← List.getD_eq_getElem?_getD]
      by_cases hin : dst + min (PGSIZE - dst % PGSIZE) d.length ≤ v * PGSIZE + off ∧
          v * PGSIZE + off < dst + d.length
      · rw [if_pos (by omega), if_pos ⟨hlow.2 hin.1, hin.2⟩]
        congr 1
        omega
      · rw [if_neg (by omega), if_neg (by rw [hlow]; exact hin)]
    · rw [if_neg (by omega), if_neg (by
        simp only [vpn, PGSIZE] at hv hmore hoff ⊢
        omega)]

end XVapor.Vm
