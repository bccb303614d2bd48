import XVapor.Virtio
import Mathlib.Data.Finset.Card

/-!
# Allocating and Freeing Descriptors

What the functions on descriptors do, as two operations on the pool: `reserve` marks
descriptors as used, and `release` clears them and marks them as free.
-/

namespace XVapor.Virtio

variable {B : Type} {d : Disk B} {i n : ℕ} {l idx : List ℕ} {c : Chain} {b : B} {w : Bool}

/-! ### The pool -/

/-- Mark descriptors as used. -/
def Disk.reserve (d : Disk B) (l : List ℕ) : Disk B :=
  { d with free := fun i => if i ∈ l then false else d.free i }

/-- Clear descriptors, and mark them as free. -/
def Disk.release (d : Disk B) (l : List ℕ) : Disk B :=
  { d with
    desc := fun i => if i ∈ l then .zero else d.desc i
    free := fun i => if i ∈ l then true else d.free i }

@[simp]
theorem reserve_nil : d.reserve [] = d := by simp [Disk.reserve]

@[simp]
theorem release_nil : d.release [] = d := by simp [Disk.release]

theorem reserve_reserve (l l' : List ℕ) : (d.reserve l).reserve l' = d.reserve (l ++ l') := by
  simp only [Disk.reserve, List.mem_append, Disk.mk.injEq, true_and, and_true]
  funext i
  by_cases h : i ∈ l <;> by_cases h' : i ∈ l' <;> simp [h, h']

theorem release_release (l l' : List ℕ) : (d.release l).release l' = d.release (l ++ l') := by
  simp only [Disk.release, List.mem_append, Disk.mk.injEq, true_and, and_true]
  constructor
  all_goals
    funext i
    by_cases h : i ∈ l <;> by_cases h' : i ∈ l' <;> simp [h, h']

/-! ### `free_desc` and `free_chain` -/

theorem freeDesc_eq (hi : i < NUM) (hfree : d.free i = false) :
    freeDesc d i = .ok (d.release [i]) := by
  have hupdate : ∀ {α : Type} (f : ℕ → α) (a : α),
      Function.update f i a = fun j => if j ∈ [i] then a else f j := by
    intro α f a
    funext j
    simp [Function.update_apply]
  rw [freeDesc, if_neg (not_le.2 hi), hfree]
  simp [Disk.release, hupdate]

theorem freeDescs_eq (hnodup : l.Nodup) (hl : ∀ i ∈ l, i < NUM ∧ d.free i = false) :
    l.foldlM freeDesc d = .ok (d.release l) := by
  induction l generalizing d with
  | nil => simp [pure, Except.pure]
  | cons i l ih =>
    obtain ⟨hi, hnodup⟩ := List.nodup_cons.1 hnodup
    obtain ⟨hlt, hfree⟩ := hl i List.mem_cons_self
    rw [List.foldlM_cons, freeDesc_eq hlt hfree]
    change l.foldlM freeDesc (d.release [i]) = _
    rw [ih hnodup, release_release, List.singleton_append]
    intro j hj
    have hne : j ≠ i := fun h => hi (h ▸ hj)
    have hold := hl j (List.mem_cons_of_mem _ hj)
    exact ⟨hold.1, by simpa [Disk.release, hne] using hold.2⟩

/-- **A formatted chain**: the three descriptors are linked, and the driver can find the
buffer and, for a write, the chain from its head. -/
structure Linked (d : Disk B) (c : Chain) (b : B) (w : Bool) : Prop where
  desc0 : d.desc c.i0 = ⟨.op c.i0, 16, VRING_DESC_F_NEXT, c.i1⟩
  desc1 : d.desc c.i1 =
    ⟨.data b, BSIZE, (if w then 0 else VRING_DESC_F_WRITE) ||| VRING_DESC_F_NEXT, c.i2⟩
  desc2 : d.desc c.i2 = ⟨.status c.i0, 1, VRING_DESC_F_WRITE, 0⟩
  buf : (d.info c.i0).b = some b
  idx1 : (d.info c.i0).idx1 = if w then (c.i0 : ℤ) else -1
  type : (d.ops c.i0).type = if w then .tOut else .tIn

theorem Linked.congr {d' : Disk B} (h : Linked d c b w)
    (hdesc : ∀ i ∈ c.ids, d'.desc i = d.desc i)
    (hinfo : (d'.info c.i0).b = (d.info c.i0).b ∧ (d'.info c.i0).idx1 = (d.info c.i0).idx1)
    (hops : d'.ops c.i0 = d.ops c.i0) : Linked d' c b w where
  desc0 := (hdesc c.i0 (by simp [Chain.ids])).trans h.desc0
  desc1 := (hdesc c.i1 (by simp [Chain.ids])).trans h.desc1
  desc2 := (hdesc c.i2 (by simp [Chain.ids])).trans h.desc2
  buf := hinfo.1.trans h.buf
  idx1 := hinfo.2.trans h.idx1
  type := hops ▸ h.type

theorem freeChainLoop_succ {fuel : ℕ} (hi : i < NUM) (hfree : d.free i = false) :
    freeChainLoop (fuel + 1) d i =
      if (d.desc i).flags &&& VRING_DESC_F_NEXT ≠ 0 then
        freeChainLoop fuel (d.release [i]) (d.desc i).next
      else .ok (d.release [i]) := by
  rw [freeChainLoop, freeDesc_eq hi hfree]
  rfl

/-- **`free_chain` releases the chain.** -/
theorem freeChain_eq (h : Linked d c b w) (hnodup : c.ids.Nodup)
    (hc : ∀ i ∈ c.ids, i < NUM ∧ d.free i = false) :
    freeChain d c.i0 = .ok (d.release c.ids) := by
  obtain ⟨hlt0, hfree0⟩ := hc c.i0 (by simp [Chain.ids])
  obtain ⟨hlt1, hfree1⟩ := hc c.i1 (by simp [Chain.ids])
  obtain ⟨hlt2, hfree2⟩ := hc c.i2 (by simp [Chain.ids])
  simp only [Chain.ids, List.nodup_cons, List.mem_cons, List.not_mem_nil, or_false,
    not_or] at hnodup
  obtain ⟨⟨h01, h02⟩, h12, -⟩ := hnodup
  -- the first two descriptors have a next one, the third has none
  have hnext0 : (d.desc c.i0).flags &&& VRING_DESC_F_NEXT ≠ 0 := by
    rw [h.desc0]
    exact (by decide : VRING_DESC_F_NEXT &&& VRING_DESC_F_NEXT ≠ 0)
  have hnext1 : (d.desc c.i1).flags &&& VRING_DESC_F_NEXT ≠ 0 := by
    rw [h.desc1]
    exact (by decide : ∀ w : Bool,
      ((if w then 0 else VRING_DESC_F_WRITE) ||| VRING_DESC_F_NEXT) &&& VRING_DESC_F_NEXT ≠ 0) w
  have hnext2 : ¬ (d.desc c.i2).flags &&& VRING_DESC_F_NEXT ≠ 0 := by
    rw [h.desc2]
    exact (by decide : ¬ VRING_DESC_F_WRITE &&& VRING_DESC_F_NEXT ≠ 0)
  have hdesc1 : (d.release [c.i0]).desc c.i1 = d.desc c.i1 := by
    simp [Disk.release, Ne.symm h01]
  have hdesc2 : (d.release ([c.i0] ++ [c.i1])).desc c.i2 = d.desc c.i2 := by
    simp [Disk.release, Ne.symm h02, Ne.symm h12]
  have hfree1' : (d.release [c.i0]).free c.i1 = false := by
    simpa [Disk.release, Ne.symm h01] using hfree1
  have hfree2' : (d.release ([c.i0] ++ [c.i1])).free c.i2 = false := by
    simpa [Disk.release, Ne.symm h02, Ne.symm h12] using hfree2
  rw [freeChain, freeChainLoop_succ hlt0 hfree0, if_pos hnext0, h.desc0, NUM,
    freeChainLoop_succ hlt1 hfree1', hdesc1, if_pos hnext1, h.desc1, release_release,
    freeChainLoop_succ hlt2 hfree2', hdesc2, if_neg hnext2, release_release]
  rfl

/-! ### `alloc_desc` and `alloc_descs` -/

/-- The number of free descriptors. -/
def Disk.nfree (d : Disk B) : ℕ := ((Finset.range NUM).filter (d.free · = true)).card

theorem allocDesc_cases (d : Disk B) :
    (allocDesc d = none ∧ d.nfree = 0) ∨
      ∃ i, allocDesc d = some (i, d.reserve [i]) ∧ i < NUM ∧ d.free i = true := by
  rw [allocDesc]
  rcases hfind : (List.range NUM).find? d.free with _ | i
  · refine .inl ⟨rfl, Finset.card_eq_zero.2 (Finset.filter_eq_empty_iff.2 fun i hi => ?_)⟩
    exact List.find?_eq_none.1 hfind i (List.mem_range.2 (Finset.mem_range.1 hi))
  refine .inr ⟨i, ?_, List.mem_range.1 (List.mem_of_find?_eq_some hfind),
    List.find?_some hfind⟩
  simp only [Option.map_some, Option.some.injEq, Prod.mk.injEq, true_and]
  simp only [Disk.reserve, List.mem_singleton, Disk.mk.injEq, true_and, and_true]
  funext j
  rw [Function.update_apply]

theorem nfree_reserve (hi : i < NUM) (hfree : d.free i = true) :
    (d.reserve [i]).nfree + 1 = d.nfree := by
  have herase : (Finset.range NUM).filter ((d.reserve [i]).free · = true) =
      ((Finset.range NUM).filter (d.free · = true)).erase i := by
    ext j
    by_cases h : j = i <;> simp [Disk.reserve, h]
  rw [Disk.nfree, herase]
  exact Finset.card_erase_add_one (by simp [hi, hfree])

/-- The loop of `alloc_descs`, after the descriptors `idx` were reserved. By induction on what
is left of it. -/
theorem allocDescsLoop_cases (hnodup : idx.Nodup) (hidx : ∀ i ∈ idx, i < NUM ∧ d.free i = true) :
    (∃ l, allocDescsLoop n idx (d.reserve idx) = .ok (some (idx ++ l), d.reserve (idx ++ l)) ∧
        l.length = n ∧ (idx ++ l).Nodup ∧ (∀ i ∈ l, i < NUM ∧ d.free i = true) ∧
        n ≤ (d.reserve idx).nfree) ∨
      ∃ l, allocDescsLoop n idx (d.reserve idx) =
          .ok (none, (d.reserve (idx ++ l)).release (idx ++ l)) ∧
        (∀ i ∈ l, i < NUM ∧ d.free i = true) ∧ (d.reserve idx).nfree < n := by
  induction n generalizing idx with
  | zero => exact .inl ⟨[], by simp [allocDescsLoop], rfl, by simpa using hnodup, by simp, by simp⟩
  | succ n ih =>
    rw [allocDescsLoop]
    obtain ⟨hnone, hzero⟩ | ⟨i, hsome, hi, hfree⟩ := allocDesc_cases (d.reserve idx)
    · -- none is left: the ones reserved are given back
      refine .inr ⟨[], ?_, by simp, by omega⟩
      rw [hnone]
      have hback : idx.foldlM freeDesc (d.reserve idx) =
          .ok ((d.reserve idx).release idx) := by
        refine freeDescs_eq hnodup fun i hi => ⟨(hidx i hi).1, ?_⟩
        simp [Disk.reserve, hi]
      simp only [hback, List.append_nil]
      rfl
    · have hmem : i ∉ idx := by
        intro h
        simp [Disk.reserve, h] at hfree
      have hfree' : d.free i = true := by simpa [Disk.reserve, hmem] using hfree
      have hcount := nfree_reserve hi hfree
      rw [reserve_reserve] at hcount hsome
      have hnodup' : (idx ++ [i]).Nodup := by
        rw [List.nodup_append_comm]
        exact List.nodup_cons.2 ⟨hmem, hnodup⟩
      have hidx' : ∀ j ∈ idx ++ [i], j < NUM ∧ d.free j = true := by
        intro j hj
        obtain hj | hj := List.mem_append.1 hj
        · exact hidx j hj
        · rw [List.mem_singleton.1 hj]
          exact ⟨hi, hfree'⟩
      have hnext := ih hnodup' hidx'
      simp only [hsome]
      obtain ⟨l, hloop, hlen, hnodup', hl, hle⟩ | ⟨l, hloop, hl, hlt⟩ := hnext
      · refine .inl ⟨i :: l, ?_, by simp [hlen], by simpa using hnodup', ?_, by omega⟩
        · rw [hloop]
          simp
        · exact List.forall_mem_cons.2 ⟨⟨hi, hfree'⟩, hl⟩
      · refine .inr ⟨i :: l, ?_, List.forall_mem_cons.2 ⟨⟨hi, hfree'⟩, hl⟩, by omega⟩
        rw [hloop]
        simp

/-- **`alloc_descs` reserves free descriptors**, or finds too few and gives back what it
took. -/
theorem allocDescs_cases (d : Disk B) (n : ℕ) :
    (∃ l, allocDescs d n = .ok (some l, d.reserve l) ∧ l.length = n ∧ l.Nodup ∧
        (∀ i ∈ l, i < NUM ∧ d.free i = true) ∧ n ≤ d.nfree) ∨
      ∃ l, allocDescs d n = .ok (none, (d.reserve l).release l) ∧
        (∀ i ∈ l, i < NUM ∧ d.free i = true) ∧ d.nfree < n := by
  have h := allocDescsLoop_cases (d := d) (n := n) List.nodup_nil (by simp)
  simpa [allocDescs] using h

end XVapor.Virtio
