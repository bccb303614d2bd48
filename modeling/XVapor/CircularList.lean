import Mathlib.Data.List.Nodup

/-!
# Circular Doubly Linked Lists

A doubly linked list is two functions on nodes, `next` and `prev`. `Segment` says that they
lead along a list of nodes from one node to another, and back; `Circular` that they lead from
a head node through the nodes of the list, each once, back to the head.

The operations are those of C code on such lists: a node is unlinked through its two
neighbours, and inserted behind the head. A walk is a loop that follows one of the pointers
until it is back at the head.

## Main results

* `Circular.unlink`, `Circular.insert`, `Circular.insertTail`: what the operations do to the
  list.
* `Circular.walk_next`, `Circular.walk_prev`: a walk finds the first node of the list, or of
  the list in reverse, that has the property looked for.
-/

namespace XVapor

open Function

variable {N : Type*} {next prev next' prev' : N → N} {a b c h x : N} {l l1 l2 : List N}

/-- The pointers lead from `a` along `l` to `b`, and back. -/
def Segment (next prev : N → N) : N → List N → N → Prop
  | a, [], b => next a = b ∧ prev b = a
  | a, x :: l, b => next a = x ∧ prev x = a ∧ Segment next prev x l b

namespace Segment

theorem append_iff : Segment next prev a (l1 ++ x :: l2) b ↔
    Segment next prev a l1 x ∧ Segment next prev x l2 b := by
  induction l1 generalizing a with
  | nil => simp [Segment, and_assoc]
  | cons y l1 ih => simp [Segment, ih, and_assoc]

section

variable (hs : Segment next prev a l b)
include hs

/-- A segment depends on the pointers of its own nodes. -/
theorem congr (hnext : ∀ y ∈ a :: l, next' y = next y)
    (hprev : ∀ y ∈ l ++ [b], prev' y = prev y) : Segment next' prev' a l b := by
  induction l generalizing a with
  | nil => exact ⟨(hnext a (by simp)).trans hs.1, (hprev b (by simp)).trans hs.2⟩
  | cons x l ih =>
    obtain ⟨hx, hxp, hs⟩ := hs
    refine ⟨(hnext a (by simp)).trans hx, (hprev x (by simp)).trans hxp, ih hs ?_ ?_⟩
    · exact fun y hy => hnext y (List.mem_cons_of_mem _ hy)
    · exact fun y hy => hprev y (List.mem_cons_of_mem _ hy)

theorem symm : Segment prev next b l.reverse a := by
  induction l generalizing a with
  | nil => exact ⟨hs.2, hs.1⟩
  | cons x l ih =>
    obtain ⟨hx, hxp, hs⟩ := hs
    rw [List.reverse_cons, append_iff]
    exact ⟨ih hs, hxp, hx⟩

theorem prev_mem : prev b ∈ a :: l := by
  induction l generalizing a with
  | nil => simp [hs.2]
  | cons x l ih => exact List.mem_cons_of_mem _ (ih hs.2.2)

theorem next_mem : next a ∈ l ++ [b] := by
  cases l with
  | nil => simp [hs.1]
  | cons x l => simp [hs.1]

/-- The end of a segment is moved to another node. By induction on the segment: the last of
its nodes, `prev b`, is not one of those before. -/
theorem retarget [DecidableEq N] (hnodup : (a :: l).Nodup)
    (hc : c ∉ l) :
    Segment (update next (prev b) c) (update prev c (prev b)) a l c := by
  induction l generalizing a with
  | nil => simp [Segment, hs.2]
  | cons x l ih =>
    obtain ⟨hx, hxp, hs⟩ := hs
    obtain ⟨ha, hnodup⟩ := List.nodup_cons.1 hnodup
    have hne : a ≠ prev b := fun heq => ha (heq ▸ hs.prev_mem)
    have hxc : x ≠ c := fun heq => hc (heq ▸ List.mem_cons_self)
    refine ⟨?_, ?_, ih hs hnodup fun hmem => hc (List.mem_cons_of_mem _ hmem)⟩
    · rw [update_of_ne hne, hx]
    · rw [update_of_ne hxc, hxp]

end

end Segment

/-- **A circular list**: the pointers lead from the head through `l`, without repetition, and
back to the head. -/
structure Circular (next prev : N → N) (h : N) (l : List N) : Prop where
  nodup : (h :: l).Nodup
  seg : Segment next prev h l h

/-- A walk along a pointer, up to the head. -/
def walk [DecidableEq N] (step : N → N) (h : N) (p : N → Bool) : ℕ → N → Option N
  | 0, _ => none
  | fuel + 1, x =>
    if x = h then none else if p x then some x else walk step h p fuel (step x)

/-- The nodes on the way along a pointer, up to the head. -/
def trail [DecidableEq N] (step : N → N) (h : N) : ℕ → N → List N
  | 0, _ => []
  | fuel + 1, x => if x = h then [] else x :: trail step h fuel (step x)

variable [DecidableEq N]

variable {fuel : ℕ}

theorem Segment.trail_eq (hs : Segment next prev a l h) (hmem : h ∉ l)
    (hfuel : l.length < fuel) : trail next h fuel (next a) = l := by
  induction l generalizing a fuel with
  | nil =>
    obtain ⟨fuel, rfl⟩ := Nat.exists_eq_add_one_of_ne_zero (by omega : fuel ≠ 0)
    simp [trail, hs.1]
  | cons x l ih =>
    obtain ⟨fuel, rfl⟩ := Nat.exists_eq_add_one_of_ne_zero (by omega : fuel ≠ 0)
    obtain ⟨hx, -, hs⟩ := hs
    have hne : x ≠ h := fun heq => hmem (heq ▸ List.mem_cons_self)
    rw [hx, trail, if_neg hne, ih hs (fun hl => hmem (List.mem_cons_of_mem _ hl))
      (by simpa using hfuel)]

/-- A walk finds the first node on its way. -/
theorem walk_eq_find (step : N → N) (h : N) (p : N → Bool) (x : N) :
    walk step h p fuel x = (trail step h fuel x).find? p := by
  induction fuel generalizing x with
  | zero => rfl
  | succ fuel ih =>
    rw [walk, trail, ih]
    split_ifs with hx hp
    · rfl
    · rw [List.find?_cons_of_pos hp]
    · rw [List.find?_cons_of_neg hp]

theorem Segment.walk_eq (hs : Segment next prev a l h) (hmem : h ∉ l) (p : N → Bool)
    (hfuel : l.length < fuel) : walk next h p fuel (next a) = l.find? p := by
  rw [walk_eq_find, hs.trail_eq hmem hfuel]

namespace Circular

variable {fuel : ℕ}

section

variable (hc : Circular next prev h l)
include hc

/-- **A walk along `next`** finds the first node. -/
theorem walk_next (p : N → Bool)
    (hfuel : l.length < fuel) : walk next h p fuel (next h) = l.find? p :=
  hc.seg.walk_eq (List.nodup_cons.1 hc.nodup).1 p hfuel

/-- **A walk along `prev`** finds the last node. -/
theorem walk_prev (p : N → Bool)
    (hfuel : l.length < fuel) : walk prev h p fuel (prev h) = l.reverse.find? p :=
  hc.seg.symm.walk_eq (by simpa using (List.nodup_cons.1 hc.nodup).1) p (by simpa using hfuel)

/-- **A whole round.** -/
theorem trail_eq (hfuel : l.length < fuel) :
    trail next h fuel (next h) = l :=
  hc.seg.trail_eq (List.nodup_cons.1 hc.nodup).1 hfuel

omit [DecidableEq N] in
/-- A circular list depends on the pointers of its own nodes. -/
theorem congr (hnext : ∀ y ∈ h :: l, next' y = next y)
    (hprev : ∀ y ∈ h :: l, prev' y = prev y) : Circular next' prev' h l :=
  ⟨hc.nodup, hc.seg.congr hnext fun y hy => hprev y (by
    rw [List.mem_append, List.mem_singleton] at hy
    exact List.mem_cons.2 hy.symm)⟩

omit [DecidableEq N] in
theorem symm : Circular prev next h l.reverse := by
  refine ⟨?_, hc.seg.symm⟩
  have hnodup := List.nodup_cons.1 hc.nodup
  exact List.nodup_cons.2 ⟨by simpa using hnodup.1, List.nodup_reverse.2 hnodup.2⟩

end

/-- **A node is unlinked** through its neighbours. -/
theorem unlink (hc : Circular next prev h (l1 ++ b :: l2)) :
    Circular (update next (prev b) (next b)) (update prev (next b) (prev b))
      h (l1 ++ l2) := by
  obtain ⟨hseg1, hseg2⟩ := Segment.append_iff.1 hc.seg
  have hsub : (h :: (l1 ++ l2)).Sublist (h :: (l1 ++ b :: l2)) :=
    (List.Sublist.append_left (List.sublist_cons_self b l2) l1).cons_cons h
  refine ⟨hc.nodup.sublist hsub, ?_⟩
  have hnodup1 : (h :: l1).Nodup :=
    hc.nodup.sublist ((List.sublist_append_left l1 (b :: l2)).cons_cons h)
  have hsplit : (h :: l1 ++ b :: l2).Nodup := hc.nodup
  have hdisj := (List.nodup_append.1 hsplit).2.2
  have hnodup2 := (List.nodup_append.1 hsplit).2.1
  obtain _ | ⟨y, l2⟩ := l2
  · have hnext : next b = h := hseg2.1
    have hmem : h ∉ l1 := (List.nodup_cons.1 hnodup1).1
    rw [hnext, List.append_nil]
    exact hseg1.retarget hnodup1 hmem
  obtain ⟨hy, -, hseg2⟩ := hseg2
  have hmem : y ∉ l1 := fun hl =>
    hdisj y (List.mem_cons_of_mem _ hl) y (by simp) rfl
  rw [hy, Segment.append_iff]
  refine ⟨hseg1.retarget hnodup1 hmem, hseg2.congr (fun z hz => ?_) fun z hz => ?_⟩
  · -- the node before `b` is not behind it
    refine update_of_ne (fun heq => ?_) _ _
    exact hdisj _ hseg1.prev_mem z (List.mem_cons_of_mem _ hz) heq.symm
  · refine update_of_ne (fun heq => ?_) _ _
    rw [heq, List.mem_append, List.mem_singleton] at hz
    obtain hz | rfl := hz
    · exact (List.nodup_cons.1 (List.nodup_cons.1 hnodup2).2).1 hz
    · exact hdisj y (by simp) y (by simp) rfl

/-- **A node is inserted** behind the head. -/
theorem insert (hc : Circular next prev h l) (hb : b ∉ h :: l) :
    Circular (update (update next b (next h)) h b)
      (update (update prev b h) (next h) b) h (b :: l) := by
  have hbh : b ≠ h := fun heq => hb (heq ▸ List.mem_cons_self)
  have hbl : b ∉ l := fun hmem => hb (List.mem_cons_of_mem _ hmem)
  obtain ⟨hhl, hnodup⟩ := List.nodup_cons.1 hc.nodup
  have hbnext : b ≠ next h := by
    intro heq
    have hmem := hc.seg.next_mem
    rw [← heq, List.mem_append, List.mem_singleton] at hmem
    exact hmem.elim hbl hbh
  refine ⟨?_, update_self .., ?_, ?_⟩
  · have hnodup' : (b :: h :: l).Nodup := List.nodup_cons.2 ⟨hb, hc.nodup⟩
    exact (List.Perm.swap b h l).symm.nodup_iff.1 hnodup'
  · rw [update_of_ne hbnext, update_self]
  · have hseg := hc.seg
    obtain _ | ⟨x, l⟩ := l
    · obtain ⟨hnext, -⟩ := hseg
      refine ⟨?_, ?_⟩
      · rw [update_of_ne hbh, update_self, hnext]
      · rw [hnext, update_self]
    obtain ⟨hx, -, hseg⟩ := hseg
    refine ⟨?_, ?_, hseg.congr (fun y hy => ?_) fun y hy => ?_⟩
    · rw [update_of_ne hbh, update_self, hx]
    · rw [hx, update_self]
    · have hyh : y ≠ h := fun heq => hhl (heq ▸ hy)
      have hyb : y ≠ b := fun heq => hbl (heq ▸ hy)
      rw [update_of_ne hyh, update_of_ne hyb]
    · have hyx : y ≠ x := by
        rintro rfl
        rw [List.mem_append, List.mem_singleton] at hy
        exact hy.elim (List.nodup_cons.1 hnodup).1 fun heq => hhl (heq ▸ List.mem_cons_self)
      have hyb : y ≠ b := by
        rintro rfl
        rw [List.mem_append, List.mem_singleton] at hy
        exact hy.elim (fun hl => hbl (List.mem_cons_of_mem _ hl)) hbh
      rw [hx, update_of_ne hyx, update_of_ne hyb]

/-- **A node is inserted** before the head, that is, at the end. -/
theorem insertTail (hc : Circular next prev h l) (hb : b ∉ h :: l) :
    Circular (update (update next b h) (prev h) b)
      (update (update prev b (prev h)) h b) h (l ++ [b]) := by
  have hb' : b ∉ h :: l.reverse := by simpa using hb
  simpa using (hc.symm.insert hb').symm

end Circular

end XVapor
