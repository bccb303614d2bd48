import XVapor.Bcache
import XVapor.Machine
import Mathlib.Data.Prod.Lex

/-!
# Least Recently Used

The list of `bcache` in the course of time. A run is the sequence of what the calls of `bget` and
`brelse` do with `bcache.lock` held; the sleeplock of a buffer is taken behind that part of `bget`
and given back before that part of `brelse`, so it only holds callers up.

## Main results

* `recycles_oldest`: **the buffers without references are in the order of their last release**,
  and the one that was released first is recycled.
-/

namespace XVapor.Bio

open Function
open scoped Sample

/-- The cache; and, not in the source, a clock and the time of the latest `brelse` of a buffer
that brought its `refcnt` to zero, which is 0 if there was none. -/
structure Aged (T : Type) where
  c : Cache T
  now : ℕ
  last : BufId → ℕ

/-- A call, in the part with `bcache.lock` held. -/
inductive CacheCall (T : Type)
  | bget (t : T) (dev blockno : ℕ)
  | brelse (t : T)

/-- The last use of `b` ended after that of `b'`; of buffers that were never released, `b` has the
higher index. -/
def Newer (last : BufId → ℕ) (b b' : BufId) : Prop :=
  toLex (last b', b') < toLex (last b, b)

variable {T : Type}

/-- **The list is in the order of the releases.** -/
structure LruInv (c : Cache T) (now : ℕ) (last : BufId → ℕ) : Prop where
  past : ∀ b, last b < now
  order : ∃ l, Listed c l ∧ (∀ b, b ∈ l) ∧ l.Pairwise (Newer last)

variable {s : Aged T} {c c' : Cache T} {now : ℕ} {last : BufId → ℕ}

section

variable (h : LruInv c now last)
include h

theorem LruInv.congr (hnext : c'.next = c.next) (hprev : c'.prev = c.prev) :
    LruInv c' now last := by
  obtain ⟨hpast, l, hl, hrest⟩ := h
  refine ⟨hpast, l, ?_, hrest⟩
  rwa [Listed, hnext, hprev]

/-- A buffer is released: it becomes the newest. -/
theorem LruInv.front (b : BufId) :
    LruInv ((c.unlink b).insert b) (now + 1) (update last b now) := by
  obtain ⟨l, hl, hall, hsorted⟩ := h.order
  obtain ⟨l1, l2, rfl⟩ := List.append_of_mem (hall b)
  obtain ⟨hb, hfront⟩ := hl.front
  have hold : ∀ b' ∈ l1 ++ l2, update last b now b' = last b' := fun b' hb' =>
    update_of_ne (ne_of_mem_of_not_mem hb' hb) _ _
  refine ⟨fun b' => ?_, b :: (l1 ++ l2), hfront, fun b' => List.perm_middle.mem_iff.1 (hall b'),
    List.pairwise_cons.2 ⟨fun b' hb' => ?_, ?_⟩⟩
  · obtain rfl | hne := eq_or_ne b' b
    · rw [update_self]
      exact Nat.lt_succ_self now
    · rw [update_of_ne hne]
      exact (h.past b').trans (Nat.lt_succ_self now)
  · refine Prod.Lex.left _ _ ?_
    rw [hold b' hb', update_self]
    exact h.past b'
  · refine (hsorted.sublist (by simp)).imp_of_mem fun h1 h2 hnewer => ?_
    rwa [Newer, hold _ h1, hold _ h2]

end

variable [DecidableEq T]

/-- `bget` does not move a buffer. -/
theorem bget_list {t : T} {dev n : ℕ} (h : bget c t dev n = .ok c') :
    c'.next = c.next ∧ c'.prev = c.prev := by
  rw [bget] at h
  split at h
  · cases h
    exact ⟨rfl, rfl⟩
  split at h
  · cases h
    exact ⟨rfl, rfl⟩
  · cases h

/-- `brelse` by a thread that has selected the buffer. -/
def Aged.brelse (s : Aged T) (t : T) (b : BufId) : Aged T :=
  let c := s.c.drop t b
  if s.c.refcnt b - 1 = 0 then ⟨c, s.now + 1, update s.last b s.now⟩ else { s with c }

/-- The cache under calls. A thread gives back the buffer it got; a panic stops it. -/
def agedCache : Machine (Aged T) (CacheCall T) where
  init s := s = ⟨binit, 1, fun _ => 0⟩
  step s
    | .bget t dev n =>
      if s.c.sel t ≠ none then none
      else match bget s.c t dev n with
        | .ok c => some { s with c }
        | .error _ => none
    | .brelse t => (s.c.sel t).map (s.brelse t)

theorem lruInv_of_reach (h : agedCache.Reach Machine.anyStep s) : LruInv s.c s.now s.last := by
  refine h.invariant (I := fun s => LruInv s.c s.now s.last) ?_ ?_
  · rintro s rfl
    refine ⟨fun b => Nat.one_pos, _, listed_binit, by simp, ?_⟩
    refine List.pairwise_reverse.2 ((List.pairwise_lt_finRange NBUF).imp fun h => ?_)
    exact Prod.Lex.right _ h
  · intro s a s' hs _ hstep
    cases a with
    | bget t dev n =>
      simp only [agedCache] at hstep
      split at hstep
      · cases hstep
      split at hstep
      next c hc =>
        cases hstep
        exact hs.congr (bget_list hc).1 (bget_list hc).2
      next => cases hstep
    | brelse t =>
      obtain ⟨b, -, rfl⟩ := Option.map_eq_some_iff.1 hstep
      have hdrop : LruInv { s.c with
          refcnt := update s.c.refcnt b (s.c.refcnt b - 1)
          sel := update s.c.sel t none } s.now s.last := hs.congr rfl rfl
      simp only [Aged.brelse, Cache.drop, update_self]
      split
      · exact hdrop.front b
      · exact hdrop

/-- **The buffers without references are in the order of their last release**, the newest first;
so a `bget` that does not find its block recycles the one that was released first, and it does so
whenever there is one. -/
theorem recycles_oldest (h : agedCache.Reach Machine.anyStep s) :
    (∃ l, Listed s.c l ∧ (∀ b, b ∈ l) ∧ (l.filter (s.c.refcnt · = 0)).Pairwise (Newer s.last)) ∧
      ∀ t dev n, (∀ b, ¬ (s.c.dev b = dev ∧ s.c.blockno b = n)) →
        (∀ c, bget s.c t dev n = .ok c → ∃ b, c = s.c.recycle t b dev n ∧ s.c.refcnt b = 0 ∧
          ∀ b', s.c.refcnt b' = 0 → b' ≠ b → Newer s.last b' b) ∧
        ((∃ b, s.c.refcnt b = 0) → ∃ c, bget s.c t dev n = .ok c) := by
  obtain ⟨-, l, hl, hall, hsorted⟩ := lruInv_of_reach h
  refine ⟨⟨l, hl, hall, hsorted.filter _⟩, fun t dev n hmiss => ?_⟩
  have hnone : l.find? (s.c.isBlock dev n ∘ some) = none :=
    List.find?_eq_none.2 fun b _ => by simpa [Cache.isBlock] using hmiss b
  rw [hl.bget_eq, hnone]
  dsimp only
  cases hfind : l.reverse.find? (s.c.isUnused ∘ some) with
  | none =>
    refine ⟨fun c hb => (by cases hb), ?_⟩
    rintro ⟨b, hb⟩
    have hused := List.find?_eq_none.1 hfind b (List.mem_reverse.2 (hall b))
    exact absurd hb (by simpa [Cache.isUnused] using hused)
  | some b =>
    refine ⟨fun c hb => ?_, fun _ => ⟨_, rfl⟩⟩
    cases hb
    obtain ⟨hunused, l1, l2, heq, hl1⟩ := List.find?_eq_some_iff_append.1 hfind
    refine ⟨b, rfl, by simpa [Cache.isUnused] using hunused, fun b' hb' hne => ?_⟩
    have hmem : b' ∈ l1 ++ b :: l2 := heq ▸ List.mem_reverse.2 (hall b')
    have hnot : b' ∉ l1 := fun h1 => by simpa [Cache.isUnused, hb'] using hl1 b' h1
    rw [← List.reverse_reverse l, heq, List.pairwise_reverse, List.pairwise_append,
      List.pairwise_cons] at hsorted
    exact hsorted.2.1.1 b' (by simpa [hnot, hne] using hmem)

/-- Every buffer has been released, the buffer of block 1 twice; that of block 2 is recycled. -/
theorem recycles_oldest_released : ∃ (s : Aged (Fin 2)) (c : Cache (Fin 2)) (b : BufId),
    agedCache.Reach Machine.anyStep s ∧ bget s.c 1 1 0 = .ok c ∧ s.c.blockno b = 2 ∧
      s.last b ≠ 0 ∧ c = s.c.recycle 1 b 1 0 ∧ ∀ b', s.c.refcnt b' = 0 → b' ≠ b →
        Newer s.last b' b := by
  obtain ⟨s, hs, hmiss, hunused, hsel⟩ : ∃ s ∈ agedCache.exec (⟨binit, 1, fun _ => 0⟩ : Aged (Fin 2))
      ((List.range' 1 NBUF ++ [1]).flatMap fun n => [.bget 0 1 n, .brelse 0]),
      (∀ b, ¬ (s.c.dev b = 1 ∧ s.c.blockno b = 0)) ∧ (∃ b, s.c.refcnt b = 0) ∧
        ∃ b ∈ (bget s.c 1 1 0).toOption.bind (·.sel 1), s.c.blockno b = 2 ∧ s.last b ≠ 0 := by
    decide +kernel
  have h := Machine.reach_of_exec rfl hs
  obtain ⟨hrec, hok⟩ := (recycles_oldest h).2 1 1 0 hmiss
  obtain ⟨c, hc⟩ := hok hunused
  obtain ⟨b, hb, -, hnewer⟩ := hrec c hc
  obtain ⟨b0, hb0, hold⟩ := hsel
  rw [hc, hb] at hb0
  obtain rfl : b = b0 := by simpa [Except.toOption, Cache.recycle] using hb0
  exact ⟨s, c, b, h, hc, hold.1, hold.2, hb, hnewer⟩

end XVapor.Bio
