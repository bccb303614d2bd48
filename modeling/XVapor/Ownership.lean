import Mathlib.Data.List.Nodup

/-!
# Locks and Queued Items

Two bookkeeping disciplines of shared-memory code, over arbitrary types.

`Held held lock` says that the lock word of every lock an agent believes to hold names
that agent. It is preserved by taking a free lock and by dropping one's own, and it gives
mutual exclusion.

`Placed queue hand home` says that every item is in exactly one place: an item with
`home t = some q` is either linked once on the queue `q`, or in the hand of exactly one
agent that popped it from `q` and has not finished with it, and an item without a home is
nowhere. It is preserved by the ways items move: `push`, `pop`, `finish`, `remove`,
`rehome`.

## Main results

* `Placed.push`, `Placed.pop`, `Placed.finish`, `Placed.remove`, `Placed.rehome`: the
  moves.
* `Placed.mem_iff`: an item is linked on a queue exactly if that is its home and nobody
  has it in hand.
-/

namespace XVapor

open Function

/-! ### Locks -/

section

variable {A L : Type*}

/-- Every lock an agent holds is marked with that agent. An agent holds at most one. -/
def Held (held : A → Option L) (lock : L → Option A) : Prop :=
  ∀ a l, held a = some l → lock l = some a

variable {held : A → Option L} {lock : L → Option A} {a b : A} {l : L}

section

variable (h : Held held lock)
include h

/-- **Mutual exclusion.** -/
theorem Held.excl (ha : held a = some l) (hb : held b = some l) :
    a = b := by
  have := (h a l ha).symm.trans (h b l hb)
  exact Option.some.inj this

theorem Held.ne_of_free (hl : lock l = none) (a : A) :
    held a ≠ some l := by
  intro ha
  rw [h a l ha] at hl
  cases hl

variable [DecidableEq A]

theorem Held.keep {x : Option L} (hx : x = held a) :
    Held (update held a x) lock := by
  rwa [hx, update_eq_self]

theorem Held.forget : Held (update held a none) lock := by
  intro b m hb
  have hba : b ≠ a := by
    rintro rfl
    simp at hb
  rw [update_of_ne hba] at hb
  exact h b m hb

variable [DecidableEq L]

/-- An agent that holds nothing takes a free lock. -/
theorem Held.acquire (hl : lock l = none) :
    Held (update held a (some l)) (update lock l (some a)) := by
  intro b m hb
  obtain rfl | hba := eq_or_ne b a
  · obtain rfl : l = m := by simpa using hb
    simp
  rw [update_of_ne hba] at hb
  have hml : m ≠ l := by
    rintro rfl
    exact h.ne_of_free hl b hb
  rw [update_of_ne hml]
  exact h b m hb

/-- An agent drops the lock it holds. -/
theorem Held.release (ha : held a = some l) :
    Held (update held a none) (update lock l none) := by
  intro b m hb
  have hba : b ≠ a := by
    rintro rfl
    simp at hb
  rw [update_of_ne hba] at hb
  have hml : m ≠ l := by
    rintro rfl
    exact hba (h.excl hb ha)
  rw [update_of_ne hml]
  exact h b m hb

end

end

/-! ### Items -/

/-- **Every item is in exactly one place**: on the queue of its home, or in the hand of
the one agent that popped it from there. -/
structure Placed {A Q T : Type*} (queue : Q → List T) (hand : A → Option (T × Q))
    (home : T → Option Q) : Prop where
  nodup : ∀ q, (queue q).Nodup
  linked : ∀ q, ∀ t ∈ queue q, home t = some q
  inHand : ∀ a t q, hand a = some (t, q) → home t = some q ∧ t ∉ queue q
  hand_inj : ∀ a b t q q', hand a = some (t, q) → hand b = some (t, q') → a = b
  placed : ∀ t q, home t = some q → t ∈ queue q ∨ ∃ a, hand a = some (t, q)

namespace Placed

variable {A Q T : Type*} {queue : Q → List T} {hand : A → Option (T × Q)}
  {home : T → Option Q} {a : A} {q q' : Q} {t : T}

section

variable (h : Placed queue hand home)
include h

/-- An item is linked on a queue exactly if that is its home and nobody has it in hand. -/
theorem mem_iff :
    t ∈ queue q ↔ home t = some q ∧ ∀ a, hand a ≠ some (t, q) := by
  constructor
  · intro ht
    exact ⟨h.linked q t ht, fun a ha => (h.inHand a t q ha).2 ht⟩
  · rintro ⟨hh, hno⟩
    refine (h.placed t q hh).resolve_right ?_
    rintro ⟨a, ha⟩
    exact hno a ha

theorem keep [DecidableEq A] {x : Option (T × Q)}
    (hx : x = hand a) : Placed queue (update hand a x) home := by
  rwa [hx, update_eq_self]

theorem unique (ht : t ∈ queue q) (ht' : t ∈ queue q') :
    q = q' :=
  Option.some.inj ((h.linked q t ht).symm.trans (h.linked q' t ht'))

theorem not_mem (ht : home t = none) (q : Q) :
    t ∉ queue q := by
  intro hmem
  rw [h.linked q t hmem] at ht
  cases ht

theorem not_inHand (ht : home t = none) (a : A) (q : Q) :
    hand a ≠ some (t, q) := by
  intro ha
  rw [(h.inHand a t q ha).1] at ht
  cases ht

theorem not_mem_of_inHand (ha : hand a = some (t, q)) (r : Q) :
    t ∉ queue r := by
  intro hr
  obtain ⟨hhome, hmem⟩ := h.inHand a t q ha
  obtain rfl : q = r := Option.some.inj (hhome.symm.trans (h.linked r t hr))
  exact hmem hr

end

variable [DecidableEq Q] [DecidableEq T] [DecidableEq A]

variable {rest : List T}

section

variable (h : Placed queue hand home)
include h

omit [DecidableEq A] in
/-- Unlinking the first item of a queue from whichever queue it is on pops it. -/
theorem erase_eq_update (hq : queue q = t :: rest) :
    (fun r => (queue r).erase t) = update queue q rest := by
  funext r
  by_cases hr : r = q
  · simp [hr, hq]
  · have hno : t ∉ queue r := fun hmem => hr (h.unique hmem (by simp [hq]))
    rw [update_of_ne hr, List.erase_of_not_mem hno]

omit [DecidableEq A] in
/-- An item without a home is linked on a queue, which becomes its home. -/
theorem push (ht : home t = none) :
    Placed (update queue q (queue q ++ [t])) hand
      (update home t (some q)) := by
  have hmem : ∀ r x, x ∈ update queue q (queue q ++ [t]) r ↔
      x ∈ queue r ∨ (r = q ∧ x = t) := by
    intro r x
    obtain rfl | hr := eq_or_ne r q
    · simp
    · simp [hr]
  constructor
  case nodup =>
    intro r
    obtain rfl | hr := eq_or_ne r q
    · simpa using (h.nodup r).concat (h.not_mem ht r)
    · simpa [hr] using h.nodup r
  case linked =>
    intro r x hx
    rcases (hmem r x).mp hx with hold | ⟨rfl, rfl⟩
    · have hxt : x ≠ t := by
        rintro rfl
        exact h.not_mem ht r hold
      rw [update_of_ne hxt]
      exact h.linked r x hold
    · simp
  case inHand =>
    intro b x r hb
    have hxt : x ≠ t := by
      rintro rfl
      exact h.not_inHand ht b r hb
    obtain ⟨hhome, hno⟩ := h.inHand b x r hb
    rw [update_of_ne hxt, hmem]
    exact ⟨hhome, by simp [hno, hxt]⟩
  case hand_inj => exact h.hand_inj
  case placed =>
    intro x r hx
    rw [hmem]
    obtain rfl | hxt := eq_or_ne x t
    · obtain rfl : q = r := by simpa using hx
      exact .inl (.inr ⟨rfl, rfl⟩)
    · rw [update_of_ne hxt] at hx
      exact (h.placed x r hx).imp .inl id

omit [DecidableEq Q] [DecidableEq T] in
/-- An agent that has in hand what nobody else has is the only one with it. -/
theorem hand_inj_update
    (hno : ∀ b r, b ≠ a → hand b ≠ some (t, r)) (b c : A) (x : T) (r r' : Q)
    (hb : update hand a (some (t, q)) b = some (x, r))
    (hc : update hand a (some (t, q)) c = some (x, r')) : b = c := by
  by_cases hba : b = a <;> by_cases hca : c = a
  · rw [hba, hca]
  · obtain ⟨rfl, -⟩ : t = x ∧ q = r := by simpa [hba] using hb
    rw [update_of_ne hca] at hc
    exact absurd hc (hno c r' hca)
  · obtain ⟨rfl, -⟩ : t = x ∧ q = r' := by simpa [hca] using hc
    rw [update_of_ne hba] at hb
    exact absurd hb (hno b r hba)
  · rw [update_of_ne hba] at hb
    rw [update_of_ne hca] at hc
    exact h.hand_inj b c x r r' hb hc

/-- An agent with an empty hand takes the first item of a queue. -/
theorem pop (hq : queue q = t :: rest) (ha : hand a = none) :
    Placed (update queue q rest) (update hand a (some (t, q))) home := by
  have hmem : t ∈ queue q := by simp [hq]
  have hhome : home t = some q := h.linked q t hmem
  have herase : ∀ r x, x ∈ (queue r).erase t ↔ x ≠ t ∧ x ∈ queue r :=
    fun r x => (h.nodup r).mem_erase_iff
  rw [← h.erase_eq_update hq]
  constructor
  case nodup => exact fun r => (h.nodup r).erase t
  case linked => exact fun r x hx => h.linked r x ((herase r x).mp hx).2
  case inHand =>
    intro b x r hb
    rw [herase]
    by_cases hba : b = a
    · obtain ⟨rfl, rfl⟩ : t = x ∧ q = r := by simpa [hba] using hb
      exact ⟨hhome, fun hx => hx.1 rfl⟩
    · rw [update_of_ne hba] at hb
      obtain ⟨hr, hx⟩ := h.inHand b x r hb
      exact ⟨hr, fun hx' => hx hx'.2⟩
  case hand_inj =>
    exact h.hand_inj_update fun b r _ hb => h.not_mem_of_inHand hb q hmem
  case placed =>
    intro x r hx
    obtain rfl | hxt := eq_or_ne x t
    · obtain rfl : q = r := Option.some.inj (hhome.symm.trans hx)
      exact .inr ⟨a, by simp⟩
    rcases h.placed x r hx with hmem' | ⟨b, hb⟩
    · exact .inl ((herase r x).mpr ⟨hxt, hmem'⟩)
    have hba : b ≠ a := by
      rintro rfl
      rw [ha] at hb
      cases hb
    exact .inr ⟨b, by rw [update_of_ne hba, hb]⟩

omit [DecidableEq Q] in
/-- An agent finishes with the item in its hand, which then has no home. -/
theorem finish (ha : hand a = some (t, q)) :
    Placed queue (update hand a none) (update home t none) := by
  have hno := h.not_mem_of_inHand ha
  have hold : ∀ b x r, update hand a none b = some (x, r) →
      hand b = some (x, r) ∧ x ≠ t := by
    intro b x r hb
    have hba : b ≠ a := by
      rintro rfl
      simp at hb
    rw [update_of_ne hba] at hb
    refine ⟨hb, ?_⟩
    rintro rfl
    exact hba (h.hand_inj b a x r q hb ha)
  constructor
  case nodup => exact h.nodup
  case linked =>
    intro r x hx
    have hxt : x ≠ t := by
      rintro rfl
      exact hno r hx
    rw [update_of_ne hxt]
    exact h.linked r x hx
  case inHand =>
    intro b x r hb
    obtain ⟨hb, hxt⟩ := hold b x r hb
    rw [update_of_ne hxt]
    exact h.inHand b x r hb
  case hand_inj =>
    intro b c x r r' hb hc
    exact h.hand_inj b c x r r' (hold b x r hb).1 (hold c x r' hc).1
  case placed =>
    intro x r hx
    have hxt : x ≠ t := by
      rintro rfl
      simp at hx
    rw [update_of_ne hxt] at hx
    rcases h.placed x r hx with hmem | ⟨b, hb⟩
    · exact .inl hmem
    have hba : b ≠ a := by
      rintro rfl
      rw [ha, Option.some.injEq, Prod.mk.injEq] at hb
      exact hxt hb.1.symm
    exact .inr ⟨b, by rw [update_of_ne hba, hb]⟩

omit [DecidableEq Q] in
/-- An agent keeps the item in its hand and gives it another home. -/
theorem rehome (ha : hand a = some (t, q)) (q' : Q) :
    Placed queue (update hand a (some (t, q'))) (update home t (some q')) := by
  have hno := h.not_mem_of_inHand ha
  have hold : ∀ b x r, b ≠ a → hand b = some (x, r) → x ≠ t := by
    rintro b x r hba hb rfl
    exact hba (h.hand_inj b a x r q hb ha)
  constructor
  case nodup => exact h.nodup
  case linked =>
    intro r x hx
    have hxt : x ≠ t := fun hxt => hno r (hxt ▸ hx)
    rw [update_of_ne hxt]
    exact h.linked r x hx
  case inHand =>
    intro b x r hb
    by_cases hba : b = a
    · obtain ⟨rfl, rfl⟩ : t = x ∧ q' = r := by simpa [hba] using hb
      exact ⟨update_self .., hno q'⟩
    · rw [update_of_ne hba] at hb
      rw [update_of_ne (hold b x r hba hb)]
      exact h.inHand b x r hb
  case hand_inj =>
    exact h.hand_inj_update fun b r hba hb => hold b t r hba hb rfl
  case placed =>
    intro x r hx
    by_cases hxt : x = t
    · obtain rfl : q' = r := by simpa [hxt] using hx
      exact .inr ⟨a, by simp [hxt]⟩
    rw [update_of_ne hxt] at hx
    refine (h.placed x r hx).imp id ?_
    rintro ⟨b, hb⟩
    have hba : b ≠ a := by
      rintro rfl
      rw [ha, Option.some.injEq, Prod.mk.injEq] at hb
      exact hxt hb.1.symm
    exact ⟨b, by rw [update_of_ne hba, hb]⟩

omit [DecidableEq Q] [DecidableEq A] in
/-- An item that nobody has in hand is unlinked, and then has no home. -/
theorem remove (hno : ∀ a q, hand a ≠ some (t, q)) :
    Placed (fun r => (queue r).erase t) hand (update home t none) := by
  have hmem : ∀ r x, x ∈ (queue r).erase t ↔ x ≠ t ∧ x ∈ queue r :=
    fun r x => (h.nodup r).mem_erase_iff
  constructor
  case nodup => exact fun r => (h.nodup r).erase t
  case linked =>
    intro r x hx
    obtain ⟨hxt, hx⟩ := (hmem r x).mp hx
    rw [update_of_ne hxt]
    exact h.linked r x hx
  case inHand =>
    intro b x r hb
    have hxt : x ≠ t := by
      rintro rfl
      exact hno b r hb
    rw [update_of_ne hxt, hmem]
    obtain ⟨hhome, hx⟩ := h.inHand b x r hb
    exact ⟨hhome, fun hx' => hx hx'.2⟩
  case hand_inj => exact h.hand_inj
  case placed =>
    intro x r hx
    have hxt : x ≠ t := by
      rintro rfl
      simp at hx
    rw [update_of_ne hxt] at hx
    rw [hmem]
    exact (h.placed x r hx).imp (fun hx => ⟨hxt, hx⟩) id

end

end Placed

end XVapor
