import Mathlib.Algebra.Group.Nat.Defs
import Mathlib.Logic.Relation

/-!
# Labelled Machines and Guarded Reachability

A concurrent component is modelled as a labelled machine: a step function that maps a
state and an action to the next state, or to `none` when the action is not enabled.
The action carries every choice the hardware, the scheduler, or the allocator makes,
so a schedule is a list of actions and every interleaving is some schedule.

A statement of the form "in every run whose steps all meet the condition `ok`" is a
statement about `M.Reach ok`: the states reached from an initial state by enabled steps
each of which satisfied `ok` in the state it was taken from. `ok` may read the state
before the step, never the one after it.

## Main results

* `Machine.Reach.invariant`: a property that holds initially and is preserved by the
  steps that meet the guard holds in every state reached.
* `Machine.Reach.exec_along`: a schedule whose actions meet the guard is a run under it.
* `Machine.reach_of_exec`: a schedule that executes is a run, which is how a concrete
  interleaving is exhibited.
* `Machine.along_iff_along`: two step properties that agree under an invariant agree along
  every sequence of actions.
-/

namespace XVapor

/-- **A guarded action** is enabled if and only if its guard holds. -/
theorem guard_eq_some {σ : Type*} {p : Prop} [Decidable p] {s s' : σ} :
    (if p then some s else none) = some s' ↔ p ∧ s = s' := by
  rw [Option.ite_none_right_eq_some, Option.some.injEq]

/-- What a function tells apart is different. -/
theorem ne_of_values {α β : Type*} {f : α → β} {a b : α} {x y : β} (ha : f a = x) (hb : f b = y)
    (h : x ≠ y) : a ≠ b := by
  rintro rfl
  exact h (ha.symm.trans hb)

namespace Sample

/- The sample runs number their threads and processes in `Fin 2` and `Fin 3`. -/
scoped instance neZero_two : @NeZero ℕ Zero.ofOfNat0 2 := ⟨by decide⟩

scoped instance neZero_three : @NeZero ℕ Zero.ofOfNat0 3 := ⟨by decide⟩

end Sample

/-- A **labelled machine**: the initial states, and the partial step function. -/
structure Machine (σ α : Type*) where
  init : σ → Prop
  step : σ → α → Option σ

namespace Machine

variable {σ α : Type*} (M : Machine σ α)

/-- The states reached by runs all of whose steps meet the guard `ok`. -/
inductive Reach (ok : σ → α → Prop) : σ → Prop
  | init {s : σ} : M.init s → Reach ok s
  | step {s s' : σ} {a : α} : Reach ok s → ok s a → M.step s a = some s' → Reach ok s'

/-- The guard that admits every step: `M.Reach anyStep` is plain reachability. -/
def anyStep (_ : σ) (_ : α) : Prop := True

/-- Run a schedule; `none` as soon as one of its actions is not enabled. -/
def exec : σ → List α → Option σ
  | s, [] => some s
  | s, a :: as => (M.step s a).bind fun s' => exec s' as

variable {M} {ok : σ → α → Prop} {s s' : σ}

variable {I : σ → Prop}

/-- **The invariant rule.** -/
theorem Reach.invariant (h0 : ∀ s, M.init s → I s)
    (hstep : ∀ s a s', I s → ok s a → M.step s a = some s' → I s') (h : M.Reach ok s) : I s := by
  induction h with
  | init hi => exact h0 _ hi
  | step _ hok hs ih => exact hstep _ _ _ ih hok hs

/-- A stronger guard admits fewer runs. -/
theorem Reach.mono {ok' : σ → α → Prop} (hle : ∀ s a, ok s a → ok' s a)
    (h : M.Reach ok s) : M.Reach ok' s := by
  induction h with
  | init hi => exact .init hi
  | step _ hok hs ih => exact .step ih (hle _ _ hok) hs

theorem exec_append (as bs : List α) :
    M.exec s (as ++ bs) = (M.exec s as).bind fun s' => M.exec s' bs := by
  induction as generalizing s with
  | nil => rfl
  | cons a as ih => simp [exec, ih, Option.bind_assoc]

variable {as : List α}

/-- A schedule that comes back to its state can be repeated. -/
theorem exec_replicate (h : M.exec s as = some s) (n : ℕ) :
    M.exec s (List.replicate n as).flatten = some s := by
  induction n with
  | zero => rfl
  | succ n ih => rw [List.replicate_succ, List.flatten_cons, exec_append, h, Option.bind_some, ih]

/-! ### Properties along a sequence of actions -/

variable (M) in
/-- Every action of the sequence meets `P` in the state it is taken from, up to the first
action that is not enabled. -/
def Along (P : σ → α → Prop) : σ → List α → Prop
  | _, [] => True
  | s, a :: as => P s a ∧ ∀ s', M.step s a = some s' → Along P s' as

instance Along.decidable (P : σ → α → Prop) [∀ s a, Decidable (P s a)] :
    ∀ s as, Decidable (M.Along P s as)
  | _, [] => .isTrue trivial
  | s, a :: as =>
    match h : M.step s a with
    | none => decidable_of_iff (P s a) (by simp [Along, h])
    | some s' =>
      have := Along.decidable P s' as
      decidable_of_iff (P s a ∧ M.Along P s' as) (by simp [Along, h])

/-- A schedule whose actions meet the guard ends in a state that the guard admits. -/
theorem Reach.exec_along (h : M.Reach ok s) (ha : M.Along ok s as)
    (he : M.exec s as = some s') : M.Reach ok s' := by
  induction as generalizing s with
  | nil =>
    simp only [Machine.exec, Option.some.injEq] at he
    exact he ▸ h
  | cons a as ih =>
    simp only [Machine.exec, Option.bind_eq_some_iff] at he
    obtain ⟨s1, h1, he⟩ := he
    exact ih (.step h ha.1 h1) (ha.2 s1 h1) he

/-- A schedule executed from a reached state ends in a reached state. -/
theorem Reach.exec (h : M.Reach anyStep s) (he : M.exec s as = some s') :
    M.Reach anyStep s' := by
  have hall : ∀ (as : List α) (s : σ), M.Along anyStep s as := by
    intro as
    induction as with
    | nil => exact fun _ => trivial
    | cons a as ih => exact fun _ => ⟨trivial, fun s' _ => ih s'⟩
  exact h.exec_along (hall as s) he

/-- A schedule executed from an initial state is a run. -/
theorem reach_of_exec (h0 : M.init s) (he : M.exec s as = some s') :
    M.Reach anyStep s' :=
  (Reach.init h0).exec he

/-- **The sequence rule.** Two properties of one step that agree under an invariant agree
along whole sequences, if the invariant survives the steps that meet the second. -/
theorem along_iff_along {P Q : σ → α → Prop} (hPQ : ∀ s a, I s → (P s a ↔ Q s a))
    (hI : ∀ s a s', I s → Q s a → M.step s a = some s' → I s')
    (hs : I s) : M.Along P s as ↔ M.Along Q s as := by
  induction as generalizing s with
  | nil => rfl
  | cons a as ih =>
    simp only [Along, hPQ s a hs]
    refine and_congr_right fun hq => forall₂_congr fun s' hs' => ?_
    exact ih (hI s a s' hs hq hs')

end Machine

end XVapor
