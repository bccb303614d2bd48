import XVapor.Machine

/-!
# Computations that may Panic

A call of the kernel is a computation in `Except ε`: it returns a value and the next state,
or panics. `Ends bad Q` is the postcondition of such a computation when only the panics in
`bad` are excluded: a panic of another kind ends it without a result.

## Main results

* `Ends.bind`, `Ends.mono`: the rules for sequences.
* `bind_eq_ok`: what a sequence that returned a result has done.
* `Ends.foldlM`, `foldlM_invariant`: the rules for loops over a list, with an invariant that
  depends on what is left of the list.
* `mem_callMachine_step`: the steps of the machine whose actions are such calls.
-/

namespace XVapor

variable {ε α β : Type} {bad : ε → Prop} {Q Q' : α → Prop}

/-- The computation returns a result that meets `Q`, or panics, but not with one of
`bad`. -/
def Ends (bad : ε → Prop) (Q : α → Prop) : Except ε α → Prop
  | .ok a => Q a
  | .error e => ¬ bad e

variable {r : Except ε α}

theorem Ends.mono (h : Ends bad Q r) (hQ : ∀ a, Q a → Q' a) :
    Ends bad Q' r := by
  cases r with
  | ok a => exact hQ a h
  | error e => exact h

theorem Ends.not_bad {e : ε} (h : Ends bad Q r) (he : r = .error e) : ¬ bad e := by
  subst he
  exact h

variable {f : α → Except ε β}

theorem Ends.bind {R : β → Prop} (h : Ends bad Q r)
    (hf : ∀ a, Q a → Ends bad R (f a)) : Ends bad R (r >>= f) := by
  cases r with
  | ok a => exact hf a h
  | error e => exact h

theorem ok_bind (a : α) (f : α → Except ε β) : (.ok a >>= f : Except ε β) = f a := rfl

/-- A sequence returns a result if and only if both parts do. -/
theorem bind_eq_ok {b : β} :
    r >>= f = .ok b ↔ ∃ a, r = .ok a ∧ f a = .ok b := by
  cases r with
  | ok a | error e => simp [bind, Except.bind]

theorem ok_pair {ε α β : Type*} {a c : α} {b d : β} :
    (.ok (a, b) : Except ε (α × β)) = .ok (c, d) ↔ a = c ∧ b = d := by
  simp

/-- A check that panics. -/
theorem ite_error_ok {p : Prop} [Decidable p] {e : ε} {a : α} :
    (if p then .error e else r) = .ok a ↔ ¬ p ∧ r = .ok a := by
  by_cases hp : p
  · simp [hp]
  · simp [hp]

/-- The panic that ends a computation, if there is one. -/
def panicOf : Except ε α → Option ε
  | .ok _ => none
  | .error e => some e

theorem panicOf_eq_some {e : ε} : panicOf r = some e ↔ r = .error e := by
  cases r with
  | ok a => simp [panicOf]
  | error e' => simp [panicOf]

variable {a : α}

theorem toOption_eq_some : r.toOption = some a ↔ r = .ok a := by
  cases r with
  | ok b | error e => simp [Except.toOption]

variable {I : List β → α → Prop}

/-- The rule for loops. -/
theorem Ends.foldlM {f : α → β → Except ε α}
    (h : ∀ x xs a, I (x :: xs) a → Ends bad (I xs) (f a x)) (xs : List β)
    (ha : I xs a) : Ends bad (I []) (xs.foldlM f a) := by
  induction xs generalizing a with
  | nil => exact ha
  | cons x xs ih =>
    rw [List.foldlM_cons]
    exact (h x xs a ha).bind fun _ hb => ih hb

/-- The rule for loops that returned a result. -/
theorem foldlM_invariant {f : α → β → Except ε α}
    (h : ∀ x xs a b, I (x :: xs) a → f a x = .ok b → I xs b) {xs : List β} {b : α} (ha : I xs a)
    (hr : xs.foldlM f a = .ok b) : I [] b := by
  induction xs generalizing a with
  | nil => exact Except.ok.inj hr ▸ ha
  | cons x xs ih =>
    rw [List.foldlM_cons] at hr
    obtain ⟨a', hx, hr⟩ := bind_eq_ok.1 hr
    exact ih (h x xs a a' ha hx) hr

/-! ### Machines of calls -/

variable {σ : Type}

/-- The machine whose actions are calls. A call that is not `enabled`, or that panics, has
no next state. -/
def callMachine (boot : σ) (enabled : σ → α → Bool) (call : σ → α → Except ε (β × σ)) :
    Machine σ α where
  init s := s = boot
  step s a := if enabled s a then (call s a).toOption.map Prod.snd else none

theorem mem_callMachine_step {boot s s' : σ} {enabled : σ → α → Bool}
    {call : σ → α → Except ε (β × σ)} :
    (callMachine boot enabled call).step s a = some s' ↔
      enabled s a = true ∧ ∃ r, call s a = .ok (r, s') := by
  simp only [callMachine]
  cases hr : call s a with
  | ok x => cases he : enabled s a <;> simp [Except.toOption, Prod.ext_iff]
  | error e => cases he : enabled s a <;> simp [Except.toOption]

end XVapor
