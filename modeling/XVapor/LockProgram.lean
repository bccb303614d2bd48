import XVapor.Machine
import Mathlib.Data.List.Nodup

/-!
# Lock Programs

A language for what a kernel path does with spinlocks, with its semantics on several agents
and a logic for it. A program acquires and releases locks, gives up the CPU with one lock
held, and branches on tests. What a test reads is left to the environment, which answers it
when the program comes to it; so one program covers every argument, every timing, and every
state of the data. Functions return early with `ret`, loops end early with `brk`.

An acquisition is attempted in one step. It succeeds if the lock is free; otherwise the
agent is marked as spinning, and attempts again.

The logic `Safe` computes, for a program and the list of locks held before it, the
condition that every acquisition is allowed in its place, that every release is of a lock
that is held, and that the CPU is given up with that one lock held. Its rules are a
parameter, for each agent: which acquisitions are allowed, with which lock the CPU may be
given up, at which acquisitions the agent is assumed not to find the lock taken, and which
answers of the tests are assumed.

## Main results

* `Safe.mono`, `Safe.seq_keep`, `Safe.seq_call`, `Safe.forEach`: the rules for composition.
* `Tracked.step`: a step of a safe program keeps the account of the locks.
* `tracked_of_reach`: every state reached under the assumptions of the rules is accounted
  for.
* `Tracked.sched`: an agent that gives up the CPU holds one lock.
* `Tracked.acyclic`: if the acquisitions at which agents may spin go up a rank, no cycle of
  agents spins.
-/

namespace XVapor

open Function

/-! ### Programs -/

/-- **Lock programs** over locks `L` and tests `C`. -/
inductive Cmd (L C : Type)
  | skip
  | acquire (l : L)
  | release (l : L)
  /-- give up the CPU with `l` held; the scheduler releases it, and takes it again before
  it resumes the program -/
  | sched (l : L)
  | seq (c d : Cmd L C)
  | ite (b : C) (c d : Cmd L C)
  /-- `while (b) c`, or `while (1) c` -/
  | loop (b : Option C) (c : Cmd L C)
  /-- leave the innermost loop -/
  | brk
  /-- leave the innermost call -/
  | ret
  | call (c : Cmd L C)

namespace Cmd

variable {L C : Type}

/-- A sequence of commands. -/
def block : List (Cmd L C) → Cmd L C
  | [] => skip
  | c :: cs => seq c (block cs)

/-- The loop over the elements of a list that is known when it is entered. -/
def forEach {X : Type} (xs : List X) (f : X → Cmd L C) : Cmd L C :=
  block (xs.map f)

/-- The test that a command begins with. -/
def test : Cmd L C → Option C
  | ite b _ _ => some b
  | loop b _ => b
  | _ => none

end Cmd

/-! ### Semantics -/

/-- What is left to do after a command. -/
inductive Frame (L C : Type)
  | seq (d : Cmd L C)
  | loop (b : Option C) (c : Cmd L C)
  | call

/-- A command and its continuation. -/
structure Conf (L C : Type) where
  cmd : Cmd L C
  stack : List (Frame L C)

/-- The holders of the locks; the nesting counter of each agent; what it runs, if it is
inside a call; and whether it spins. -/
@[ext]
structure LockState (A L C : Type) where
  lock : L → Option A
  noff : A → ℕ
  conf : A → Option (Conf L C)
  spin : A → Bool

variable {A L C P : Type}

section

variable [DecidableEq A] [DecidableEq L]

/-- The agent goes on with another command. -/
def LockState.goto (s : LockState A L C) (a : A) (k : Option (Conf L C)) :
    LockState A L C :=
  { s with conf := update s.conf a k, spin := update s.spin a false }

/-- The end of a command. -/
def resume : List (Frame L C) → Option (Conf L C)
  | [] => none
  | .seq d :: k => some ⟨d, k⟩
  | .loop b c :: k => some ⟨.loop b c, k⟩
  | .call :: k => some ⟨.skip, k⟩

/-- One step of an agent. `answer` is the environment's answer if the step is a test. -/
def confStep (s : LockState A L C) (a : A) (answer : Bool) :
    Conf L C → Option (LockState A L C)
  | ⟨.skip, k⟩ => some (s.goto a (resume k))
  | ⟨.acquire l, k⟩ =>
    match s.lock l with
    | none => some ({ s with
        lock := update s.lock l (some a)
        noff := update s.noff a (s.noff a + 1) }.goto a (some ⟨.skip, k⟩))
    | some b => if b = a then none
        else some { s with spin := update s.spin a true }
  | ⟨.release l, k⟩ =>
    if s.lock l = some a then
      some ({ s with
        lock := update s.lock l none
        noff := update s.noff a (s.noff a - 1) }.goto a (some ⟨.skip, k⟩))
    else none
  | ⟨.sched l, k⟩ =>
    if s.lock l = some a ∧ s.noff a = 1 then
      some ({ s with
        lock := update s.lock l none
        noff := update s.noff a 0 }.goto a (some ⟨.acquire l, k⟩))
    else none
  | ⟨.seq c d, k⟩ => some (s.goto a (some ⟨c, .seq d :: k⟩))
  | ⟨.ite _ c d, k⟩ => some (s.goto a (some ⟨if answer then c else d, k⟩))
  | ⟨.loop none c, k⟩ => some (s.goto a (some ⟨c, .loop none c :: k⟩))
  | ⟨.loop (some b) c, k⟩ =>
    some (s.goto a (some (if answer then ⟨c, .loop (some b) c :: k⟩ else ⟨.skip, k⟩)))
  | ⟨.brk, .seq _ :: k⟩ => some (s.goto a (some ⟨.brk, k⟩))
  | ⟨.brk, .loop _ _ :: k⟩ => some (s.goto a (some ⟨.skip, k⟩))
  | ⟨.brk, .call :: _⟩ => none
  | ⟨.brk, []⟩ => none
  | ⟨.ret, .seq _ :: k⟩ => some (s.goto a (some ⟨.ret, k⟩))
  | ⟨.ret, .loop _ _ :: k⟩ => some (s.goto a (some ⟨.ret, k⟩))
  | ⟨.ret, .call :: k⟩ => some (s.goto a (some ⟨.skip, k⟩))
  | ⟨.ret, []⟩ => some (s.goto a none)
  | ⟨.call c, k⟩ => some (s.goto a (some ⟨c, .call :: k⟩))

/-- An agent starts a call, or takes the next step of the one it is in. -/
inductive LockAct (A P : Type)
  | start (a : A) (p : P)
  | step (a : A) (answer : Bool)

/-- One action, for the programs `prog` of the calls of each agent. -/
def lockStep (prog : A → P → Cmd L C) (s : LockState A L C) :
    LockAct A P → Option (LockState A L C)
  | .start a p =>
    match s.conf a with
    | none => some (s.goto a (some ⟨prog a p, []⟩))
    | some _ => none
  | .step a answer => (s.conf a).bind (confStep s a answer)

/-- Nothing is held, and nobody is in a call. -/
def lockBoot (A L C : Type) : LockState A L C where
  lock _ := none
  noff _ := 0
  conf _ := none
  spin _ := false

/-- The machine of agents that run calls. -/
def lockMachine (A : Type) [DecidableEq A] (prog : A → P → Cmd L C) :
    Machine (LockState A L C) (LockAct A P) where
  init s := s = lockBoot A L C
  step := lockStep prog

end

/-! ### The logic -/

variable [DecidableEq L]

/-- The rules of the logic, in terms of the locks an agent holds: which acquisitions are
allowed; with which lock the CPU may be given up; at which acquisitions an agent may find
the lock taken; and which answers a test may have. -/
structure LockRules (L C : Type) where
  acq : (L → Prop) → L → Prop
  yield : L → Prop
  wait : (L → Prop) → L → Prop
  can : (L → Prop) → C → Bool → Prop

variable (R : LockRules L C)

/-- **Safety of a program**, from the list of the locks held: what is to hold of the list
at the normal end, at a `ret`, and at a `brk`. A loop is entered again with the list it was
entered with. -/
def Safe : Cmd L C → (post ret brk : List L → Prop) → List L → Prop
  | .skip, post, _, _, Γ => post Γ
  | .acquire l, post, _, _, Γ => l ∉ Γ ∧ R.acq (· ∈ Γ) l ∧ post (l :: Γ)
  | .release l, post, _, _, Γ => l ∈ Γ ∧ post (Γ.erase l)
  | .sched l, post, _, _, Γ => Γ = [l] ∧ R.yield l ∧ R.acq (· ∈ ([] : List L)) l ∧ post [l]
  | .seq c d, post, ret, brk, Γ => Safe c (Safe d post ret brk) ret brk Γ
  | .ite b c d, post, ret, brk, Γ =>
    (R.can (· ∈ Γ) b true → Safe c post ret brk Γ) ∧
      (R.can (· ∈ Γ) b false → Safe d post ret brk Γ)
  | .loop none c, post, ret, _, Γ => Safe c (· = Γ) ret post Γ
  | .loop (some b) c, post, ret, _, Γ =>
    (R.can (· ∈ Γ) b true → Safe c (· = Γ) ret post Γ) ∧ (R.can (· ∈ Γ) b false → post Γ)
  | .brk, _, _, brk, Γ => brk Γ
  | .ret, _, ret, _, Γ => ret Γ
  | .call c, post, _, _, Γ => Safe c post post (fun _ => False) Γ

variable {R} {post post' ret ret' brk brk' : List L → Prop} {Γ : List L} {c d : Cmd L C}

theorem Safe.mono (h : Safe R c post ret brk Γ) (hp : ∀ Γ, post Γ → post' Γ)
    (hr : ∀ Γ, ret Γ → ret' Γ) (hb : ∀ Γ, brk Γ → brk' Γ) : Safe R c post' ret' brk' Γ := by
  induction c generalizing post post' ret ret' brk brk' Γ with
  | skip => exact hp _ h
  | acquire l => exact ⟨h.1, h.2.1, hp _ h.2.2⟩
  | release l => exact ⟨h.1, hp _ h.2⟩
  | sched l => exact ⟨h.1, h.2.1, h.2.2.1, hp _ h.2.2.2⟩
  | seq c d ihc ihd => exact ihc h (fun _ h => ihd h hp hr hb) hr hb
  | ite b c d ihc ihd =>
    exact ⟨fun hc => ihc (h.1 hc) hp hr hb, fun hc => ihd (h.2 hc) hp hr hb⟩
  | loop b c ih =>
    cases b with
    | none => exact ih h (fun _ h => h) hr hp
    | some b => exact ⟨fun hc => ih (h.1 hc) (fun _ h => h) hr hp, fun hc => hp _ (h.2 hc)⟩
  | brk => exact hb _ h
  | ret => exact hr _ h
  | call c ih => exact ih h hp hp (fun _ h => h)

variable (R) in
/-- A function that returns with the locks it was called with. -/
def Balanced (c : Cmd L C) (Γ : List L) : Prop :=
  Safe R c (· = Γ) (· = Γ) (fun _ => False) Γ

theorem Balanced.call (h : Balanced R c Γ) (hp : post Γ) :
    Safe R (.call c) post ret brk Γ := by
  have hc : Safe R c (· = Γ) (· = Γ) (fun _ => False) Γ := h
  exact hc.mono (fun _ h => h ▸ hp) (fun _ h => h ▸ hp) (fun _ h => h)

theorem Safe.seq (h : Safe R c (Safe R d post ret brk) ret brk Γ) :
    Safe R (.seq c d) post ret brk Γ := h

theorem Safe.seq_call (h : Balanced R c Γ) (hd : Safe R d post ret brk Γ) :
    Safe R (.seq (.call c) d) post ret brk Γ :=
  Safe.seq (h.call hd)

theorem Safe.seq_keep (h : Safe R c (· = Γ) ret brk Γ) (hd : Safe R d post ret brk Γ) :
    Safe R (.seq c d) post ret brk Γ :=
  Safe.seq (h.mono (fun _ hΔ => hΔ ▸ hd) (fun _ h => h) fun _ h => h)

theorem Safe.forever (h : Safe R c (· = Γ) ret post Γ) :
    Safe R (.loop none c) post ret brk Γ := h

theorem Safe.forEach {X : Type} {xs : List X} {f : X → Cmd L C}
    (h : ∀ x ∈ xs, Safe R (f x) (· = Γ) ret brk Γ) (hp : post Γ) :
    Safe R (.forEach xs f) post ret brk Γ := by
  induction xs with
  | nil => exact hp
  | cons x xs ih => exact (h x (by simp)).seq_keep (ih fun y hy => h y (by simp [hy]))

/-! ### Soundness -/

section

variable (R)

mutual

/-- What is to hold at the end of a command with the continuation `k`. -/
def postOf : List (Frame L C) → List L → Prop
  | [], Γ => Γ = []
  | .seq d :: k, Γ => Safe R d (postOf k) (retOf k) (brkOf k) Γ
  | .loop b c :: k, Γ => Safe R (.loop b c) (postOf k) (retOf k) (brkOf k) Γ
  | .call :: k, Γ => postOf k Γ

/-- What is to hold at a `ret`. -/
def retOf : List (Frame L C) → List L → Prop
  | [], Γ => Γ = []
  | .seq _ :: k, Γ => retOf k Γ
  | .loop _ _ :: k, Γ => retOf k Γ
  | .call :: k, Γ => postOf k Γ

/-- What is to hold at a `brk`. -/
def brkOf : List (Frame L C) → List L → Prop
  | [], _ => False
  | .seq _ :: k, Γ => brkOf k Γ
  | .loop _ _ :: k, Γ => postOf k Γ
  | .call :: _, _ => False

end

/-- An agent with the locks `Γ` goes on safely. Outside calls it holds nothing. -/
def ConfSafe : Option (Conf L C) → List L → Prop
  | none, Γ => Γ = []
  | some ⟨c, k⟩, Γ => Safe R c (postOf R k) (retOf R k) (brkOf R k) Γ

end

variable {k : List (Frame L C)}

theorem confSafe_resume (h : postOf R k Γ) :
    ConfSafe R (resume k) Γ := by
  cases k with
  | nil => simpa [postOf, resume, ConfSafe] using h
  | cons f k => cases f <;> simpa [postOf, resume, ConfSafe, Safe] using h

theorem confSafe_body {b : Option C} {c : Cmd L C}
    (hloop : Safe R (.loop b c) (postOf R k) (retOf R k) (brkOf R k) Γ)
    (h : Safe R c (· = Γ) (retOf R k) (postOf R k) Γ) :
    ConfSafe R (some ⟨c, .loop b c :: k⟩) Γ := by
  refine Safe.mono h ?_ (fun _ h => by simpa [retOf] using h)
    (fun _ h => by simpa [brkOf] using h)
  rintro _ rfl
  simpa only [postOf] using hloop

/-- The locks an agent holds, by the lock words. -/
def LockState.holds (s : LockState A L C) (a : A) (l : L) : Prop :=
  s.lock l = some a

/-- **The account of the locks**: for every agent the list of the locks it holds, whose
length is its nesting counter, from which it goes on safely. An agent that spins found the
lock taken where the rules allow it. -/
structure Tracked (R : A → LockRules L C) (s : LockState A L C) (held : A → List L) : Prop where
  nodup : ∀ a, (held a).Nodup
  holds : ∀ a l, s.lock l = some a ↔ l ∈ held a
  noff : ∀ a, s.noff a = (held a).length
  safe : ∀ a, ConfSafe (R a) (s.conf a) (held a)
  spin : ∀ a, s.spin a = true → ∃ l k, s.conf a = some ⟨.acquire l, k⟩ ∧
    (R a).wait (· ∈ held a) l

/-- The assumptions of the rules on one step: a lock that is taken is found so only where
the rules allow it, and tests are answered as the rules allow. -/
def ConfAllowed (R : LockRules L C) (s : LockState A L C) (a : A) (answer : Bool) :
    Cmd L C → Prop
  | .acquire l => s.lock l ≠ none → R.wait (s.holds a) l
  | .ite b _ _ => R.can (s.holds a) b answer
  | .loop (some b) _ => R.can (s.holds a) b answer
  | _ => True

/-- The assumptions of the rules on one action. -/
def Allowed (R : A → LockRules L C) (s : LockState A L C) : LockAct A P → Prop
  | .start _ _ => True
  | .step a answer => ∀ k, s.conf a = some k → ConfAllowed (R a) s a answer k.cmd

variable {R : A → LockRules L C} {s s' : LockState A L C} {held : A → List L} {a : A}

omit [DecidableEq L] in
theorem Tracked.holds_eq [DecidableEq L] (ht : Tracked R s held) (a : A) :
    s.holds a = (· ∈ held a) :=
  funext fun l => propext (ht.holds a l)

variable {answer : Bool}

theorem Tracked.can (ht : Tracked R s held) {b : C}
    (h : (R a).can (s.holds a) b answer) : (R a).can (· ∈ held a) b answer :=
  ht.holds_eq a ▸ h

variable [DecidableEq A]

theorem Tracked.relock (ht : Tracked R s held) {k : Option (Conf L C)}
    {lock : L → Option A} {n : ℕ} (hnd : Γ.Nodup) (hself : ∀ l, lock l = some a ↔ l ∈ Γ)
    (hothers : ∀ b l, b ≠ a → (lock l = some b ↔ s.lock l = some b))
    (hn : n = Γ.length) (hk : ConfSafe (R a) k Γ) :
    Tracked R ({ s with lock := lock, noff := update s.noff a n }.goto a k)
      (update held a Γ) := by
  refine ⟨fun b => ?_, fun b l => ?_, fun b => ?_, fun b => ?_, fun b hb => ?_⟩
  all_goals by_cases hba : b = a
  · simpa [hba] using hnd
  · simpa [hba] using ht.nodup b
  · simpa [LockState.goto, hba] using hself l
  · simpa [LockState.goto, hba] using (hothers b l hba).trans (ht.holds b l)
  · simpa [LockState.goto, hba] using hn
  · simpa [LockState.goto, hba] using ht.noff b
  · simpa [LockState.goto, hba] using hk
  · simpa [LockState.goto, hba] using ht.safe b
  · simp [LockState.goto, hba] at hb
  · simpa [LockState.goto, hba] using ht.spin b (by simpa [LockState.goto, hba] using hb)

theorem Tracked.goto (ht : Tracked R s held) {k : Option (Conf L C)}
    (hk : ConfSafe (R a) k (held a)) : Tracked R (s.goto a k) held := by
  simpa using ht.relock (ht.nodup a) (ht.holds a) (fun _ _ _ => Iff.rfl) (ht.noff a) hk

variable {l : L}

section

variable (ht : Tracked R s held)
include ht

theorem Tracked.acquire {k : Option (Conf L C)}
    (hfree : s.lock l = none) (hk : ConfSafe (R a) k (l :: held a)) :
    Tracked R ({ s with
      lock := update s.lock l (some a)
      noff := update s.noff a (s.noff a + 1) }.goto a k)
      (update held a (l :: held a)) := by
  have hno : l ∉ held a := by
    rw [← ht.holds a l, hfree]
    exact nofun
  refine ht.relock (List.nodup_cons.2 ⟨hno, ht.nodup a⟩) (fun m => ?_) (fun b m hb => ?_)
    (by rw [ht.noff a, List.length_cons]) hk
  · by_cases hm : m = l
    · simp [hm]
    · simp [hm, ht.holds a m]
  · by_cases hm : m = l
    · simp [hm, hfree, Ne.symm hb]
    · simp [hm]

theorem Tracked.release {k : Option (Conf L C)}
    (hl : l ∈ held a) (hk : ConfSafe (R a) k ((held a).erase l)) :
    Tracked R ({ s with
      lock := update s.lock l none
      noff := update s.noff a (s.noff a - 1) }.goto a k)
      (update held a ((held a).erase l)) := by
  have hlock : s.lock l = some a := (ht.holds a l).2 hl
  refine ht.relock ((ht.nodup a).erase l) (fun m => ?_) (fun b m hb => ?_)
    (by rw [ht.noff a, List.length_erase_of_mem hl]) hk
  · rw [(ht.nodup a).mem_erase_iff, ← ht.holds a m]
    by_cases hm : m = l
    · simp [hm]
    · simp [hm]
  · by_cases hm : m = l
    · simp [hm, hlock, Ne.symm hb]
    · simp [hm]

theorem Tracked.spinning
    (hc : s.conf a = some ⟨.acquire l, k⟩) (hw : (R a).wait (· ∈ held a) l) :
    Tracked R { s with spin := update s.spin a true } held := by
  refine ⟨ht.nodup, ht.holds, ht.noff, ht.safe, fun b hb => ?_⟩
  by_cases hba : b = a
  · exact ⟨l, k, hba ▸ hc, hba ▸ hw⟩
  · exact ht.spin b (by simpa [hba] using hb)

/-- **A step of a safe program keeps the account.** -/
theorem Tracked.confStep {k : Conf L C}
    (hc : s.conf a = some k) (hok : ConfAllowed (R a) s a answer k.cmd)
    (h : confStep s a answer k = some s') : ∃ held', Tracked R s' held' := by
  obtain ⟨c, k⟩ := k
  have hsafe := ht.safe a
  rw [hc] at hsafe
  cases c with
  | skip =>
    cases h
    exact ⟨held, ht.goto (confSafe_resume hsafe)⟩
  | acquire l =>
    obtain ⟨-, -, hpost⟩ := hsafe
    simp only [XVapor.confStep] at h
    split at h
    · rename_i hfree
      cases h
      exact ⟨_, ht.acquire hfree hpost⟩
    rename_i b hb
    split at h
    · nomatch h
    cases h
    refine ⟨held, ht.spinning hc ?_⟩
    rw [← ht.holds_eq a]
    exact hok (by rw [hb]; exact nofun)
  | release l =>
    obtain ⟨hl, hpost⟩ := hsafe
    simp only [XVapor.confStep] at h
    obtain ⟨-, rfl⟩ := guard_eq_some.1 h
    exact ⟨_, ht.release hl hpost⟩
  | sched l =>
    obtain ⟨hΓ, -, hacq, hpost⟩ := hsafe
    simp only [XVapor.confStep] at h
    obtain ⟨hl, rfl⟩ := guard_eq_some.1 h
    have hk : ConfSafe (R a) (some ⟨.acquire l, k⟩) ((held a).erase l) := by
      rw [hΓ, List.erase_cons_head]
      exact ⟨List.not_mem_nil, hacq, hpost⟩
    have hrel := ht.release ((ht.holds a l).1 hl.1) hk
    rw [hl.2] at hrel
    exact ⟨_, hrel⟩
  | seq c d =>
    cases h
    exact ⟨held, ht.goto hsafe⟩
  | ite b c d =>
    cases h
    refine ⟨held, ht.goto ?_⟩
    cases answer with
    | true => exact hsafe.1 (ht.can hok)
    | false => exact hsafe.2 (ht.can hok)
  | loop b c =>
    obtain _ | b := b
    · cases h
      exact ⟨held, ht.goto (confSafe_body hsafe hsafe)⟩
    cases h
    refine ⟨held, ht.goto ?_⟩
    cases answer with
    | true => exact confSafe_body hsafe (hsafe.1 (ht.can hok))
    | false => exact hsafe.2 (ht.can hok)
  | brk =>
    obtain _ | ⟨f, k⟩ := k
    · nomatch h
    cases f with
    | seq d | loop b c =>
      cases h
      exact ⟨held, ht.goto (by simpa [ConfSafe, Safe, brkOf] using hsafe)⟩
    | call => nomatch h
  | ret =>
    obtain _ | ⟨f, k⟩ := k
    · cases h
      exact ⟨held, ht.goto (by simpa [ConfSafe, Safe, retOf] using hsafe)⟩
    cases f <;>
    · cases h
      exact ⟨held, ht.goto (by simpa [ConfSafe, Safe, retOf] using hsafe)⟩
  | call c =>
    cases h
    refine ⟨held, ht.goto (Safe.mono hsafe ?_ ?_ nofun)⟩
    · exact fun _ h => by simpa [postOf] using h
    · exact fun _ h => by simpa [retOf] using h

end

variable {prog : A → P → Cmd L C}

/-- **An action keeps the account**, if every call is balanced. -/
theorem Tracked.step (hprog : ∀ a p, Balanced (R a) (prog a p) [])
    (ht : Tracked R s held) {x : LockAct A P} (hok : Allowed R s x)
    (h : lockStep prog s x = some s') : ∃ held', Tracked R s' held' := by
  cases x with
  | start a p =>
    simp only [lockStep] at h
    split at h
    next hc =>
      cases h
      have hnil : held a = [] := by simpa [hc, ConfSafe] using ht.safe a
      refine ⟨held, ht.goto ?_⟩
      rw [hnil]
      refine Safe.mono (hprog a p) ?_ ?_ nofun
      · exact fun _ h => by simpa [postOf] using h
      · exact fun _ h => by simpa [retOf] using h
    next => nomatch h
  | step a answer =>
    obtain ⟨k, hc, h⟩ := Option.bind_eq_some_iff.1 h
    exact ht.confStep hc (hok k hc) h

/-- Every state reached under the assumptions of the rules is accounted for. -/
theorem tracked_of_reach (hprog : ∀ a p, Balanced (R a) (prog a p) [])
    (h : (lockMachine A prog).Reach (Allowed R) s) : ∃ held, Tracked R s held := by
  refine h.invariant (I := fun s => ∃ held, Tracked R s held) ?_ ?_
  · rintro s rfl
    exact ⟨_, fun _ => List.nodup_nil, fun _ _ => by simp [lockBoot], fun _ => rfl, fun _ => rfl,
      fun _ h => nomatch h⟩
  · rintro s x s' ⟨held, ht⟩ hok hs
    exact ht.step hprog hok hs

omit [DecidableEq A] in
/-- **An agent that gives up the CPU holds one lock**, one that it may give it up with, and
its nesting counter is one. -/
theorem Tracked.sched (ht : Tracked R s held) (hc : s.conf a = some ⟨.sched l, k⟩) :
    (R a).yield l ∧ s.noff a = 1 ∧ ∀ m, s.lock m = some a ↔ m = l := by
  have hsafe := ht.safe a
  rw [hc] at hsafe
  refine ⟨hsafe.2.1, by rw [ht.noff a, hsafe.1, List.length_singleton], fun m => ?_⟩
  rw [ht.holds a m, hsafe.1, List.mem_singleton]

/-! ### Cycles -/

/-- The agent spins on a lock that the other one holds. -/
def Waits (s : LockState A L C) (a b : A) : Prop :=
  s.spin a = true ∧ ∃ l k, s.conf a = some ⟨.acquire l, k⟩ ∧ s.lock l = some b

omit [DecidableEq A] in
/-- **No cycle of agents spins**, if the locks at whose acquisition an agent may spin are
ranked above those it holds. -/
theorem Tracked.acyclic (ht : Tracked R s held) (rank : L → ℕ)
    (hrank : ∀ a H l, (R a).acq H l → (R a).wait H l → ∀ m, H m → rank m < rank l) (a : A) :
    ¬ Relation.TransGen (Waits s) a a := by
  -- along the edges the rank of the lock that is waited for goes up
  have hstep : ∀ {x y : A} {l : L} {k : List (Frame L C)}, Waits s x y →
      s.conf x = some ⟨.acquire l, k⟩ → ∀ m, s.lock m = some x → rank m < rank l := by
    rintro x y l k ⟨hspin, -⟩ hc m hm
    obtain ⟨l', k', hc', hw⟩ := ht.spin x hspin
    obtain ⟨rfl, -⟩ : l = l' ∧ k = k' := by simpa [hc] using hc'
    have hsafe := ht.safe x
    rw [hc] at hsafe
    exact hrank x _ l hsafe.2.1 hw m ((ht.holds x m).1 hm)
  have hpath : ∀ {x y : A}, Relation.TransGen (Waits s) x y → ∃ l k m,
      s.conf x = some ⟨.acquire l, k⟩ ∧ s.lock m = some y ∧ rank l ≤ rank m := by
    intro x y hxy
    induction hxy with
    | single hxb =>
      obtain ⟨-, l, k, hc, hl⟩ := hxb
      exact ⟨l, k, l, hc, hl, Nat.le_refl _⟩
    | tail _ hbc ih =>
      obtain ⟨l, k, m, hc, hm, hle⟩ := ih
      have hw := hbc
      obtain ⟨-, l', k', hc', hl'⟩ := hbc
      have hlt := hstep hw hc' m hm
      exact ⟨l, k, l', hc, hl', by omega⟩
  intro hcycle
  obtain ⟨b, hab, -⟩ := Relation.TransGen.head'_iff.1 hcycle
  obtain ⟨l, k, m, hc, hm, hle⟩ := hpath hcycle
  exact absurd (hstep hab hc m hm) (by omega)

end XVapor
