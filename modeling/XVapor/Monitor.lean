import Mathlib.Data.List.FinRange
import XVapor.Machine

/-!
# Monitors with Wait Channels

A monitor is shared data behind one lock. A thread that calls it takes the lock, runs a
piece of code, and in between may go to sleep on a channel or wake whoever sleeps on one.

Sleeping is not atomic. The sleeper takes the lock of its own control block, drops the lock
of the monitor, writes its channel and the state `sleeping`, and drops its own lock when
the processor has switched away from it. A thread that wakes a channel walks through the
control blocks, takes the lock of each and makes it runnable if it sleeps on that channel.
Anything else in the system may make a sleeper runnable too, at any time.

The code of a monitor is a parameter. A guard `good` restricts the steps of the code that a
run may take, so that the rules apply to the runs that keep to a condition.

## Main results

* `Outline.Valid.holds`: **the assertion rule**. Assertions about the shared data, one
  per place in the code, that each thread's own code establishes and that the code of the
  others does not disturb, hold in every run.
* `Wakes.blocked_of_sleeping`: **the wakeup rule**. If threads sleep on a channel only
  while its condition `blocked` holds, and whoever ends the condition wakes the channel before
  it drops the lock, then a thread that is asleep while the lock is free is asleep for a
  reason: the condition of its channel holds.
-/

namespace XVapor

open Function

/-! ### The machine -/

/-- What the code of a monitor does next, with the lock held. -/
inductive Next (C L O : Type)
  | go (l : L)
  | sleep (c : C) (l : L)
  | wake (c : C) (l : L)
  | leave (o : O)

/-- The control blocks, in the order in which a wakeup visits them. Every thread has one. -/
structure Pool (T : Type) where
  list : List T
  complete : ∀ t, t ∈ list

/-- The control blocks of `n` threads. -/
def Pool.fin (n : ℕ) : Pool (Fin n) := ⟨List.finRange n, List.mem_finRange⟩

/-- A **monitor**: threads `T`, channels `C`, shared data `G`, places in the code `L`, what a
thread keeps outside `O`, calls `K`, and the choices `E` the environment makes for the code. -/
structure Monitor (T C G L O K E : Type) where
  pool : Pool T
  initial : G → Prop
  idle : O
  start : T → O → K → Option L
  code : T → G → L → E → Option (G × Next C L O)

/-- Where a thread is. From `lockSelf` to `tidy` it is inside the call that sleeps. -/
inductive Stage (T C L O : Type)
  | out (o : O)
  | acq (l : L)
  | inn (l : L)
  | lockSelf (c : C) (l : L)
  | drop (c : C) (l : L)
  | mark (c : C) (l : L)
  | switch (c : C) (l : L)
  | asleep (c : C) (l : L)
  | tidy (l : L)
  | scan (c : C) (rest : List T) (l : L)
  deriving DecidableEq

namespace Stage

variable {T C L O : Type}

/-- The place in the code of a thread that runs it. -/
def code : Stage T C L O → Option L
  | inn l => some l
  | _ => none

/-- The thread holds the lock of the monitor. -/
def holds : Stage T C L O → Bool
  | inn _ | lockSelf _ _ | drop _ _ | scan _ _ _ => true
  | _ => false

/-- The lock of the thread's own control block is held. -/
def selfLocked : Stage T C L O → Bool
  | drop _ _ | mark _ _ | switch _ _ | tidy _ => true
  | _ => false

/-- The channel the thread is going to sleep on, or sleeps on. -/
def waitsOn : Stage T C L O → Option C
  | lockSelf c _ | drop c _ | mark c _ | switch c _ | asleep c _ => some c
  | _ => none

/-- The channel written into the control block. -/
def parked : Stage T C L O → Option C
  | switch c _ | asleep c _ => some c
  | _ => none

end Stage

/-- The state word of a control block. -/
inductive Activity
  | running
  | runnable
  | sleeping
  deriving DecidableEq, Repr

/-- The shared data with its lock, and per thread the place it is at and the words of its
control block: its own lock, its state, and the channel it sleeps on. -/
structure MonState (T C G L O : Type) where
  data : G
  lock : Option T
  stage : T → Stage T C L O
  tlock : T → Bool
  state : T → Activity
  chan : T → Option C

/-- The actions: a thread calls the monitor, takes a step of the code, or takes a step whose
outcome is determined by its stage; and somebody else makes a sleeper runnable, with or
without clearing its channel. -/
inductive MonAct (T K E : Type)
  | call (t : T) (k : K)
  | run (t : T) (e : E)
  | advance (t : T)
  | disturb (t : T) (clear : Bool)

variable {T C G L O K E : Type} [DecidableEq T]

namespace MonState

/-- A thread moves to another stage. -/
def go (s : MonState T C G L O) (t : T) (p : Stage T C L O) : MonState T C G L O :=
  { s with stage := update s.stage t p }

/-- What a step of the code asks for. -/
def perform (s : MonState T C G L O) (pool : Pool T) (t : T) :
    Next C L O → MonState T C G L O
  | .go l => s.go t (.inn l)
  | .sleep c l => s.go t (.lockSelf c l)
  | .wake c l => s.go t (.scan c pool.list l)
  | .leave o => { s.go t (.out o) with lock := none }

/-- The state of a control block that a wakeup of `c` has visited. -/
def rouse [DecidableEq C] (s : MonState T C G L O) (c : C) (u : T) : T → Activity :=
  if s.chan u = some c ∧ s.state u = .sleeping then update s.state u .runnable
  else s.state

/-- The step of a thread that its stage determines. -/
def advance [DecidableEq C] (s : MonState T C G L O) (t : T) : Option (MonState T C G L O) :=
  match s.stage t with
  | .out _ => none
  | .acq l => if s.lock = none then some { s.go t (.inn l) with lock := some t } else none
  | .inn _ => none
  | .lockSelf c l =>
    if s.tlock t then none
    else some { s.go t (.drop c l) with tlock := update s.tlock t true }
  | .drop c l => some { s.go t (.mark c l) with lock := none }
  | .mark c l =>
    some { s.go t (.switch c l) with
      chan := update s.chan t (some c)
      state := update s.state t .sleeping }
  | .switch c l => some { s.go t (.asleep c l) with tlock := update s.tlock t false }
  | .asleep _ l =>
    if s.state t = .runnable ∧ s.tlock t = false then
      some { s.go t (.tidy l) with
        tlock := update s.tlock t true
        state := update s.state t .running }
    else none
  | .tidy l =>
    some { s.go t (.acq l) with
      chan := update s.chan t none
      tlock := update s.tlock t false }
  | .scan _ [] l => some (s.go t (.inn l))
  | .scan c (u :: rest) l =>
    if u = t then some (s.go t (.scan c rest l))
    else if s.tlock u then none
    else some { s.go t (.scan c rest l) with state := s.rouse c u }

end MonState

namespace Monitor

variable [DecidableEq C] (M : Monitor T C G L O K E)

/-- One step of the system. -/
def step (s : MonState T C G L O) : MonAct T K E → Option (MonState T C G L O)
  | .call t k =>
    match s.stage t with
    | .out o => (M.start t o k).map fun l => s.go t (.acq l)
    | _ => none
  | .run t e =>
    match s.stage t with
    | .inn l =>
      (M.code t s.data l e).map fun r => { s with data := r.1 }.perform M.pool t r.2
    | _ => none
  | .advance t => s.advance t
  | .disturb t clear =>
    if s.state t = .sleeping ∧ s.tlock t = false then
      some { s with
        state := update s.state t .runnable
        chan := if clear then update s.chan t none else s.chan }
    else none

/-- The system of the threads that use a monitor. At the start all are outside. -/
def machine : Machine (MonState T C G L O) (MonAct T K E) where
  init s := M.initial s.data ∧ s.lock = none ∧ (∀ t, s.stage t = .out M.idle) ∧
    (∀ t, s.tlock t = false) ∧ (∀ t, s.state t = .running) ∧ ∀ t, s.chan t = none
  step := M.step

/-- All threads are outside. -/
def quiet (g : G) : MonState T C G L O :=
  ⟨g, none, fun _ => .out M.idle, fun _ => false, fun _ => .running, fun _ => none⟩

variable {M} in
theorem init_quiet {g : G} (h : M.initial g) : M.machine.init (M.quiet g) :=
  ⟨h, rfl, fun _ => rfl, fun _ => rfl, fun _ => rfl, fun _ => rfl⟩

/-- The runs in which every step of the code meets `good`. -/
def guard (good : T → G → L → E → Prop) (s : MonState T C G L O) : MonAct T K E → Prop
  | .run t e => ∀ l ∈ (s.stage t).code, good t s.data l e
  | _ => True

instance guard.decidable (good : T → G → L → E → Prop) [∀ t g l e, Decidable (good t g l e)]
    (s : MonState T C G L O) : (a : MonAct T K E) → Decidable (guard good s a)
  | .run t e => inferInstanceAs (Decidable (∀ l ∈ (s.stage t).code, good t s.data l e))
  | .call _ _ => .isTrue trivial
  | .advance _ => .isTrue trivial
  | .disturb _ _ => .isTrue trivial

end Monitor

/-! ### What a step can do -/

/-- **The steps**, one constructor for each. -/
inductive MonStep [DecidableEq C] (M : Monitor T C G L O K E) (s : MonState T C G L O) :
    MonAct T K E → MonState T C G L O → Prop
  | call {t k o l} (hst : s.stage t = .out o) (hl : M.start t o k = some l) :
      MonStep M s (.call t k) (s.go t (.acq l))
  | run {t e l g a} (hst : s.stage t = .inn l) (hc : M.code t s.data l e = some (g, a)) :
      MonStep M s (.run t e) ({ s with data := g }.perform M.pool t a)
  | acquire {t l} (hst : s.stage t = .acq l) (hl : s.lock = none) :
      MonStep M s (.advance t) { s.go t (.inn l) with lock := some t }
  | lockSelf {t c l} (hst : s.stage t = .lockSelf c l) (hl : s.tlock t = false) :
      MonStep M s (.advance t)
        { s.go t (.drop c l) with tlock := update s.tlock t true }
  | drop {t c l} (hst : s.stage t = .drop c l) :
      MonStep M s (.advance t) { s.go t (.mark c l) with lock := none }
  | mark {t c l} (hst : s.stage t = .mark c l) :
      MonStep M s (.advance t) { s.go t (.switch c l) with
        chan := update s.chan t (some c)
        state := update s.state t .sleeping }
  | switch {t c l} (hst : s.stage t = .switch c l) :
      MonStep M s (.advance t)
        { s.go t (.asleep c l) with tlock := update s.tlock t false }
  | dispatch {t c l} (hst : s.stage t = .asleep c l) (hr : s.state t = .runnable)
      (hl : s.tlock t = false) :
      MonStep M s (.advance t) { s.go t (.tidy l) with
        tlock := update s.tlock t true
        state := update s.state t .running }
  | tidy {t l} (hst : s.stage t = .tidy l) :
      MonStep M s (.advance t) { s.go t (.acq l) with
        chan := update s.chan t none
        tlock := update s.tlock t false }
  | scanned {t c l} (hst : s.stage t = .scan c [] l) :
      MonStep M s (.advance t) (s.go t (.inn l))
  | skip {t c rest l} (hst : s.stage t = .scan c (t :: rest) l) :
      MonStep M s (.advance t) (s.go t (.scan c rest l))
  | scan {t c u rest l} (hst : s.stage t = .scan c (u :: rest) l) (hu : u ≠ t)
      (hl : s.tlock u = false) :
      MonStep M s (.advance t) { s.go t (.scan c rest l) with state := s.rouse c u }
  | disturb {t clear} (hs : s.state t = .sleeping) (hl : s.tlock t = false) :
      MonStep M s (.disturb t clear) { s with
        state := update s.state t .runnable
        chan := if clear then update s.chan t none else s.chan }

section

variable [DecidableEq C] {M : Monitor T C G L O K E} {s s' : MonState T C G L O}
  {a : MonAct T K E} {t u : T} {c : C}

theorem MonStep.of_advance (h : s.advance t = some s') : MonStep M s (.advance t) s' := by
  unfold MonState.advance at h
  split at h
  case h_1 | h_3 => cases h
  case h_2 l hst =>
    obtain ⟨hl, rfl⟩ := guard_eq_some.1 h
    exact .acquire hst hl
  case h_4 c l hst =>
    obtain ⟨hl, rfl⟩ := Option.ite_none_left_eq_some.1 h |>.imp_right Option.some.inj
    exact .lockSelf hst (by simpa using hl)
  case h_5 c l hst =>
    cases h
    exact .drop hst
  case h_6 c l hst =>
    cases h
    exact .mark hst
  case h_7 c l hst =>
    cases h
    exact .switch hst
  case h_8 c l hst =>
    obtain ⟨⟨hr, hl⟩, rfl⟩ := guard_eq_some.1 h
    exact .dispatch hst hr hl
  case h_9 l hst =>
    cases h
    exact .tidy hst
  case h_10 c l hst =>
    cases h
    exact .scanned hst
  case h_11 c u rest l hst =>
    obtain rfl | hu := eq_or_ne u t
    · rw [if_pos rfl] at h
      cases h
      exact .skip hst
    · rw [if_neg hu] at h
      obtain ⟨hl, rfl⟩ := Option.ite_none_left_eq_some.1 h |>.imp_right Option.some.inj
      exact .scan hst hu (by simpa using hl)

theorem Monitor.step_cases (h : M.step s a = some s') : MonStep M s a s' := by
  cases a with
  | call t k =>
    simp only [Monitor.step] at h
    split at h
    · obtain ⟨l, hl, rfl⟩ := Option.map_eq_some_iff.1 h
      exact .call ‹_› hl
    · cases h
  | run t e =>
    simp only [Monitor.step] at h
    split at h
    · obtain ⟨⟨g, a⟩, hc, rfl⟩ := Option.map_eq_some_iff.1 h
      exact .run ‹_› hc
    · cases h
  | advance t => exact .of_advance h
  | disturb t clear =>
    obtain ⟨⟨hs, hl⟩, rfl⟩ := guard_eq_some.1 h
    exact .disturb hs hl

/-- A step after which a thread is outside is the one that left. -/
theorem Monitor.step_out {e : E} {o : O} (h : M.step s (.run t e) = some s')
    (ho : s'.stage t = .out o) : ∃ l g, s.stage t = .inn l ∧
      M.code t s.data l e = some (g, .leave o) ∧ s'.data = g := by
  cases M.step_cases h with
  | @run _ _ l g a hst hc =>
    cases a with
    | leave o' =>
      obtain rfl : o' = o := by simpa [MonState.perform, MonState.go] using ho
      exact ⟨l, g, hst, hc, rfl⟩
    | go | sleep | wake => simp [MonState.perform, MonState.go] at ho

/-! ### The words and the stages agree -/

/-- **The words in memory say where the threads are**: who has the lock, whose own lock is
held, and that whoever is `sleeping` has written its channel. -/
structure Words (s : MonState T C G L O) : Prop where
  lock_iff : ∀ t, s.lock = some t ↔ (s.stage t).holds = true
  tlock_eq : ∀ t, s.tlock t = (s.stage t).selfLocked
  sleeping : ∀ t, s.state t = .sleeping →
    ∃ c, (s.stage t).parked = some c ∧ s.chan t = some c

section

omit [DecidableEq C]

omit [DecidableEq T] in
/-- Only one thread holds the lock. -/
theorem Words.excl (h : Words s) (ht : (s.stage t).holds = true)
    (hu : (s.stage u).holds = true) : t = u :=
  Option.some.inj (((h.lock_iff t).2 ht).symm.trans ((h.lock_iff u).2 hu))

omit [DecidableEq T] in
theorem Words.free (h : Words s) (hl : s.lock = none) (t : T) : (s.stage t).holds = false := by
  by_contra ht
  have hlock := (h.lock_iff t).2 (by simpa using ht)
  simp [hl] at hlock

variable {p0 p : Stage T C L O}

/-- A step of `t` leaves the stages of the others, and their words up to a wakeup. -/
theorem Words.change (h : Words s) (hstage : s'.stage = update s.stage t p)
    (ht : s'.lock = some t ↔ p.holds = true) (ht' : s'.tlock t = p.selfLocked)
    (ht'' : s'.state t = .sleeping → ∃ c, p.parked = some c ∧ s'.chan t = some c)
    (hstate : ∀ u, u ≠ t → s'.state u = .sleeping →
      s.state u = .sleeping ∧ s'.chan u = s.chan u := by exact fun _ _ hu => ⟨hu, rfl⟩)
    (hlock : ∀ u, u ≠ t → (s'.lock = some u ↔ s.lock = some u) := by exact fun _ _ => Iff.rfl)
    (htlock : ∀ u, u ≠ t → s'.tlock u = s.tlock u := by intro u hu; simp [MonState.go, hu]) :
    Words s' := by
  refine ⟨fun u => ?_, fun u => ?_, fun u hu => ?_⟩ <;> rw [hstage] <;>
    obtain rfl | hut := eq_or_ne u t
  · rwa [update_self]
  · rw [update_of_ne hut, hlock u hut, h.lock_iff u]
  · rwa [update_self]
  · rw [update_of_ne hut, htlock u hut, h.tlock_eq u]
  · rw [update_self]
    exact ht'' hu
  · obtain ⟨hsl, hch⟩ := hstate u hut hu
    rw [update_of_ne hut, hch]
    exact h.sleeping u hsl

omit [DecidableEq T] in
theorem Words.lock_of (h : Words s) (hst : s.stage t = p0) (hp : p.holds = p0.holds := by rfl) :
    s.lock = some t ↔ p.holds = true := by
  rw [hp, ← hst]
  exact h.lock_iff t

/-- A step of `t` that changes its stage and nothing else. -/
theorem Words.go (h : Words s) (hst : s.stage t = p0) (hp : p.holds = p0.holds := by rfl)
    (hp' : p.selfLocked = p0.selfLocked := by rfl) (hp'' : p.parked = p0.parked := by rfl) :
    Words (s.go t p) := by
  subst hst
  exact h.change rfl (hp ▸ h.lock_iff t) (hp' ▸ h.tlock_eq t) (hp'' ▸ h.sleeping t)

/-- A thread that holds the lock drops it and leaves. -/
theorem Words.release (h : Words s) (hst : s.stage t = p0) (ht : p0.holds = true := by rfl)
    (hp : p.holds = false := by rfl) (hp' : p.selfLocked = p0.selfLocked := by rfl)
    (hp'' : p.parked = p0.parked := by rfl) : Words { s.go t p with lock := none } := by
  subst hst
  have hlock := (h.lock_iff t).2 ht
  refine h.change rfl (by simp [hp]) (hp' ▸ h.tlock_eq t) (hp'' ▸ h.sleeping t)
    (fun _ _ hu => ⟨hu, rfl⟩) fun u hu => ?_
  simp [hlock, hu.symm]

end

theorem rouse_sleeping (hu : s.rouse c t u = .sleeping) : s.state u = .sleeping := by
  unfold MonState.rouse at hu
  split at hu
  · obtain rfl | hut := eq_or_ne u t
    · simp at hu
    · rwa [update_of_ne hut] at hu
  · exact hu

theorem Words.step (h : Words s) (hs : MonStep M s a s') : Words s' := by
  cases hs with
  | call hst hl | scanned hst | skip hst =>
    exact h.go hst
  | @run t e l g a hst hc =>
    have hd : Words { s with data := g } := ⟨h.lock_iff, h.tlock_eq, h.sleeping⟩
    cases a with
    | go l' | sleep c l' | wake c l' =>
      exact hd.go hst
    | leave o => exact hd.release hst
  | @acquire t l hst hl =>
    refine h.change rfl (by simp [Stage.holds]) ?_ (fun hsl => ?_) (fun _ _ hu => ⟨hu, rfl⟩)
      fun u hu => ?_
    · simpa [MonState.go, hst, Stage.selfLocked] using h.tlock_eq t
    · simpa [hst, Stage.parked] using h.sleeping t hsl
    · simp [hl, hu.symm]
  | @lockSelf t c l hst hl =>
    refine h.change rfl (h.lock_of hst) (by simp [Stage.selfLocked]) fun hsl => ?_
    simpa [hst, Stage.parked] using h.sleeping t hsl
  | drop hst => exact h.release hst
  | @mark t c l hst =>
    refine h.change rfl (h.lock_of hst) ?_ (fun _ => ⟨c, rfl, by simp⟩) fun u hu hsl => ?_
    · simpa [MonState.go, hst, Stage.selfLocked] using h.tlock_eq t
    · simpa [hu] using hsl
  | @switch t c l hst =>
    refine h.change rfl (h.lock_of hst) (by simp [Stage.selfLocked]) fun hsl => ?_
    simpa [MonState.go, hst, Stage.parked] using h.sleeping t hsl
  | @dispatch t c l hst hr hl =>
    refine h.change rfl (h.lock_of hst) (by simp [Stage.selfLocked]) (fun hsl => ?_)
      fun u hu hsl => ?_
    · simp at hsl
    · exact ⟨by simpa [hu] using hsl, rfl⟩
  | @tidy t l hst =>
    refine h.change rfl (h.lock_of hst) (by simp [Stage.selfLocked]) (fun hsl => ?_)
      fun u hu hsl => ?_
    · simpa [hst, Stage.parked] using h.sleeping t hsl
    · exact ⟨hsl, update_of_ne hu _ _⟩
  | @scan t c u rest l hst hu hl =>
    have hgo : Words (s.go t (.scan c rest l)) := h.go hst
    exact ⟨hgo.lock_iff, hgo.tlock_eq, fun v hv => hgo.sleeping v (rouse_sleeping hv)⟩
  | @disturb t clear hs hl =>
    refine ⟨h.lock_iff, h.tlock_eq, fun u hu => ?_⟩
    have hut : u ≠ t := by
      rintro rfl
      simp at hu
    obtain ⟨c, hp, hc⟩ := h.sleeping u (by simpa [hut] using hu)
    refine ⟨c, hp, ?_⟩
    cases clear
    · exact hc
    · simpa [hut] using hc

theorem Words.init (h : M.machine.init s) : Words s := by
  obtain ⟨-, hlock, hstage, htlock, hstate, -⟩ := h
  exact ⟨fun t => by simp [hlock, hstage, Stage.holds],
    fun t => by simp [htlock, hstage, Stage.selfLocked], fun t ht => by simp [hstate] at ht⟩

variable {ok : MonState T C G L O → MonAct T K E → Prop}

theorem Monitor.reach_guard (h : M.machine.Reach ok s) :
    M.machine.Reach (Monitor.guard fun _ _ _ _ => True) s := by
  refine h.mono fun s a _ => ?_
  cases a with
  | run t e => exact fun _ _ => trivial
  | call | advance | disturb => trivial

theorem Words.of_reach (h : M.machine.Reach ok s) : Words s :=
  h.invariant (fun _ => Words.init) fun _ _ _ hi _ hs => hi.step (M.step_cases hs)

end

/-! ### Assertions -/

/-- A **proof outline**: what holds of the shared data, and for each thread outside, on the
way to the lock, and inside. The code of a thread that holds the lock may change the data,
so what a thread outside or on its way relies on has to survive the code of the others. -/
structure Outline (T G L O : Type) where
  shared : G → Prop
  outside : T → G → O → Prop
  waiting : T → G → L → Prop
  inside : T → G → L → Prop

namespace Outline

/-- What holds of a thread after a step of its code. -/
def after (A : Outline T G L O) (t : T) (g : G) : Next C L O → Prop
  | .go l | .wake _ l => A.inside t g l
  | .sleep _ l => A.waiting t g l
  | .leave o => A.outside t g o

/-- What holds of a thread at a stage. -/
def asserts (A : Outline T G L O) (t : T) (g : G) : Stage T C L O → Prop
  | .out o => A.outside t g o
  | .inn l | .scan _ _ l => A.inside t g l
  | .acq l | .lockSelf _ l | .drop _ l | .mark _ l | .switch _ l | .asleep _ l | .tidy l =>
    A.waiting t g l

/-- **The outline is valid** for the steps of the code that meet `good`. -/
structure Valid (A : Outline T G L O) (M : Monitor T C G L O K E)
    (good : T → G → L → E → Prop) : Prop where
  init : ∀ g, M.initial g → A.shared g ∧ ∀ t, A.outside t g M.idle
  start : ∀ {t g o k l}, A.shared g → A.outside t g o → M.start t o k = some l →
    A.waiting t g l
  enter : ∀ {t g l}, A.shared g → A.waiting t g l → A.inside t g l
  own : ∀ {t g l e g' a}, A.shared g → A.inside t g l → good t g l e →
    M.code t g l e = some (g', a) → A.shared g' ∧ A.after t g' a
  frame : ∀ {t g l e g' a u}, A.shared g → A.inside t g l → good t g l e →
    M.code t g l e = some (g', a) → u ≠ t →
    (∀ l', A.waiting u g l' → A.waiting u g' l') ∧ ∀ o, A.outside u g o → A.outside u g' o

omit [DecidableEq T] in
/-- A stronger guard leaves fewer steps to look at. -/
theorem Valid.mono {A : Outline T G L O} {M : Monitor T C G L O K E}
    {good good' : T → G → L → E → Prop} (h : A.Valid M good)
    (hle : ∀ t g l e, good' t g l e → good t g l e) : A.Valid M good' where
  init := h.init
  start := h.start
  enter := h.enter
  own hsh hin hg := h.own hsh hin (hle _ _ _ _ hg)
  frame hsh hin hg := h.frame hsh hin (hle _ _ _ _ hg)

end Outline

section

variable [DecidableEq C] {M : Monitor T C G L O K E} {s s' : MonState T C G L O}
  {a : MonAct T K E} {t u : T} {c : C} {A : Outline T G L O} {good : T → G → L → E → Prop}

/-- The assertions hold in a state. -/
structure Outline.Holds (A : Outline T G L O) (s : MonState T C G L O) : Prop where
  shared : A.shared s.data
  thread : ∀ t, A.asserts t s.data (s.stage t)

omit [DecidableEq C] in
/-- A step of `t`: what it relies on, and what the others rely on afterwards. -/
theorem Outline.Holds.update {g : G} {p : Stage T C L O} {stage : T → Stage T C L O}
    (hsh : A.shared g) (ht : A.asserts t g p) (hu : ∀ u, u ≠ t → A.asserts u g (stage u))
    (lock : Option T) (tlock : T → Bool) (state : T → Activity) (chan : T → Option C) :
    A.Holds ⟨g, lock, update stage t p, tlock, state, chan⟩ := by
  refine ⟨hsh, fun u => ?_⟩
  obtain rfl | hut := eq_or_ne u t
  · simpa using ht
  · simpa [hut] using hu u hut

theorem Outline.Valid.step (hA : A.Valid M good) (hw : Words s) (h : A.Holds s)
    (hg : Monitor.guard good s a) (hs : MonStep M s a s') : A.Holds s' := by
  have hmove : ∀ {t p lock tlock state chan},
      (A.asserts t s.data (s.stage t) → A.asserts t s.data p) →
      A.Holds ⟨s.data, lock, update s.stage t p, tlock, state, chan⟩ :=
    fun hp => .update h.shared (hp (h.thread _)) (fun u _ => h.thread u) _ _ _ _
  cases hs with
  | call hst hl => exact hmove fun ht => hA.start h.shared (by rwa [hst] at ht) hl
  | @run t e l g a hst hc =>
    have ht := h.thread t
    rw [hst] at ht
    have hgood : good t s.data l e := hg l (by rw [hst]; rfl)
    obtain ⟨hsh, hafter⟩ := hA.own h.shared ht hgood hc
    -- the others are outside or on their way, since only one thread holds the lock
    have hothers : ∀ u, u ≠ t → A.asserts u g (s.stage u) := by
      intro u hu
      have hnot : (s.stage u).holds = false := by
        by_contra hh
        exact hu (hw.excl (by simpa using hh) (by rw [hst]; rfl))
      obtain ⟨hwait, hout⟩ := hA.frame h.shared ht hgood hc hu
      have hat := h.thread u
      revert hat hnot
      cases s.stage u <;> simp only [Stage.holds, Outline.asserts] <;> simp_all
    cases a with
    | go l' => exact .update (p := .inn l') hsh hafter hothers _ _ _ _
    | sleep c l' => exact .update (p := .lockSelf c l') hsh hafter hothers _ _ _ _
    | wake c l' => exact .update (p := .scan c M.pool.list l') hsh hafter hothers _ _ _ _
    | leave o => exact .update (p := .out o) hsh hafter hothers _ _ _ _
  | acquire hst hl => exact hmove fun ht => hA.enter h.shared (by rwa [hst] at ht)
  | lockSelf hst hl | drop hst | mark hst | switch hst | dispatch hst hr hl | tidy hst
  | scanned hst | skip hst | scan hst hu hl => exact hmove (by rw [hst]; exact id)
  | disturb hs hl => exact ⟨h.shared, h.thread⟩

/-- **The assertion rule.** The assertions of a valid outline hold in every run whose steps of
the code meet `good`. -/
theorem Outline.Valid.holds (hA : A.Valid M good)
    (h : M.machine.Reach (Monitor.guard good) s) : A.Holds s := by
  induction h with
  | init h0 =>
    obtain ⟨hsh, hout⟩ := hA.init _ h0.1
    refine ⟨hsh, fun t => ?_⟩
    rw [h0.2.2.1 t]
    exact hout t
  | step hr hok hs ih => exact hA.step (.of_reach hr) ih hok (M.step_cases hs)

end

/-! ### Wakeups -/

section

/-- After a step of the code: either the condition of the channel holds, or the thread will
still wake the channel before it drops the lock. -/
def settled (blocked : C → G → Prop) (owes : L → C → Prop) (g : G) (c : C) : Next C L O → Prop
  | .go l => blocked c g ∨ owes l c
  | .wake c' l => c = c' ∨ blocked c g ∨ owes l c
  | .sleep _ _ | .leave _ => blocked c g

/-- **The code wakes whom it has to**, as far as its steps meet `good`. The condition `blocked c`
is what a sleeper on `c` waits for the end of; `owes l c` says that from the place `l` on the
code wakes `c`. -/
structure Wakes (M : Monitor T C G L O K E) (A : Outline T G L O)
    (good : T → G → L → E → Prop) (blocked : C → G → Prop) (owes : L → C → Prop) : Prop where
  keep : ∀ {t g l e g' a c}, A.shared g → A.inside t g l → good t g l e →
    M.code t g l e = some (g', a) → blocked c g ∨ owes l c → settled blocked owes g' c a
  sleep : ∀ {t g l e g' c l'}, A.shared g → A.inside t g l → good t g l e →
    M.code t g l e = some (g', .sleep c l') → blocked c g'

/-- The thread is going to sleep on the channel, or sleeps on it and was not woken. -/
def MonState.committed (s : MonState T C G L O) (t : T) (c : C) : Prop :=
  (s.stage t).waitsOn = some c ∧ ∀ l, s.stage t = .asleep c l → s.state t = .sleeping

/-- The thread at this stage will still wake `u` on `c`. -/
def Stage.owes (owes : L → C → Prop) (u : T) (c : C) : Stage T C L O → Prop
  | .inn l => owes l c
  | .scan c' rest l => (c = c' ∧ u ∈ rest) ∨ owes l c
  | _ => False

/-- **Whoever is committed to a channel has a reason**, or the holder of the lock owes it a
wakeup. -/
def Reasons (blocked : C → G → Prop) (owes : L → C → Prop) (s : MonState T C G L O) : Prop :=
  ∀ t c, s.committed t c → blocked c s.data ∨ ∃ h, (s.stage h).owes owes t c

variable [DecidableEq C] {M : Monitor T C G L O K E} {s s' : MonState T C G L O}
  {a : MonAct T K E} {t u : T} {c : C} {A : Outline T G L O} {good : T → G → L → E → Prop}
  {blocked : C → G → Prop} {owes : L → C → Prop}

variable {p : Stage T C L O}

omit [DecidableEq T] [DecidableEq C] in
theorem Stage.holds_of_owes (h : p.owes owes u c) : p.holds = true := by
  cases p <;> first | rfl | exact h.elim

omit [DecidableEq T] [DecidableEq C] in
/-- A thread that waits but does not hold its own lock sleeps, if it holds no lock at all. -/
theorem Words.asleep_of_waitsOn (h : Words s) (hw : (s.stage t).waitsOn = some c)
    (hh : (s.stage t).holds = false) (hl : s.tlock t = false) :
    ∃ l, s.stage t = .asleep c l := by
  have heq := h.tlock_eq t
  rw [hl] at heq
  revert hw hh heq
  cases s.stage t <;> simp [Stage.waitsOn, Stage.holds, Stage.selfLocked]

variable {lock : Option T}

omit [DecidableEq C] in
/-- A step of `t` that leaves the data, and after which `t` is no more committed than before
and owes no less to those who still are. -/
theorem Reasons.go {tlock : T → Bool}
    {state : T → Activity} {chan : T → Option C} (h : Reasons blocked owes s)
    (hstate : ∀ u, u ≠ t → state u = .sleeping → s.state u = .sleeping)
    (ht : ∀ c, p.waitsOn = some c → (∀ l, p = .asleep c l → state t = .sleeping) →
      s.committed t c) (howes : ∀ u c, s.committed u c →
      (u ≠ t → ∀ l, s.stage u = .asleep c l → state u = .sleeping) →
      (s.stage t).owes owes u c → p.owes owes u c) :
    Reasons blocked owes ⟨s.data, lock, update s.stage t p, tlock, state, chan⟩ := by
  intro u c hu
  have hold : s.committed u c ∧
      (u ≠ t → ∀ l, s.stage u = .asleep c l → state u = .sleeping) := by
    obtain rfl | hut := eq_or_ne u t
    · simp only [MonState.committed, update_self] at hu
      exact ⟨ht c hu.1 hu.2, fun hne => absurd rfl hne⟩
    · simp only [MonState.committed, update_of_ne hut] at hu
      exact ⟨⟨hu.1, fun l hl => hstate u hut (hu.2 l hl)⟩, fun _ => hu.2⟩
  obtain hb | ⟨v, hv⟩ := h u c hold.1
  · exact .inl hb
  · refine .inr ⟨v, ?_⟩
    obtain rfl | hvt := eq_or_ne v t
    · simpa using howes u c hold.1 hold.2 hv
    · simpa [hvt] using hv

omit [DecidableEq C] in
/-- A step of the code of `t`: only `t` can owe a wakeup before it and after it. -/
theorem Reasons.run {g : G} (hw : Words s)
    (h : Reasons blocked owes s) {l : L} (hst : s.stage t = .inn l)
    (hp : ∀ c, p.waitsOn = some c → blocked c g)
    (hkeep : ∀ u c, blocked c s.data ∨ owes l c → blocked c g ∨ p.owes owes u c) :
    Reasons blocked owes ⟨g, lock, update s.stage t p, s.tlock, s.state, s.chan⟩ := by
  intro u c hu
  obtain rfl | hut := eq_or_ne u t
  · simp only [MonState.committed, update_self] at hu
    exact .inl (hp c hu.1)
  simp only [MonState.committed, update_of_ne hut] at hu
  have hdue : blocked c s.data ∨ owes l c := by
    refine (h u c hu).imp_right ?_
    rintro ⟨v, hv⟩
    obtain rfl := hw.excl (Stage.holds_of_owes hv) (by rw [hst]; rfl)
    rwa [hst] at hv
  exact (hkeep u c hdue).imp_right fun ho => ⟨t, by simpa using ho⟩

section

variable (hM : Wakes M A good blocked owes)
include hM

theorem Wakes.step (hw : Words s) (hA : A.Holds s)
    (h : Reasons blocked owes s) (hg : Monitor.guard good s a) (hs : MonStep M s a s') :
    Reasons blocked owes s' := by
  cases hs with
  | call hst hl | acquire hst hl | tidy hst | scanned hst | lockSelf hst hl | drop hst
  | switch hst =>
    refine h.go (fun _ _ => id) ?_ ?_
    · simp [Stage.waitsOn, MonState.committed, hst]
    · simp [hst, Stage.owes]
  | @run t e l g a hst hc =>
    have ht := hA.thread t
    rw [hst] at ht
    have hgood : good t s.data l e := hg l (by rw [hst]; rfl)
    have hkeep := fun c => hM.keep (c := c) hA.shared ht hgood hc
    cases a with
    | go l' =>
      exact Reasons.run (s := s) (p := .inn l') hw h hst (by simp [Stage.waitsOn])
        fun u => hkeep
    | sleep c l' =>
      refine Reasons.run (s := s) (p := .lockSelf c l') hw h hst (fun c' hc' => ?_)
        fun u c' hd => .inl (hkeep c' hd)
      obtain rfl : c = c' := by simpa [Stage.waitsOn] using hc'
      exact hM.sleep hA.shared ht hgood hc
    | wake c l' =>
      refine Reasons.run (s := s) (p := .scan c M.pool.list l') hw h hst (by simp [Stage.waitsOn])
        fun u c' hd => ?_
      obtain rfl | hb | ho := hkeep c' hd
      · exact .inr (.inl ⟨rfl, M.pool.complete u⟩)
      · exact .inl hb
      · exact .inr (.inr ho)
    | leave o =>
      exact Reasons.run (s := s) (p := .out o) hw h hst (by simp [Stage.waitsOn])
        fun u c' hd => .inl (hkeep c' hd)
  | mark hst | dispatch hst hr hl =>
    refine h.go (fun u hu hsl => by simpa [hu] using hsl) ?_ ?_
    · simp [Stage.waitsOn, MonState.committed, hst]
    · simp [hst, Stage.owes]
  | @skip t c rest l hst =>
    refine h.go (fun _ _ => id) (by simp [Stage.waitsOn]) fun u c' hu _ ho => ?_
    -- the waker itself does not sleep
    have hut : u ≠ t := by
      rintro rfl
      simp [MonState.committed, hst, Stage.waitsOn] at hu
    rw [hst] at ho
    simpa [Stage.owes, hut] using ho
  | @scan t c u rest l hst hu hl =>
    refine h.go (fun v _ hsl => rouse_sleeping hsl) (by simp [Stage.waitsOn])
      fun v c' hv hsl ho => ?_
    rw [hst] at ho
    obtain ⟨rfl, hmem⟩ | ho := ho
    · refine .inl ⟨rfl, (List.mem_cons.1 hmem).resolve_left ?_⟩
      -- whoever waits for the channel sleeps by now, and has just been made runnable
      rintro rfl
      have hh : (s.stage v).holds = false := by
        by_contra hh
        exact hu (hw.excl (by simpa using hh) (by rw [hst]; rfl))
      obtain ⟨l', hl'⟩ := hw.asleep_of_waitsOn hv.1 hh hl
      obtain ⟨c0, hp, hch⟩ := hw.sleeping v (hv.2 l' hl')
      obtain rfl : c' = c0 := by simpa [hl', Stage.parked] using hp
      have hrouse := hsl hu l' hl'
      simp [MonState.rouse, hch, hv.2 l' hl'] at hrouse
    · exact .inr ho
  | @disturb t clear hs hl =>
    intro u c hu
    refine h u c ⟨hu.1, fun l hl' => ?_⟩
    have hsl := hu.2 l hl'
    obtain rfl | hut := eq_or_ne u t
    · exact hs
    · simpa [hut] using hsl

theorem Wakes.reasons (hA : A.Valid M good)
    (h : M.machine.Reach (Monitor.guard good) s) : Reasons blocked owes s := by
  induction h with
  | init h0 =>
    intro u c hu
    simp [MonState.committed, h0.2.2.1 u, Stage.waitsOn] at hu
  | step hr hok hs ih =>
    exact hM.step (.of_reach hr) (hA.holds hr) ih hok (M.step_cases hs)

/-- **The wakeup rule.** While the lock is free, a thread that sleeps on a channel sleeps there
because the condition of the channel holds. -/
theorem Wakes.blocked_of_sleeping (hA : A.Valid M good)
    (h : M.machine.Reach (Monitor.guard good) s) (hl : s.lock = none)
    (hs : s.state t = .sleeping) (hc : s.chan t = some c) : blocked c s.data := by
  have hw := Words.of_reach h
  obtain ⟨c', hp, hc'⟩ := hw.sleeping t hs
  obtain rfl : c = c' := Option.some.inj (hc.symm.trans hc')
  have hwaits : (s.stage t).waitsOn = some c := by
    revert hp
    cases s.stage t <;> simp [Stage.waitsOn, Stage.parked]
  obtain hb | ⟨v, hv⟩ := hM.reasons hA h t c ⟨hwaits, fun _ _ => hs⟩
  · exact hb
  · have hfree := hw.free hl v
    rw [Stage.holds_of_owes hv] at hfree
    cases hfree

end

end

end XVapor
