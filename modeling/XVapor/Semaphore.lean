import XVapor.Machine
import XVapor.Tally
import XVapor.Tcb

/-!
# Semaphores

`kernel/atomic/semaphore.c` counts with two words behind `sem_lock`: `value`, which goes below
zero by one for every thread that has to wait, and `wakeup`, the wakeups that were given and not
yet used. A thread that has to wait calls `cond_wait` of `kernel/atomic/cond.c`, which links it
on the queue of the condition and switches away; `sema_signal` gives a wakeup and calls
`cond_signal`, which takes the first thread off the queue and makes it runnable. Each of these
steps is a step of the machine, and the threads take them in any order.

Both words are 32-bit integers and wrap.

## Main results

* `sema_counts`: **the semaphore counts**, in every run in which no word wraps.
-/

namespace XVapor

open Function
open scoped Sample

/-! ### The source -/

/-- The value that an `int` keeps. -/
def int32 (x : ℤ) : ℤ := (x + 2 ^ 31) % 2 ^ 32 - 2 ^ 31

theorem int32_of_range {x : ℤ} (h : -2 ^ 31 ≤ x) (h' : x < 2 ^ 31) : int32 x = x := by
  unfold int32
  omega

/-- Where a thread is: in `sema_wait` (`wait…`) and the `cond_wait` it calls (`cw…`), or in
`sema_signal` and the `cond_signal` it calls (`sig…`). -/
inductive SemaPc (T : Type)
  | out
  | waitAcq
  | waitDec
  | cwLock
  | cwSleep
  | cwPush
  | cwRelease
  | cwSched
  | asleep
  | woken
  | reacq
  | waitTest
  | waitRel
  | sigAcq
  | sigInc
  | sigPop
  | sigLock (u : T)
  | sigRel
  deriving DecidableEq, Repr

/-- `struct semaphore` with the queue of its condition; per thread its place, its own lock, its
state, and whether `wait_chan_entry` is set; and whether `cond_signal` has panicked. The last
four fields are not in the source: the decrements and increments that were made, the calls of
`sema_signal` that were started, and the calls of `sema_wait` that have returned. -/
structure Sema (T : Type) where
  value : ℤ
  wakeup : ℤ
  lock : Option T
  queue : List T
  pc : T → SemaPc T
  tlock : T → Bool
  state : T → TcbState
  entry : T → Bool
  panicked : Bool
  waits : ℕ
  signals : ℕ
  started : ℕ
  returned : ℕ

/-- A thread calls one of the two functions, or goes on. -/
inductive SemaAct (T : Type)
  | wait (t : T)
  | signal (t : T)
  | advance (t : T)

variable {T : Type} [DecidableEq T]

namespace Sema

/-- A thread moves on. -/
def go (s : Sema T) (t : T) (p : SemaPc T) : Sema T :=
  { s with pc := update s.pc t p }

/-- `cond_signal` has the lock of the thread it took off the queue. -/
def wake (s : Sema T) (t u : T) : Sema T :=
  if s.state u = .sleeping ∧ s.entry u = true then
    { s.go t .sigRel with
      entry := update s.entry u false
      state := update s.state u .runnable }
  else { s with panicked := true }

/-- The next step of a thread. -/
def advance (s : Sema T) (t : T) : Option (Sema T) :=
  match s.pc t with
  | .out => none
  | .waitAcq => if s.lock = none then some { s.go t .waitDec with lock := some t } else none
  | .waitDec =>
    let v := int32 (s.value - 1)
    some { s.go t (if v < 0 then .cwLock else .waitRel) with
      value := v
      waits := s.waits + 1 }
  | .cwLock =>
    if s.tlock t then none
    else some { s.go t .cwSleep with tlock := update s.tlock t true }
  | .cwSleep => some { s.go t .cwPush with state := update s.state t .sleeping }
  | .cwPush =>
    some { s.go t .cwRelease with
      queue := s.queue ++ [t]
      entry := update s.entry t true }
  | .cwRelease => some { s.go t .cwSched with lock := none }
  | .cwSched => some { s.go t .asleep with tlock := update s.tlock t false }
  | .asleep =>
    if s.state t = .runnable ∧ s.tlock t = false then
      some { s.go t .woken with
        state := update s.state t .running
        tlock := update s.tlock t true }
    else none
  | .woken => some { s.go t .reacq with tlock := update s.tlock t false }
  | .reacq => if s.lock = none then some { s.go t .waitTest with lock := some t } else none
  | .waitTest =>
    if s.wakeup = 0 then some (s.go t .cwLock)
    else some { s.go t .waitRel with wakeup := int32 (s.wakeup - 1) }
  | .waitRel => some { s.go t .out with lock := none, returned := s.returned + 1 }
  | .sigAcq => if s.lock = none then some { s.go t .sigInc with lock := some t } else none
  | .sigInc =>
    let v := int32 (s.value + 1)
    if v ≤ 0 then
      some { s.go t .sigPop with
        value := v
        wakeup := int32 (s.wakeup + 1)
        signals := s.signals + 1 }
    else some { s.go t .sigRel with value := v, signals := s.signals + 1 }
  | .sigPop =>
    match s.queue with
    | [] => some (s.go t .sigRel)
    | u :: q => some { s.go t (.sigLock u) with queue := q }
  | .sigLock u => if s.tlock u then none else some (s.wake t u)
  | .sigRel => some { s.go t .out with lock := none }

/-- One step of the system. A panic stops it. -/
def step (s : Sema T) : SemaAct T → Option (Sema T)
  | .wait t => if s.pc t = .out then some (s.go t .waitAcq) else none
  | .signal t =>
    if s.pc t = .out then some { s.go t .sigAcq with started := s.started + 1 } else none
  | .advance t => if s.panicked then none else s.advance t

/-- `sema_init`, with all threads outside. -/
def start (v : ℤ) : Sema T :=
  ⟨v, 0, none, [], fun _ => .out, fun _ => false, fun _ => .running, fun _ => false, false,
    0, 0, 0, 0⟩

end Sema

/-- The semaphore with the initial value `v`. -/
def semaphore (v : ℤ) : Machine (Sema T) (SemaAct T) where
  init s := s = Sema.start v
  step := Sema.step

/-- **The steps**, one constructor for each. -/
inductive SemaStep (s : Sema T) : SemaAct T → Sema T → Prop
  | wait {t} (hp : s.pc t = .out) : SemaStep s (.wait t) (s.go t .waitAcq)
  | signal {t} (hp : s.pc t = .out) :
      SemaStep s (.signal t) { s.go t .sigAcq with started := s.started + 1 }
  | waitAcq {t} (hp : s.pc t = .waitAcq) (hl : s.lock = none) :
      SemaStep s (.advance t) { s.go t .waitDec with lock := some t }
  | waitDec {t} (hp : s.pc t = .waitDec) :
      SemaStep s (.advance t)
        { s.go t (if int32 (s.value - 1) < 0 then .cwLock else .waitRel) with
          value := int32 (s.value - 1)
          waits := s.waits + 1 }
  | cwLock {t} (hp : s.pc t = .cwLock) :
      SemaStep s (.advance t)
        { s.go t .cwSleep with tlock := update s.tlock t true }
  | cwSleep {t} (hp : s.pc t = .cwSleep) :
      SemaStep s (.advance t)
        { s.go t .cwPush with state := update s.state t .sleeping }
  | cwPush {t} (hp : s.pc t = .cwPush) :
      SemaStep s (.advance t)
        { s.go t .cwRelease with
          queue := s.queue ++ [t]
          entry := update s.entry t true }
  | cwRelease {t} (hp : s.pc t = .cwRelease) :
      SemaStep s (.advance t) { s.go t .cwSched with lock := none }
  | cwSched {t} (hp : s.pc t = .cwSched) :
      SemaStep s (.advance t)
        { s.go t .asleep with tlock := update s.tlock t false }
  | asleep {t} (hp : s.pc t = .asleep) (hr : s.state t = .runnable) :
      SemaStep s (.advance t)
        { s.go t .woken with
          state := update s.state t .running
          tlock := update s.tlock t true }
  | woken {t} (hp : s.pc t = .woken) :
      SemaStep s (.advance t)
        { s.go t .reacq with tlock := update s.tlock t false }
  | reacq {t} (hp : s.pc t = .reacq) (hl : s.lock = none) :
      SemaStep s (.advance t) { s.go t .waitTest with lock := some t }
  | again {t} (hp : s.pc t = .waitTest) (hw : s.wakeup = 0) :
      SemaStep s (.advance t) (s.go t .cwLock)
  | waitTest {t} (hp : s.pc t = .waitTest) :
      SemaStep s (.advance t) { s.go t .waitRel with wakeup := int32 (s.wakeup - 1) }
  | waitRel {t} (hp : s.pc t = .waitRel) :
      SemaStep s (.advance t)
        { s.go t .out with lock := none, returned := s.returned + 1 }
  | sigAcq {t} (hp : s.pc t = .sigAcq) (hl : s.lock = none) :
      SemaStep s (.advance t) { s.go t .sigInc with lock := some t }
  | sigInc {t} (hp : s.pc t = .sigInc) (hv : int32 (s.value + 1) ≤ 0) :
      SemaStep s (.advance t)
        { s.go t .sigPop with
          value := int32 (s.value + 1)
          wakeup := int32 (s.wakeup + 1)
          signals := s.signals + 1 }
  | sigFree {t} (hp : s.pc t = .sigInc) (hv : ¬ int32 (s.value + 1) ≤ 0) :
      SemaStep s (.advance t)
        { s.go t .sigRel with value := int32 (s.value + 1), signals := s.signals + 1 }
  | sigNone {t} (hp : s.pc t = .sigPop) (hq : s.queue = []) :
      SemaStep s (.advance t) (s.go t .sigRel)
  | sigPop {t u q} (hp : s.pc t = .sigPop) (hq : s.queue = u :: q) :
      SemaStep s (.advance t) { s.go t (.sigLock u) with queue := q }
  | sigLock {t u} (hp : s.pc t = .sigLock u) (hl : s.tlock u = false) :
      SemaStep s (.advance t) (s.wake t u)
  | sigRel {t} (hp : s.pc t = .sigRel) :
      SemaStep s (.advance t) { s.go t .out with lock := none }

variable {s s' : Sema T} {a : SemaAct T} {t u : T}

theorem SemaStep.of_advance (h : s.advance t = some s') : SemaStep s (.advance t) s' := by
  unfold Sema.advance at h
  split at h
  case h_1 => cases h
  case h_2 hp =>
    obtain ⟨hl, rfl⟩ := guard_eq_some.1 h
    exact .waitAcq hp hl
  case h_3 hp => exact Option.some.inj h ▸ .waitDec hp
  case h_4 hp =>
    obtain ⟨-, rfl⟩ := Option.ite_none_left_eq_some.1 h |>.imp_right Option.some.inj
    exact .cwLock hp
  case h_5 hp => exact Option.some.inj h ▸ .cwSleep hp
  case h_6 hp => exact Option.some.inj h ▸ .cwPush hp
  case h_7 hp => exact Option.some.inj h ▸ .cwRelease hp
  case h_8 hp => exact Option.some.inj h ▸ .cwSched hp
  case h_9 hp =>
    obtain ⟨hr, rfl⟩ := guard_eq_some.1 h
    exact .asleep hp hr.1
  case h_10 hp => exact Option.some.inj h ▸ .woken hp
  case h_11 hp =>
    obtain ⟨hl, rfl⟩ := guard_eq_some.1 h
    exact .reacq hp hl
  case h_12 hp =>
    split at h
    · exact Option.some.inj h ▸ .again hp ‹_›
    · exact Option.some.inj h ▸ .waitTest hp
  case h_13 hp => exact Option.some.inj h ▸ .waitRel hp
  case h_14 hp =>
    obtain ⟨hl, rfl⟩ := guard_eq_some.1 h
    exact .sigAcq hp hl
  case h_15 hp =>
    dsimp only at h
    split at h
    · exact Option.some.inj h ▸ .sigInc hp ‹_›
    · exact Option.some.inj h ▸ .sigFree hp ‹_›
  case h_16 hp =>
    split at h
    · exact Option.some.inj h ▸ .sigNone hp ‹_›
    · exact Option.some.inj h ▸ .sigPop hp ‹_›
  case h_17 u hp =>
    obtain ⟨hl, rfl⟩ := Option.ite_none_left_eq_some.1 h |>.imp_right Option.some.inj
    exact .sigLock hp (by simpa using hl)
  case h_18 hp => exact Option.some.inj h ▸ .sigRel hp

theorem Sema.step_cases (h : s.step a = some s') : SemaStep s a s' := by
  cases a with
  | wait t =>
    obtain ⟨hp, rfl⟩ := guard_eq_some.1 h
    exact .wait hp
  | signal t =>
    obtain ⟨hp, rfl⟩ := guard_eq_some.1 h
    exact .signal hp
  | advance t => exact .of_advance (Option.ite_none_left_eq_some.1 h).2

/-! ### Locks -/

namespace SemaPc

variable {T : Type}

/-- The thread holds `sem_lock`. -/
def holds : SemaPc T → Bool
  | waitDec | cwLock | cwSleep | cwPush | cwRelease | waitTest | waitRel | sigInc | sigPop
  | sigLock _ | sigRel => true
  | _ => false

/-- The lock of the thread itself is held. -/
def selfLocked : SemaPc T → Bool
  | cwSleep | cwPush | cwRelease | cwSched | woken => true
  | _ => false

/-- The thread has linked itself on the queue. -/
def parked : SemaPc T → Bool
  | cwRelease | cwSched | asleep => true
  | _ => false

/-- The thread has linked itself on the queue and not switched away yet. -/
def linked : SemaPc T → Bool
  | cwRelease | cwSched => true
  | _ => false

/-- The thread neither is about to link itself nor has another thread in hand. -/
def plain : SemaPc T → Bool
  | cwPush | sigLock _ => false
  | _ => true

/-- The thread has found the value below zero, and has not used a wakeup yet. -/
def inLoop : SemaPc T → Bool
  | cwLock | cwSleep | cwPush | cwRelease | cwSched | asleep | woken | reacq | waitTest => true
  | _ => false

/-- The thread has not linked itself on the queue yet. -/
def pre : SemaPc T → Bool
  | cwLock | cwSleep | cwPush => true
  | _ => false

/-- The thread is about to return from `sema_wait`. -/
def leaving : SemaPc T → Bool
  | waitRel => true
  | _ => false

/-- The thread has called `sema_signal` and not yet incremented the value. -/
def starting : SemaPc T → Bool
  | sigAcq | sigInc => true
  | _ => false

/-- The thread has given a wakeup, and not yet taken a thread off the queue. -/
def popping : SemaPc T → Bool
  | sigPop => true
  | _ => false

end SemaPc

/-- **The locks say where the threads are.** -/
structure SemaWords (lock : Option T) (tlock : T → Bool) (pc : T → SemaPc T) : Prop where
  lock_iff : ∀ t, lock = some t ↔ (pc t).holds = true
  tlock_eq : ∀ t, tlock t = (pc t).selfLocked

section

variable {lock : Option T} {tlock : T → Bool} {pc : T → SemaPc T} {p : SemaPc T}

section

variable (h : SemaWords lock tlock pc)
include h

omit [DecidableEq T] in
/-- Only one thread holds `sem_lock`. -/
theorem SemaWords.excl (ht : (pc t).holds = true)
    (hu : (pc u).holds = true) : t = u :=
  Option.some.inj (((h.lock_iff t).2 ht).symm.trans ((h.lock_iff u).2 hu))

theorem SemaWords.change {lock' : Option T} {tlock' : T → Bool}
    (hlock : ∀ u, u ≠ t → (lock' = some u ↔ lock = some u))
    (htlock : ∀ u, u ≠ t → tlock' u = tlock u) (ht : lock' = some t ↔ p.holds = true)
    (ht' : tlock' t = p.selfLocked) : SemaWords lock' tlock' (update pc t p) := by
  refine ⟨fun u => ?_, fun u => ?_⟩
  · obtain rfl | hu := eq_or_ne u t
    · simpa using ht
    · rw [update_of_ne hu, hlock u hu, h.lock_iff u]
  · obtain rfl | hu := eq_or_ne u t
    · simpa using ht'
    · rw [update_of_ne hu, htlock u hu, h.tlock_eq u]

theorem SemaWords.go (hp : p.holds = (pc t).holds)
    (hp' : p.selfLocked = (pc t).selfLocked) : SemaWords lock tlock (update pc t p) :=
  h.change (fun _ _ => Iff.rfl) (fun _ _ => rfl) (hp ▸ h.lock_iff t) (hp' ▸ h.tlock_eq t)

theorem SemaWords.acquire (hl : lock = none)
    (hp : p.holds = true) (hp' : p.selfLocked = (pc t).selfLocked) :
    SemaWords (some t) tlock (update pc t p) :=
  h.change (fun u hu => by simp [hl, hu.symm]) (fun _ _ => rfl) (by simp [hp])
    (hp' ▸ h.tlock_eq t)

theorem SemaWords.release (ht : (pc t).holds = true)
    (hp : p.holds = false) (hp' : p.selfLocked = (pc t).selfLocked) :
    SemaWords none tlock (update pc t p) :=
  h.change (fun u hu => by simp [(h.lock_iff t).2 ht, hu.symm]) (fun _ _ => rfl) (by simp [hp])
    (hp' ▸ h.tlock_eq t)

theorem SemaWords.self (hp : p.holds = (pc t).holds) :
    SemaWords lock (update tlock t p.selfLocked) (update pc t p) :=
  h.change (fun _ _ => Iff.rfl) (fun _ hu => update_of_ne hu _ _)
    (hp ▸ h.lock_iff t) (by simp)

end

theorem SemaWords.step (h : SemaWords s.lock s.tlock s.pc) (hs : SemaStep s a s') :
    SemaWords s'.lock s'.tlock s'.pc := by
  cases hs with
  | wait hp | signal hp | cwSleep hp | cwPush hp | again hp | waitTest hp | sigInc hp
  | sigFree hp | sigNone hp | sigPop hp => exact h.go (by rw [hp]; rfl) (by rw [hp]; rfl)
  | waitAcq hp hl | reacq hp hl | sigAcq hp hl => exact h.acquire hl rfl (by rw [hp]; rfl)
  | waitDec hp =>
    refine h.go ?_ ?_
    · rw [hp]
      split <;> rfl
    · rw [hp]
      split <;> rfl
  | cwLock hp => exact h.self (p := .cwSleep) (by rw [hp]; rfl)
  | cwRelease hp | waitRel hp | sigRel hp =>
    exact h.release (by rw [hp]; rfl) rfl (by rw [hp]; rfl)
  | cwSched hp => exact h.self (p := .asleep) (by rw [hp]; rfl)
  | asleep hp => exact h.self (p := .woken) (by rw [hp]; rfl)
  | woken hp => exact h.self (p := .reacq) (by rw [hp]; rfl)
  | sigLock hp =>
    unfold Sema.wake
    split
    · exact h.go (by rw [hp]; rfl) (by rw [hp]; rfl)
    · exact h

end

/-! ### The queue -/

/-- The thread is on the queue, or `cond_signal` has just taken it off and is going to wake it. -/
def Listed (queue : List T) (pc : T → SemaPc T) (t : T) : Prop :=
  t ∈ queue ∨ ∃ u, pc u = .sigLock t

/-- **Who is on the queue**: threads that have parked themselves and sleep, each once. -/
structure SemaQueue (queue : List T) (pc : T → SemaPc T) (state : T → TcbState)
    (entry : T → Bool) : Prop where
  nodup : queue.Nodup
  popped : ∀ t u, pc t = .sigLock u → u ∉ queue
  parked : ∀ t, Listed queue pc t → (pc t).parked = true
  sleeping : ∀ t, state t = .sleeping ↔ pc t = .cwPush ∨ Listed queue pc t
  linked : ∀ t, (pc t).linked = true → state t = .sleeping
  entry : ∀ t, Listed queue pc t → entry t = true

section

variable {queue : List T} {pc : T → SemaPc T} {state : T → TcbState} {entry : T → Bool}
  {p : SemaPc T}

theorem listed_update (ht : ∀ v, pc t ≠ .sigLock v) (hp : ∀ v, p ≠ .sigLock v) :
    Listed queue (update pc t p) u ↔ Listed queue pc u := by
  refine or_congr_right (exists_congr fun v => ?_)
  obtain rfl | hv := eq_or_ne v t
  · simp [ht u, hp u]
  · rw [update_of_ne hv]

/-- What the place of a thread says of its state. -/
structure SemaOk (p : SemaPc T) (listed : Prop) (st : TcbState) (entry : Bool) : Prop where
  parked : listed → p.parked = true
  sleeping : st = .sleeping ↔ p = .cwPush ∨ listed
  linked : p.linked = true → st = .sleeping
  entry : listed → entry = true

section

variable (h : SemaQueue queue pc state entry)
include h

omit [DecidableEq T] in
theorem SemaQueue.not_listed
    (ht : (pc t).parked = false) : ¬ Listed queue pc t := by
  intro hl
  rw [h.parked t hl] at ht
  cases ht

/-- **A thread goes from one place to another**, and the others keep what their places say. -/
theorem SemaQueue.move {queue' : List T} {state' : T → TcbState} {entry' : T → Bool}
    (hnodup : queue'.Nodup) (hpopped : ∀ u v, update pc t p u = .sigLock v → v ∉ queue')
    (hself : SemaOk p (Listed queue' (update pc t p) t) (state' t) (entry' t))
    (hother : ∀ u ≠ t, SemaOk (pc u) (Listed queue pc u) (state u) (entry u) →
      SemaOk (pc u) (Listed queue' (update pc t p) u) (state' u) (entry' u)) :
    SemaQueue queue' (update pc t p) state' entry' := by
  have hok : ∀ u, SemaOk (update pc t p u) (Listed queue' (update pc t p) u) (state' u)
      (entry' u) := by
    intro u
    obtain rfl | hu := eq_or_ne u t
    · simpa using hself
    · rw [update_of_ne hu]
      exact hother u hu ⟨h.parked u, h.sleeping u, h.linked u, h.entry u⟩
  exact ⟨hnodup, hpopped, fun u => (hok u).parked, fun u => (hok u).sleeping,
    fun u => (hok u).linked, fun u => (hok u).entry⟩

theorem SemaQueue.change {state' : T → TcbState}
    (ht : ∀ v, pc t ≠ .sigLock v) (hp : ∀ v, p ≠ .sigLock v)
    (hpark : Listed queue pc t → p.parked = true) (hstate : ∀ u, u ≠ t → state' u = state u)
    (hself : state' t = .sleeping ↔ p = .cwPush ∨ Listed queue pc t)
    (hlink : p.linked = true → state' t = .sleeping) :
    SemaQueue queue (update pc t p) state' entry := by
  refine h.move h.nodup (fun u v hu => ?_) ?_ fun u hut hok => ?_
  · obtain rfl | hut := eq_or_ne u t
    · simp [hp v] at hu
    · rw [update_of_ne hut] at hu
      exact h.popped u v hu
  · rw [listed_update ht hp]
    exact ⟨hpark, hself, hlink, h.entry t⟩
  · rwa [listed_update ht hp, hstate u hut]

theorem SemaQueue.go (ht : (pc t).plain = true)
    (hp : p.plain = true) (hpark : ((pc t).parked && !p.parked) = false)
    (hlink : (p.linked && !(pc t).linked) = false) :
    SemaQueue queue (update pc t p) state entry := by
  refine h.change (fun v hv => ?_) (fun v hv => ?_)
    (fun hl => by simpa [h.parked t hl] using hpark) (fun _ _ => rfl) ?_
    fun hl => h.linked t (by simpa [hl] using hlink)
  · rw [hv] at ht
    cases ht
  · rw [hv] at hp
    cases hp
  · have hpush : pc t ≠ .cwPush := by
      intro hcw
      rw [hcw] at ht
      cases ht
    have hpush' : p ≠ .cwPush := by
      rintro rfl
      cases hp
    simp [h.sleeping t, hpush, hpush']

theorem SemaQueue.push (ht : pc t = .cwPush) :
    SemaQueue (queue ++ [t]) (update pc t .cwRelease) state
      (update entry t true) := by
  have hnot := h.not_listed (t := t) (by rw [ht]; rfl)
  have hsleep := (h.sleeping t).2 (.inl ht)
  have hlisted : ∀ u, Listed (queue ++ [t]) (update pc t .cwRelease) u ↔
      u = t ∨ Listed queue pc u := by
    intro u
    rw [listed_update (by simp [ht]) (by simp), Listed, List.mem_append, List.mem_singleton, Listed]
    tauto
  refine h.move ?_ (fun u v hu => ?_) ?_ fun u hut hok => ?_
  · simpa using h.nodup.concat fun hmem => hnot (.inl hmem)
  · have hut : u ≠ t := by
      rintro rfl
      simp at hu
    rw [update_of_ne hut] at hu
    have hv : v ≠ t := by
      rintro rfl
      exact hnot (.inr ⟨u, hu⟩)
    simp [hv, h.popped u v hu]
  · exact ⟨fun _ => rfl, by simp [hlisted, hsleep], fun _ => hsleep, by simp⟩
  · simpa [hlisted, hut] using hok

end

theorem SemaQueue.pop (h : SemaQueue (u :: queue) pc state entry) (ht : pc t = .sigPop) :
    SemaQueue queue (update pc t (.sigLock u)) state entry := by
  have hnot := h.not_listed (t := t) (by rw [ht]; rfl)
  have hlisted : ∀ v, Listed queue (update pc t (.sigLock u)) v ↔
      Listed (u :: queue) pc v := by
    intro v
    have hsig : (∃ w, update pc t (.sigLock u) w = .sigLock v) ↔
        v = u ∨ ∃ w, pc w = .sigLock v := by
      constructor
      · rintro ⟨w, hw⟩
        obtain rfl | hwt := eq_or_ne w t
        · exact .inl (by simpa using hw.symm)
        · rw [update_of_ne hwt] at hw
          exact .inr ⟨w, hw⟩
      · rintro (rfl | ⟨w, hw⟩)
        · exact ⟨t, by simp⟩
        · refine ⟨w, ?_⟩
          have hwt : w ≠ t := by
            rintro rfl
            simp [ht] at hw
          rw [update_of_ne hwt, hw]
    simp only [Listed, hsig, List.mem_cons]
    tauto
  refine h.move h.nodup.of_cons (fun v w hv => ?_) ?_ fun v _ hok => ?_
  · obtain rfl | hvt := eq_or_ne v t
    · obtain rfl : u = w := by simpa using hv
      exact (List.nodup_cons.1 h.nodup).1
    · rw [update_of_ne hvt] at hv
      exact fun hmem => h.popped v w hv (List.mem_cons_of_mem u hmem)
  · rw [hlisted]
    exact ⟨fun hl => absurd hl hnot, by simp [h.sleeping t, ht], nofun, h.entry t⟩
  · rwa [hlisted]

theorem SemaQueue.wake (h : SemaQueue queue pc state entry) (ht : pc t = .sigLock u)
    (hu : (pc u).selfLocked = false) (hone : ∀ v w, pc v = .sigLock w → v = t) :
    SemaQueue queue (update pc t .sigRel) (update state u .runnable)
      (update entry u false) := by
  have hnone : ∀ w v, update pc t .sigRel w ≠ .sigLock v := by
    intro w v hw
    obtain rfl | hwt := eq_or_ne w t
    · simp at hw
    · rw [update_of_ne hwt] at hw
      exact hwt (hone w v hw)
  have hlisted : ∀ v, Listed queue (update pc t .sigRel) v ↔
      v ≠ u ∧ Listed queue pc v := by
    intro v
    constructor
    · rintro (hmem | ⟨w, hw⟩)
      · refine ⟨?_, .inl hmem⟩
        rintro rfl
        exact h.popped t v ht hmem
      · exact absurd hw (hnone w v)
    · rintro ⟨hvu, hmem | ⟨w, hw⟩⟩
      · exact .inl hmem
      · obtain rfl := hone w v hw
        rw [ht] at hw
        exact absurd (SemaPc.sigLock.inj hw).symm hvu
  have hasleep : pc u = .asleep := by
    have hpk := h.parked u (.inr ⟨t, ht⟩)
    revert hpk hu
    cases pc u <;> simp [SemaPc.parked, SemaPc.selfLocked]
  have hnot := h.not_listed (t := t) (by rw [ht]; rfl)
  refine h.move h.nodup (fun v w hv => absurd hv (hnone v w)) ?_ fun v _ hok => ?_
  · have htu : t ≠ u := by
      rintro rfl
      simp [ht] at hasleep
    rw [hlisted, update_of_ne htu, update_of_ne htu]
    exact ⟨fun hl => absurd hl.2 hnot, by simp [h.sleeping t, ht, hnot], nofun,
      fun hl => absurd hl.2 hnot⟩
  · obtain rfl | hvu := eq_or_ne v u
    · exact ⟨by simp [hlisted], by simp [hlisted, hasleep], by simp [hasleep, SemaPc.linked],
        by simp [hlisted]⟩
    · simpa [hlisted, hvu] using hok

/-- **The queue is kept by every step**, and `cond_signal` does not panic. -/
theorem SemaQueue.step (h : SemaQueue s.queue s.pc s.state s.entry)
    (hw : SemaWords s.lock s.tlock s.pc) (hs : SemaStep s a s') :
    SemaQueue s'.queue s'.pc s'.state s'.entry ∧ s'.panicked = s.panicked := by
  cases hs with
  | wait hp | signal hp | waitAcq hp | cwLock hp | cwRelease hp | cwSched hp | woken hp
  | reacq hp | again hp | waitTest hp | waitRel hp | sigAcq hp | sigInc hp | sigFree hp
  | sigNone hp | sigRel hp =>
    exact ⟨h.go (by rw [hp]; rfl) rfl (by rw [hp]; rfl) (by rw [hp]; rfl), rfl⟩
  | waitDec hp =>
    refine ⟨h.go (by rw [hp]; rfl) ?_ (by rw [hp]; rfl) ?_, rfl⟩
    · split <;> rfl
    · rw [hp]
      split <;> rfl
  | @cwSleep t hp =>
    have hnot := h.not_listed (t := t) (by rw [hp]; rfl)
    refine ⟨h.change (by simp [hp]) (by simp) (fun hl => absurd hl hnot)
      (fun u hu => update_of_ne hu _ _) (by simp) (fun _ => by simp), rfl⟩
  | cwPush hp => exact ⟨h.push hp, rfl⟩
  | @asleep t hp hr =>
    have hnot : ¬ Listed s.queue s.pc t := by
      intro hl
      have hsl := (h.sleeping t).2 (.inr hl)
      rw [hr] at hsl
      cases hsl
    refine ⟨h.change (by simp [hp]) (by simp) (fun hl => absurd hl hnot)
      (fun u hu => update_of_ne hu _ _) (by simp [hnot]) (fun hf => by cases hf), rfl⟩
  | sigPop hp hq =>
    rw [hq] at h
    exact ⟨h.pop hp, rfl⟩
  | @sigLock t u hp hl =>
    have hsl := (h.sleeping u).2 (.inr (.inr ⟨t, hp⟩))
    have hen := h.entry u (.inr ⟨t, hp⟩)
    rw [Sema.wake, if_pos ⟨hsl, hen⟩]
    refine ⟨h.wake hp (hw.tlock_eq u ▸ hl) fun v w hv => ?_, rfl⟩
    exact hw.excl (by rw [hv]; rfl) (by rw [hp]; rfl)

end

/-! ### The counts -/

section

variable [Fintype T]

/-- How many threads are at a place of the kind `q`. -/
def countAt (pc : T → SemaPc T) (q : SemaPc T → Bool) : ℕ :=
  tally (fun p => q p = true) pc

/-- **How the counts go together.** Every thread that found the value below zero and has not left
is accounted for by the value or by a wakeup, and the queue by the value alone. -/
structure SemaCounts (v : ℤ) (s : Sema T) : Prop where
  value_le : -2 ^ 31 ≤ s.value
  value_lt : s.value < 2 ^ 31
  wakeup_nonneg : 0 ≤ s.wakeup
  wakeup_lt : s.wakeup < 2 ^ 31
  value_eq : s.value = v + s.signals - s.waits
  waits_eq : (s.waits : ℤ) =
    s.returned + countAt s.pc SemaPc.leaving + countAt s.pc SemaPc.inLoop
  started_eq : (s.started : ℤ) = s.signals + countAt s.pc SemaPc.starting
  loop_eq : (countAt s.pc SemaPc.inLoop : ℤ) = max 0 (-s.value) + s.wakeup
  queue_eq : (s.queue.length : ℤ) + countAt s.pc SemaPc.pre =
    max 0 (-s.value) + countAt s.pc SemaPc.popping

/-- No word wraps in this step. -/
def inRange (s : Sema T) : SemaAct T → Prop
  | .advance t =>
    (s.pc t = .waitDec → -2 ^ 31 ≤ s.value - 1) ∧
      (s.pc t = .sigInc → s.value + 1 < 2 ^ 31 ∧ s.wakeup + 1 < 2 ^ 31)
  | _ => True

variable {v : ℤ}

/-- What a thread adds to a count by going from `p` to `q`. -/
def gain (kind : SemaPc T → Bool) (p q : SemaPc T) : ℤ :=
  (kind q).toNat - (kind p).toNat

variable {pc : T → SemaPc T} {p q : SemaPc T}

theorem countAt_update (hp : pc t = p) (kind : SemaPc T → Bool) :
    (countAt (update pc t q) kind : ℤ) = countAt pc kind + gain kind p q := by
  subst hp
  rw [countAt, tally_update, countAt, gain]
  cases kind (pc t) <;> cases kind q <;> simp
  omega

/-- What a step of a thread adds to the counts. -/
structure Gains where
  leaving : ℤ
  inLoop : ℤ
  starting : ℤ
  pre : ℤ
  popping : ℤ

/-- The gains of a thread that goes from `p` to `q`. -/
def gains (p q : SemaPc T) : Gains :=
  ⟨gain SemaPc.leaving p q, gain SemaPc.inLoop p q, gain SemaPc.starting p q,
    gain SemaPc.pre p q, gain SemaPc.popping p q⟩

/-- **A step of one thread**: the words stay in range, and what they gain or lose is what the
counts do. -/
theorem SemaCounts.change {g : Gains} (h : SemaCounts v s) (hp : s.pc t = p)
    (hpc : s'.pc = update s.pc t q) (hg : gains p q = g)
    (hv : -2 ^ 31 ≤ s'.value ∧ s'.value < 2 ^ 31) (hw : 0 ≤ s'.wakeup ∧ s'.wakeup < 2 ^ 31)
    (hvalue : s'.value = v + s'.signals - s'.waits)
    (hwaits : (s'.waits : ℤ) - s.waits = s'.returned - s.returned + g.leaving + g.inLoop)
    (hstarted : (s'.started : ℤ) - s.started = s'.signals - s.signals + g.starting)
    (hloop : g.inLoop + max 0 (-s.value) + s.wakeup = max 0 (-s'.value) + s'.wakeup)
    (hqueue : (s'.queue.length : ℤ) - s.queue.length + g.pre + max 0 (-s.value) =
      max 0 (-s'.value) + g.popping) : SemaCounts v s' := by
  subst hg
  simp only [gains] at hwaits hstarted hloop hqueue
  have hwe := h.waits_eq
  have hse := h.started_eq
  have hle := h.loop_eq
  have hqe := h.queue_eq
  refine ⟨hv.1, hv.2, hw.1, hw.2, hvalue, ?_, ?_, ?_, ?_⟩
  · rw [hpc, countAt_update hp, countAt_update hp]
    omega
  · rw [hpc, countAt_update hp]
    omega
  · rw [hpc, countAt_update hp]
    omega
  · rw [hpc, countAt_update hp, countAt_update hp]
    omega

omit [DecidableEq T] in
theorem SemaWords.count_pre {lock : Option T} {tlock : T → Bool}
    (h : SemaWords lock tlock pc) (ht : (pc t).holds = true) (hp : (pc t).pre = false) :
    countAt pc SemaPc.pre = 0 := by
  refine tally_eq_zero.2 fun u hu => ?_
  have hut : u = t := by
    refine h.excl ?_ ht
    revert hu
    cases pc u <;> simp [SemaPc.pre, SemaPc.holds]
  subst hut
  rw [hp] at hu
  cases hu

/-- **A thread that tests `wakeup` finds one**: it is neither on the queue nor about to link
itself, so more threads are in the loop than the value accounts for. -/
theorem SemaCounts.one_le_wakeup (h : SemaCounts v s) (hw : SemaWords s.lock s.tlock s.pc)
    (hq : SemaQueue s.queue s.pc s.state s.entry) (ht : s.pc t = .waitTest) :
    1 ≤ s.wakeup := by
  have hpre := hw.count_pre (t := t) (by rw [ht]; rfl) (by rw [ht]; rfl)
  have hsub : insert t s.queue.toFinset ⊆
      Finset.univ.filter fun u => (s.pc u).inLoop = true := by
    intro u hu
    rw [Finset.mem_filter]
    refine ⟨Finset.mem_univ u, ?_⟩
    obtain rfl | hu := Finset.mem_insert.1 hu
    · rw [ht]
      rfl
    · have hpk := hq.parked u (.inl (List.mem_toFinset.1 hu))
      revert hpk
      cases s.pc u <;> simp [SemaPc.parked, SemaPc.inLoop]
  have hnot : t ∉ s.queue.toFinset := by
    intro hmem
    have hpk := hq.parked t (.inl (List.mem_toFinset.1 hmem))
    simp [ht, SemaPc.parked] at hpk
  have hcard := Finset.card_le_card hsub
  rw [Finset.card_insert_of_notMem hnot, List.toFinset_card_of_nodup hq.nodup] at hcard
  have hloop := h.loop_eq
  have hqueue := h.queue_eq
  have hin : (s.queue.length + 1 : ℤ) ≤ countAt s.pc SemaPc.inLoop := by exact_mod_cast hcard
  rw [hpre] at hqueue
  omega

theorem SemaCounts.step (h : SemaCounts v s) (hw : SemaWords s.lock s.tlock s.pc)
    (hq : SemaQueue s.queue s.pc s.state s.entry) (hr : inRange s a) (hs : SemaStep s a s') :
    SemaCounts v s' := by
  have hv := h.value_eq
  have hvr := And.intro h.value_le h.value_lt
  have hwr := And.intro h.wakeup_nonneg h.wakeup_lt
  cases hs with
  | wait hp | waitAcq hp | cwLock hp | cwSleep hp | cwRelease hp | cwSched hp | asleep hp
  | woken hp | reacq hp | sigAcq hp | sigRel hp =>
    refine h.change (g := ⟨0, 0, 0, 0, 0⟩) hp rfl rfl hvr hwr hv ?_ ?_ ?_ ?_
    all_goals dsimp only [Sema.go]; omega
  | signal hp =>
    refine h.change (g := ⟨0, 0, 1, 0, 0⟩) hp rfl rfl hvr hwr hv ?_ ?_ ?_ ?_
    all_goals dsimp only [Sema.go]; omega
  | waitDec hp =>
    have heq : int32 (s.value - 1) = s.value - 1 := int32_of_range (hr.1 hp) (by omega)
    rw [heq]
    by_cases hneg : s.value - 1 < 0
    · rw [if_pos hneg]
      refine h.change (g := ⟨0, 1, 0, 1, 0⟩) hp rfl rfl ⟨hr.1 hp, ?_⟩ hwr ?_ ?_ ?_ ?_ ?_
      all_goals dsimp only [Sema.go]; omega
    · rw [if_neg hneg]
      refine h.change (g := ⟨1, 0, 0, 0, 0⟩) hp rfl rfl ⟨hr.1 hp, ?_⟩ hwr ?_ ?_ ?_ ?_ ?_
      all_goals dsimp only [Sema.go]; omega
  | @cwPush t hp =>
    have hlen : (s.queue ++ [t]).length = s.queue.length + 1 := by simp
    refine h.change (g := ⟨0, 0, 0, -1, 0⟩) hp rfl rfl hvr hwr hv ?_ ?_ ?_ ?_
    all_goals dsimp only [Sema.go]; omega
  | again hp h0 =>
    have hone := h.one_le_wakeup hw hq hp
    omega
  | waitTest hp =>
    have hone := h.one_le_wakeup hw hq hp
    have heq : int32 (s.wakeup - 1) = s.wakeup - 1 := int32_of_range (by omega) (by omega)
    rw [heq]
    refine h.change (g := ⟨1, -1, 0, 0, 0⟩) hp rfl rfl hvr ⟨?_, ?_⟩ hv ?_ ?_ ?_ ?_
    all_goals dsimp only [Sema.go]; omega
  | waitRel hp =>
    refine h.change (g := ⟨-1, 0, 0, 0, 0⟩) hp rfl rfl hvr hwr hv ?_ ?_ ?_ ?_
    all_goals dsimp only [Sema.go]; omega
  | sigInc hp hle =>
    obtain ⟨hr1, hr2⟩ := hr.2 hp
    have heq : int32 (s.value + 1) = s.value + 1 := int32_of_range (by omega) hr1
    have heq' : int32 (s.wakeup + 1) = s.wakeup + 1 := int32_of_range (by omega) hr2
    rw [heq] at hle ⊢
    rw [heq']
    refine h.change (g := ⟨0, 0, -1, 0, 1⟩) hp rfl rfl ⟨?_, hr1⟩ ⟨?_, hr2⟩ ?_ ?_ ?_ ?_ ?_
    all_goals dsimp only [Sema.go]; omega
  | sigFree hp hle =>
    obtain ⟨hr1, -⟩ := hr.2 hp
    have heq : int32 (s.value + 1) = s.value + 1 := int32_of_range (by omega) hr1
    rw [heq] at hle ⊢
    refine h.change (g := ⟨0, 0, -1, 0, 0⟩) hp rfl rfl ⟨?_, hr1⟩ hwr ?_ ?_ ?_ ?_ ?_
    all_goals dsimp only [Sema.go]; omega
  | @sigNone t hp hnil =>
    -- the queue is not empty: it is one longer than the value says
    have hpre := hw.count_pre (t := t) (by rw [hp]; rfl) (by rw [hp]; rfl)
    have hpop : 1 ≤ countAt s.pc SemaPc.popping := one_le_tally (a := t) (by rw [hp]; rfl)
    have hqe := h.queue_eq
    rw [hnil, hpre] at hqe
    simp only [List.length_nil] at hqe
    omega
  | @sigPop t u q hp hcons =>
    have hlen : (u :: q).length = q.length + 1 := rfl
    rw [← hcons] at hlen
    refine h.change (g := ⟨0, 0, 0, 0, -1⟩) hp rfl rfl hvr hwr hv ?_ ?_ ?_ ?_
    all_goals dsimp only [Sema.go]; omega
  | @sigLock t u hp =>
    unfold Sema.wake
    split
    · refine h.change (g := ⟨0, 0, 0, 0, 0⟩) hp rfl rfl hvr hwr hv ?_ ?_ ?_ ?_
      all_goals dsimp only [Sema.go]; omega
    · exact ⟨hvr.1, hvr.2, hwr.1, hwr.2, hv, h.waits_eq, h.started_eq, h.loop_eq, h.queue_eq⟩

/-! ### Counting -/

/-- The invariants of a semaphore. -/
structure SemaInv (v : ℤ) (s : Sema T) : Prop where
  words : SemaWords s.lock s.tlock s.pc
  queue : SemaQueue s.queue s.pc s.state s.entry
  counts : SemaCounts v s
  calm : s.panicked = false

theorem semaInv_of_reach (hv : 0 ≤ v) (hv' : v < 2 ^ 31)
    (h : (semaphore v).Reach inRange s) : SemaInv v s := by
  refine h.invariant ?_ ?_
  · rintro s rfl
    have hzero : ∀ k : SemaPc T → Bool, k .out = false →
        countAt (fun _ : T => SemaPc.out) k = 0 :=
      fun k hk => tally_eq_zero.2 fun t ht => by simp [hk] at ht
    refine ⟨⟨by simp [Sema.start, SemaPc.holds], fun _ => rfl⟩,
      ⟨by simp [Sema.start], by simp [Sema.start], by simp [Sema.start, Listed],
        by simp [Sema.start, Listed], by simp [Sema.start, SemaPc.linked],
        by simp [Sema.start, Listed]⟩,
      ⟨by simp [Sema.start]; omega, hv', le_rfl, by simp [Sema.start], by simp [Sema.start],
        ?_, ?_, ?_, ?_⟩, rfl⟩
    · simp [Sema.start, hzero SemaPc.leaving rfl, hzero SemaPc.inLoop rfl]
    · simp [Sema.start, hzero SemaPc.starting rfl]
    · simp [Sema.start, hzero SemaPc.inLoop rfl, hv]
    · simp [Sema.start, hzero SemaPc.pre rfl, hzero SemaPc.popping rfl, hv]
  · rintro s a s' ⟨hw, hq, hc, hcalm⟩ hr hs
    have hstep := Sema.step_cases hs
    obtain ⟨hq', hpanic⟩ := hq.step hw hstep
    exact ⟨hw.step hstep, hq', hc.step hw hq hr hstep, hpanic.trans hcalm⟩

/-- The number of the threads blocked in `sema_wait`. -/
def Sema.blocked (s : Sema T) : ℕ :=
  tally (fun st => st = .sleeping) s.state

/-- A woken thread that is still on its way out of `cond_wait`. -/
def Sema.onWay (s : Sema T) (t : T) : Prop :=
  (s.pc t = .asleep ∧ s.state t ≠ .sleeping) ∨ s.pc t = .woken ∨ s.pc t = .reacq ∨
    s.pc t = .waitTest

section

variable (h : SemaInv v s)
include h

section

variable (hl : s.lock = none)
include hl

omit [DecidableEq T] in
theorem SemaInv.free (t : T) :
    (s.pc t).holds = false := by
  by_contra ht
  have hlock := (h.words.lock_iff t).2 (by simpa using ht)
  simp [hl] at hlock

omit [DecidableEq T] in
/-- While `sem_lock` is free, nobody is at a place that needs it. -/
theorem SemaInv.countAt_eq_zero (k : SemaPc T → Bool)
    (hk : ∀ p, k p = true → p.holds = true) : countAt s.pc k = 0 := by
  refine tally_eq_zero.2 fun t ht => ?_
  have hfree := h.free hl t
  rw [hk _ ht] at hfree
  cases hfree

/-- While `sem_lock` is free, the threads that sleep are those on the queue. -/
theorem SemaInv.blocked_eq :
    s.blocked = s.queue.length := by
  have hfree := h.free hl
  have hset : (Finset.univ.filter fun t => s.state t = .sleeping) = s.queue.toFinset := by
    ext t
    rw [Finset.mem_filter, List.mem_toFinset, h.queue.sleeping t]
    constructor
    · rintro ⟨-, hp | hq | ⟨u, hu⟩⟩
      · simpa [hp, SemaPc.holds] using hfree t
      · exact hq
      · simpa [hu, SemaPc.holds] using hfree u
    · exact fun hq => ⟨Finset.mem_univ t, .inr (.inl hq)⟩
  rw [Sema.blocked, tally, hset, List.toFinset_card_of_nodup h.queue.nodup]

omit [DecidableEq T] in
theorem SemaInv.length_eq :
    (s.queue.length : ℤ) = max 0 (s.waits - v - s.signals) := by
  have hpre := h.countAt_eq_zero hl SemaPc.pre fun p => by
    cases p <;> simp [SemaPc.pre, SemaPc.holds]
  have hpop := h.countAt_eq_zero hl SemaPc.popping fun p => by
    cases p <;> simp [SemaPc.popping, SemaPc.holds]
  have hqe := h.counts.queue_eq
  have hve := h.counts.value_eq
  rw [hpre, hpop] at hqe
  omega

theorem SemaInv.loop_le (hway : ∀ t, ¬ s.onWay t) :
    countAt s.pc SemaPc.inLoop ≤ s.queue.length := by
  rw [← h.blocked_eq hl]
  refine Finset.card_le_card fun t ht => ?_
  rw [Finset.mem_filter] at ht ⊢
  refine ⟨ht.1, ?_⟩
  have hin := ht.2
  have hfree := h.free hl t
  have hno := hway t
  have hlink := h.queue.linked t
  simp only [Sema.onWay, not_or, not_and, not_not] at hno
  revert hin hfree hno hlink
  cases s.pc t <;> simp [SemaPc.inLoop, SemaPc.holds, SemaPc.linked]

end

end

/-- **A semaphore counts**, in every run in which no word wraps. At all times no more calls of
`sema_wait` have returned than the initial value and the calls of `sema_signal` allow. Whenever
`sem_lock` is free, as many threads sleep in `sema_wait` as decrements exceed the initial value
and the increments; and if no woken thread is on its way out of `cond_wait`, these are all the
threads that have decremented the value and not returned. -/
theorem sema_counts (hv : 0 ≤ v) (hv' : v < 2 ^ 31) (h : (semaphore v).Reach inRange s) :
    (s.returned : ℤ) ≤ v + s.started ∧
    (s.lock = none → (s.blocked : ℤ) = max 0 (s.waits - v - s.signals)) ∧
    (s.lock = none → (∀ t, ¬ s.onWay t) →
      (s.waits : ℤ) - s.returned = max 0 (s.waits - v - s.signals)) := by
  have hi := semaInv_of_reach hv hv' h
  have hwe := hi.counts.waits_eq
  have hse := hi.counts.started_eq
  have hle := hi.counts.loop_eq
  have hve := hi.counts.value_eq
  have hnn := hi.counts.wakeup_nonneg
  refine ⟨by omega, fun hl => ?_, fun hl hway => ?_⟩
  · rw [hi.blocked_eq hl, hi.length_eq hl]
  · have hleave := hi.countAt_eq_zero hl SemaPc.leaving fun p => by
      cases p <;> simp [SemaPc.leaving, SemaPc.holds]
    have hloop := hi.loop_le hl hway
    have hlen := hi.length_eq hl
    omega

end

/-! ### Runs -/

instance [Fintype T] (s : Sema T) : (a : SemaAct T) → Decidable (inRange s a)
  | .advance t => inferInstanceAs (Decidable
      ((s.pc t = .waitDec → -2 ^ 31 ≤ s.value - 1) ∧
        (s.pc t = .sigInc → s.value + 1 < 2 ^ 31 ∧ s.wakeup + 1 < 2 ^ 31)))
  | .wait _ => .isTrue trivial
  | .signal _ => .isTrue trivial

/-- `n` steps of a thread. -/
def semaSteps (t : Fin 2) (n : ℕ) : List (SemaAct (Fin 2)) :=
  List.replicate n (.advance t)

/-- Thread 0 waits on a semaphore of value 0 and falls asleep; thread 1 signals it, and waits. -/
def waitRun : List (SemaAct (Fin 2)) :=
  .wait 0 :: semaSteps 0 7 ++ .signal 1 :: semaSteps 1 5 ++ .wait 1 :: semaSteps 1 7

/-- There have been two waits and a signal, and one thread is blocked. -/
theorem sema_counts_wait : ∃ s : Sema (Fin 2), (semaphore 0).exec (Sema.start 0) waitRun = some s ∧
    s.lock = none ∧ s.waits = 2 ∧ s.signals = 1 ∧ (s.blocked : ℤ) = 1 := by
  obtain ⟨s, hs, hl, hwt, hsg⟩ : ∃ s ∈ (semaphore 0).exec (Sema.start 0) waitRun,
      s.lock = none ∧ s.waits = 2 ∧ s.signals = 1 := by
    decide +kernel
  have hreach : (semaphore 0).Reach inRange s :=
    (Machine.Reach.init rfl).exec_along (by decide +kernel) hs
  have hcount := (sema_counts le_rfl (by decide) hreach).2.1 hl
  rw [hwt, hsg] at hcount
  exact ⟨s, hs, hl, hwt, hsg, hcount⟩

/-- On a semaphore of the largest value, thread 0 signals twice; then thread 1 waits. -/
def wrapRun : List (SemaAct (Fin 2)) :=
  .signal 0 :: semaSteps 0 4 ++ .signal 0 :: semaSteps 0 4 ++ .wait 1 :: semaSteps 1 7

/-- **The value wraps.** It is below zero after two signals, and the one thread that waits
blocks. -/
theorem sema_wraps : ∃ s : Sema (Fin 2), (semaphore (2 ^ 31 - 1)).Reach Machine.anyStep s ∧
    s.lock = none ∧ (∀ t, ¬ s.onWay t) ∧ s.waits = 1 ∧ s.signals = 2 ∧ s.blocked = 1 ∧
    (s.blocked : ℤ) ≠ max 0 ((s.waits : ℤ) - (2 ^ 31 - 1) - s.signals) := by
  obtain ⟨s, hs, hl, ⟨hpc0, hpc1, hst⟩, hwt, hsg, hbl⟩ :
      ∃ s ∈ (semaphore (2 ^ 31 - 1)).exec (Sema.start (2 ^ 31 - 1)) wrapRun, s.lock = none ∧
        (s.pc 0 = .out ∧ s.pc 1 = .asleep ∧ s.state 1 = .sleeping) ∧
        s.waits = 1 ∧ s.signals = 2 ∧ s.blocked = 1 := by
    decide +kernel
  refine ⟨s, Machine.reach_of_exec rfl hs, hl, fun t => ?_, hwt, hsg, hbl, ?_⟩
  · obtain rfl | rfl : t = 0 ∨ t = 1 := by omega
    · simp [Sema.onWay, hpc0]
    · simp [Sema.onWay, hpc1, hst]
  · rw [hbl, hwt, hsg]
    decide

end XVapor
