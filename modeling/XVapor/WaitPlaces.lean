import XVapor.Ownership
import XVapor.WaitTable

/-!
# The Places of a Waiting Thread

A thread that waits on a futex or a condition is linked on the queue, or in the hand of a
waker that has popped it and has not made it `RUNNABLE` yet. The queue it belongs on, its
home, is read off its own fields and its program counter. This module states the membership
of threads on the waiting queues, and the invariant it follows from: every thread with a
home is in exactly one of these places, with the thread locks held as the program counters
say.
-/

namespace XVapor.Wait

open Function
open FutexTable

variable {T : Type} [DecidableEq T]

/-! ### The places of a thread -/

/-- The queue a thread belongs on, by its own fields: from the push on, and while it sleeps
with its `wait_chan_entry` set. -/
def homeOf (st : TcbState) (wc : Option QRef) : Pc T → Option QRef
  | .enq .chan q _ _ => some q
  | .enq .timeout q _ _ => some q
  | .enq .sched q _ _ => some q
  | .asleep _ => if st = .sleeping then wc else none
  | _ => none

def home (s : WState T) (t : T) : Option QRef :=
  homeOf (s.state t) (s.waitChan t) (s.pc t)

/-- The thread a waker has popped and not made `RUNNABLE` yet, and from where. -/
def hand : Pc T → Option (T × QRef)
  | .wake (.check t) q _ => some (t, q)
  | .wake (.lock t) q _ => some (t, q)
  | .wake (.body t) q _ => some (t, q)
  | _ => none

/-- A waker has popped the thread and not taken its lock yet. -/
def Popped (s : WState T) (a t : T) (q : QRef) : Prop :=
  ∃ kind, s.pc a = .wake (.check t) q kind ∨ s.pc a = .wake (.lock t) q kind

/-- **The membership of threads on waiting queues.** A thread whose lock is free is linked
on a queue exactly if it sleeps with its `wait_chan_entry` there and no waker has just
popped it, and one that was just popped is on no queue; it occurs at most once, on at most
one queue. And no waker has found a thread that is not sleeping. -/
structure WaitQueuesOk (s : WState T) : Prop where
  linked : ∀ t q, s.lock t = none →
    (t ∈ s.queue q ↔
      s.state t = .sleeping ∧ s.waitChan t = some q ∧ ∀ a, ¬ Popped s a t q)
  popped : ∀ t q a, s.lock t = none → Popped s a t q →
    s.state t = .sleeping ∧ s.waitChan t = some q ∧ ∀ q', t ∉ s.queue q'
  once : ∀ t q, (s.queue q).count t ≤ 1
  one : ∀ t q q', t ∈ s.queue q → t ∈ s.queue q' → q = q'
  calm : ∀ (kind : WakeKind) st, s.fault ≠ some (kind.notSleeping st)

/-! ### The invariant -/

/-- What the program counter of a thread says about its state, its `wait_chan_entry` and
its `chan`. -/
def LocalOk (st : TcbState) (wc : Option QRef) (chan : ℕ) : Pc T → Prop
  | .enq .push _ _ _ => st = .sleeping ∧ wc = none ∧ chan = 0
  | .enq .chan _ _ _ => st = .sleeping ∧ wc = none ∧ chan = 0
  | .enq .timeout q _ _ => st = .sleeping ∧ wc = some q ∧ chan = 0
  | .enq .sched q _ _ => st = .sleeping ∧ wc = some q ∧ chan = 0
  | .slp .sched _ _ => st = .sleeping ∧ wc = none
  | .asleep .chan => (st = .sleeping ∨ st = .runnable) ∧ wc = none
  | .asleep _ => (st = .sleeping ∨ (st = .runnable ∧ wc = none)) ∧ chan = 0
  | _ => st ≠ .sleeping ∧ wc = none ∧ chan = 0

/-- The invariant of the clean runs. -/
structure QInv (s : WState T) : Prop where
  table : TableInv s
  held : Held (fun a => heldLock a (s.pc a)) s.lock
  placed : Placed s.queue (fun a => hand (s.pc a)) (home s)
  loc : ∀ t, LocalOk (s.state t) (s.waitChan t) (s.chan t) (s.pc t)
  calm : ∀ (kind : WakeKind) st, s.fault ≠ some (kind.notSleeping st)

section

variable {s s' : WState T} {t : T} {q : QRef}

section

omit [DecidableEq T]

theorem Boot.qInv (h : Boot s) : QInv s := by
  have hq : ∀ q, s.queue q = [] := by
    obtain ⟨n, hk⟩ := h.kern
    intro q
    cases q with
    | futex fp => simp [WState.queue, readQueue, hk, boot]
    | cond c => exact h.condQ c
  have hhome : ∀ t, home s t = none := by
    intro t
    simp [home, homeOf, h.pc t]
  constructor
  case table => exact h.tableInv
  case held =>
    intro a l ha
    simp [h.pc a, heldLock] at ha
  case placed =>
    constructor
    · simp [hq]
    · simp [hq]
    · simp [h.pc, hand]
    · simp [h.pc, hand]
    · simp [hhome]
  case loc =>
    intro t
    rw [h.pc t]
    exact ⟨h.state t, h.waitChan t, h.chan t⟩
  case calm => simp [h.fault]

/-- A thread with a home is on its way into `thread_sched`, with its own lock, or sleeps
with its `wait_chan_entry` there. -/
theorem QInv.home_cases (hi : QInv s) (h : home s t = some q) :
    s.state t = .sleeping ∧ (heldLock t (s.pc t) = some t ∨
      ((∃ k, s.pc t = .asleep k) ∧ s.waitChan t = some q)) := by
  have hl := hi.loc t
  cases hp : s.pc t with
  | enq stage q' timeout k =>
    cases stage <;> simp_all [home, homeOf, LocalOk, heldLock]
  | asleep k =>
    simp only [home, hp, homeOf] at h
    split at h
    next hst => exact ⟨hst, .inr ⟨⟨k, rfl⟩, h⟩⟩
    next => cases h
  | _ => simp [home, homeOf, hp] at h

theorem QInv.home_of_free (hi : QInv s) (hl : s.lock t = none) :
    home s t = some q ↔ s.state t = .sleeping ∧ s.waitChan t = some q := by
  constructor
  · intro h
    obtain ⟨hst, hown | ⟨-, hwc⟩⟩ := hi.home_cases h
    · exact absurd hown (hi.held.ne_of_free hl t)
    · exact ⟨hst, hwc⟩
  · rintro ⟨hst, hwc⟩
    have hloc := hi.loc t
    cases hp : s.pc t with
    | asleep k => simp [home, homeOf, hp, hst, hwc]
    | enq stage q' timeout k => cases stage <;> simp_all [home, homeOf, LocalOk]
    | slp stage c timeout => cases stage <;> simp_all [LocalOk]
    | _ => simp_all [LocalOk]

theorem QInv.hand_of_free (hi : QInv s) (hl : s.lock t = none) {a : T} :
    hand (s.pc a) = some (t, q) ↔ Popped s a t q := by
  constructor
  · intro h
    cases hp : s.pc a with
    | wake stage q' kind =>
      cases stage with
      | check u =>
        simp only [hp, hand, Option.some.injEq, Prod.mk.injEq] at h
        exact ⟨kind, .inl (by rw [hp, h.1, h.2])⟩
      | lock u =>
        simp only [hp, hand, Option.some.injEq, Prod.mk.injEq] at h
        exact ⟨kind, .inr (by rw [hp, h.1, h.2])⟩
      | body u =>
        simp only [hp, hand, Option.some.injEq, Prod.mk.injEq] at h
        have : heldLock a (s.pc a) = some t := by rw [hp, ← h.1]; rfl
        exact absurd this (hi.held.ne_of_free hl a)
      | _ => simp [hp, hand] at h
    | _ => simp [hp, hand] at h
  · rintro ⟨kind, h | h⟩ <;> simp [h, hand]

theorem QInv.crash (hi : QInv s) {e : Fault} (he : ∀ (kind : WakeKind) st, e ≠ kind.notSleeping st) :
    QInv (s.crash e) := by
  refine ⟨hi.table.frame rfl rfl, hi.held, hi.placed, hi.loc, fun kind st h => ?_⟩
  exact he kind st (Option.some.inj h)

theorem readQueue_update_page {k k' : Kern T} {condQ : ℕ → List T} {pa : ℕ} {x : Page T}
    (hk : k'.page = update k.page pa x) (h : readQueue k condQ (.futex pa) = [])
    (hx : ∀ f, x = .futex f → f.waitingQueue = []) :
    readQueue k' condQ = readQueue k condQ := by
  funext q
  cases q with
  | cond c => rfl
  | futex fp =>
    obtain rfl | hfp := eq_or_ne fp pa
    · rw [h]
      simp only [readQueue, hk, update_self]
      split
      next f => exact hx f rfl
      next => rfl
    · simp [readQueue, hk, hfp]

theorem readQueue_withFutex {k : Kern T} (hw : Wf k) (condQ : ℕ → List T) (u : UAddr)
    {fp fhn : ℕ} {rest : List ℕ} (hfl : k.freelist = fp :: fhn :: rest) :
    readQueue (withFutex k u fp fhn rest) condQ = readQueue k condQ := by
  have hfp : k.page fp = .free := hw.free fp (by simp [hfl])
  have hfhn : k.page fhn = .free := hw.free fhn (by simp [hfl])
  calc readQueue (withFutex k u fp fhn rest) condQ
      = readQueue (FutexTable.setQueue k fp []) condQ := by
        refine readQueue_update_page rfl ?_ (by simp)
        simp [readQueue, FutexTable.setQueue, (hw.pages_ne hfl).symm, hfhn]
    _ = readQueue k condQ :=
        readQueue_update_page rfl (by simp [readQueue, hfp]) (by simp)

theorem queue_setQueue (hq : queueLive s.kern q = true) (l : List T) :
    (s.setQueue q l).queue = update s.queue q l := by
  funext q'
  obtain rfl | hqq := eq_or_ne q' q
  · cases q' with
    | cond c => simp [WState.queue, readQueue, writeCondQueue]
    | futex fp =>
      simp only [queueLive] at hq
      split at hq
      next f hf => simp [WState.queue, readQueue, writeFutexQueue, hf]
      next => cases hq
  · rw [update_of_ne hqq]
    cases q with
    | cond c =>
      cases q' with
      | cond c' =>
        have hne : c' ≠ c := fun h => hqq (by rw [h])
        simp [WState.queue, readQueue, writeCondQueue, hne]
      | futex fp => rfl
    | futex fp =>
      simp only [queueLive] at hq
      split at hq
      next f hf =>
        cases q' with
        | cond c' => rfl
        | futex fp' =>
          have hne : fp' ≠ fp := fun h => hqq (by rw [h])
          simp [WState.queue, readQueue, writeFutexQueue, hf, hne]
      next => cases hq

end

/-- **The invariant gives the membership.** -/
theorem QInv.waitQueuesOk (hi : QInv s) : WaitQueuesOk s := by
  constructor
  case linked =>
    intro t q hl
    rw [hi.placed.mem_iff, hi.home_of_free hl, and_assoc]
    simp only [ne_eq, hi.hand_of_free hl]
  case popped =>
    intro t q a hl hpop
    obtain ⟨hhome, hno⟩ := hi.placed.inHand a t q ((hi.hand_of_free hl).mpr hpop)
    obtain ⟨hst, hwc⟩ := (hi.home_of_free hl).mp hhome
    refine ⟨hst, hwc, fun q' hq' => ?_⟩
    obtain rfl : q = q' :=
      Option.some.inj (hhome.symm.trans (hi.placed.linked q' t hq'))
    exact hno hq'
  case once => exact fun t q => List.nodup_iff_count_le_one.mp (hi.placed.nodup q) t
  case one => exact fun t q q' => hi.placed.unique
  case calm => exact hi.calm

/-! ### Queues and locks under the steps -/

/-- A thread moves from `p0` to `p` and its locks with it: it keeps what it holds, takes a
free lock, or drops the one it holds. -/
def LockStep (lock lock' : T → Option T) (t : T) (p0 p : Pc T) : Prop :=
  (lock' = lock ∧ heldLock t p = heldLock t p0) ∨
  (∃ u, lock u = none ∧ lock' = update lock u (some t) ∧ heldLock t p = some u) ∨
  ∃ u, heldLock t p0 = some u ∧ lock' = update lock u none ∧ heldLock t p = none

variable {p p0 : Pc T}

theorem LockStep.held {pc : T → Pc T} {lock lock' : T → Option T}
    (h : LockStep lock lock' t (pc t) p) (hh : Held (fun a => heldLock a (pc a)) lock) :
    Held (fun a => heldLock a (update pc t p a)) lock' := by
  have hupd : (fun a => heldLock a (update pc t p a)) =
      update (fun a => heldLock a (pc a)) t (heldLock t p) :=
    funext (apply_update (fun a => heldLock a) pc t p)
  rw [hupd]
  rcases h with ⟨rfl, hp⟩ | ⟨u, hu, rfl, hp⟩ | ⟨u, hu, rfl, hp⟩
  · exact hh.keep hp
  · rw [hp]
    exact hh.acquire hu
  · rw [hp]
    exact hh.release hu

theorem hand_update (pc : T → Pc T) (t : T) (p : Pc T) :
    (fun a => hand (update pc t p a)) =
      update (fun a => hand (pc a)) t (hand p) :=
  funext (apply_update (fun _ => hand) pc t p)

/-! ### One thread moves on -/

variable (hi : QInv s) (ht : TableInv s') (hp : s.pc t = p0)
  (hpc : s'.pc = update s.pc t p) (hlock : LockStep s.lock s'.lock t p0 p)
include hi ht hp hpc hlock

/-- A thread moves on: it may change its own fields as its new program counter requires. -/
theorem QInv.place
    (hplaced : Placed s'.queue (fun a => hand (s'.pc a)) (home s'))
    (hloc : LocalOk (s'.state t) (s'.waitChan t) (s'.chan t) p)
    (hoth : ∀ t', t' ≠ t → s'.state t' = s.state t' ∧ s'.waitChan t' = s.waitChan t' ∧
      s'.chan t' = s.chan t' := by intro t' htt; simp [htt])
    (hf : s'.fault = s.fault := by rfl) : QInv s' := by
  subst hp
  refine ⟨ht, hpc ▸ hlock.held hi.held, hplaced, fun t' => ?_, hf ▸ hi.calm⟩
  by_cases htt : t' = t
  · rw [htt, hpc, update_self]
    exact hloc
  · obtain ⟨hst, hwc, hch⟩ := hoth t' htt
    rw [hpc, update_of_ne htt, hst, hwc, hch]
    exact hi.loc t'

/-- **A thread moves on and keeps its place**: no queue, no hand and no home changes. -/
theorem QInv.own
    (hq : s'.queue = s.queue) (hhand : hand p = hand p0)
    (hhome : homeOf (s'.state t) (s'.waitChan t) p = homeOf (s.state t) (s.waitChan t) p0)
    (hloc : LocalOk (s'.state t) (s'.waitChan t) (s'.chan t) p)
    (hoth : ∀ t', t' ≠ t → s'.state t' = s.state t' ∧ s'.waitChan t' = s.waitChan t' ∧
      s'.chan t' = s.chan t' := by intro t' htt; simp [htt])
    (hf : s'.fault = s.fault := by rfl) : QInv s' := by
  refine hi.place ht hp hpc hlock ?_ hloc hoth hf
  subst hp
  have hh : (fun a => hand (s'.pc a)) = fun a => hand (s.pc a) := by
    rw [hpc, hand_update, hhand, update_eq_self (f := fun a => hand (s.pc a))]
  have hhome' : home s' = home s := by
    funext t'
    by_cases htt : t' = t
    · rw [home, htt, hpc, update_self, hhome, home]
    · obtain ⟨hst, hwc, -⟩ := hoth t' htt
      rw [home, hpc, update_of_ne htt, hst, hwc, home]
  rw [hq, hh, hhome']
  exact hi.placed

/-- **A thread moves on in code that touches neither its own fields nor a queue.** -/
theorem QInv.move
    (hloc : LocalOk (s.state t) (s.waitChan t) (s.chan t) p)
    (hhome : homeOf (s.state t) (s.waitChan t) p = homeOf (s.state t) (s.waitChan t) p0)
    (hhand : hand p = hand p0) (hq : s'.queue = s.queue) (hst : s'.state = s.state)
    (hwc : s'.waitChan = s.waitChan) (hch : s'.chan = s.chan) (hf : s'.fault = s.fault) :
    QInv s' := by
  refine hi.own ht hp hpc hlock hq hhand ?_ ?_ (fun t' _ => ?_) hf
  · rw [hst, hwc, hhome]
  · rwa [hst, hwc, hch]
  · rw [hst, hwc, hch]
    exact ⟨rfl, rfl, rfl⟩

end

end XVapor.Wait
