import XVapor.WaitPlaces

/-!
# Who Is on a Waiting Queue

A thread is linked on the waiting queue of a futex or condition from the push in
`futex_wait` or `cond_wait` until a waker pops it. Between that pop and the moment the
waker has the thread's lock, the thread is still `SLEEPING` with its `wait_chan_entry`
set, and on no queue: it is in the hand of the waker. With this place counted in, the
membership of a thread is a matter of its own fields, in all runs in which `get_futex` is
called only for addresses without a node and no timeout or signal wakes a thread whose
`wait_chan_entry` is set. A timeout or signal does wake such a thread without unlinking
it, after which the next waker pops a thread that is not asleep.

## Main results

* `waitQueues_of_reach`: the membership invariant, and no waker finds a thread that is
  not sleeping.
-/

namespace XVapor.Wait

open Function
open FutexTable

variable {T : Type} [DecidableEq T]

/-- No timeout and no signal wakes a thread whose `wait_chan_entry` is set, and `get_futex`
is called only for an address without a node. -/
def Clean (s : WState T) (a : Act T) : Prop :=
  GetAbsent s a ∧
  match a with
  | .timeout t => s.waitChan t = none
  | .signal t _ => s.state t = .sleeping → s.waitChan t = none
  | _ => True

section

variable {s s' : WState T} {t : T}

/-! ### Going to sleep -/

variable {q : QRef} {timeout : Option ℕ} {slot : Sleep}

theorem QInv.push (hi : QInv s) (ht : TableInv s') (hp : s.pc t = .enq .push q timeout slot)
    (hlive : queueLive s.kern q = true)
    (hs : s' = (s.setQueue q (s.queue q ++ [t])).goto t (.enq .chan q timeout slot)) :
    QInv s' := by
  have hhome : home s t = none := by rw [home, hp]; rfl
  have hplaced := hi.placed.push (q := q) hhome
  have hhand : (fun a => hand (s'.pc a)) = fun a => hand (s.pc a) := by
    have : hand (.enq .chan q timeout slot : Pc T) = hand (s.pc t) := by rw [hp]; rfl
    subst hs
    simp only [WState.goto, WState.setQueue, hand_update]
    rw [this, update_eq_self (f := fun a => hand (s.pc a))]
  have hhome' : home s' = update (home s) t (some q) := by
    subst hs
    funext t'
    obtain rfl | htt := eq_or_ne t' t
    · simp [home, homeOf]
    · simp [home, htt]
  have hl := hi.loc t
  rw [hp] at hl
  subst hs
  refine hi.place ht hp rfl (.inl ⟨rfl, rfl⟩) ?_ (by simpa [LocalOk] using hl)
  rw [hhand, hhome']
  exact queue_setQueue hlive _ ▸ hplaced

/-! ### Waking -/

variable {kind : WakeKind} {u : T}

theorem QInv.pop (hi : QInv s) (ht : TableInv s')
    {rest : List T} (hp : s.pc t = .wake .pop q kind) (hlive : queueLive s.kern q = true)
    (hq : s.queue q = u :: rest)
    (hs : s' = (s.setQueue q rest).goto t (.wake (.lock u) q kind)) : QInv s' := by
  have hplaced := hi.placed.pop (a := t) hq (by rw [hp]; rfl)
  have hhome : home s' = home s := by
    subst hs
    funext t'
    obtain rfl | htt := eq_or_ne t' t
    · simp [home, homeOf, hp]
    · simp [home, htt]
  have hl := hi.loc t
  rw [hp] at hl
  subst hs
  refine hi.place ht hp rfl (.inl ⟨rfl, rfl⟩) ?_ (by simpa [LocalOk] using hl)
  rw [hhome]
  simp only [WState.goto, hand_update]
  exact queue_setQueue hlive _ ▸ hplaced

omit [DecidableEq T] in
/-- A thread whose lock a waker holds sleeps with its `wait_chan_entry` on the queue it was
popped from. -/
theorem QInv.body_target (hi : QInv s) (hp : s.pc t = .wake (.body u) q kind) :
    u ≠ t ∧ s.state u = .sleeping ∧ s.waitChan u = some q ∧ ∃ k, s.pc u = .asleep k := by
  have hhome := (hi.placed.inHand t u q (by rw [hp]; rfl)).1
  obtain ⟨hst, hown | ⟨⟨k, hk⟩, hwc⟩⟩ := hi.home_cases hhome
  · -- then the waker would be the thread itself, on its way into `thread_sched`
    have hu : u = t := hi.held.excl hown (by rw [hp]; rfl)
    have hl := hi.loc t
    rw [hp] at hl
    rw [hu] at hst
    exact absurd hst hl.1
  · refine ⟨?_, hst, hwc, k, hk⟩
    rintro rfl
    rw [hp] at hk
    cases hk

theorem QInv.body (hi : QInv s) (ht : TableInv s') (hp : s.pc t = .wake (.body u) q kind)
    (hs : s' = ((s.setWaitChan u none).setState u .runnable).goto t
      (.wake (.release u) q kind)) : QInv s' := by
  obtain ⟨hut, hst, hwc, k, hk⟩ := hi.body_target hp
  have hplaced := hi.placed.finish (a := t) (t := u) (q := q) (by rw [hp]; rfl)
  have hhome : home s' = update (home s) u none := by
    subst hs
    funext t'
    obtain rfl | htu := eq_or_ne t' u
    · simp [home, homeOf, hut, hk]
    · obtain rfl | htt := eq_or_ne t' t
      · simp [home, homeOf, htu, hp]
      · simp [home, htu, htt]
  refine ⟨ht, ?_, ?_, ?_, ?_⟩
  · subst hs
    refine LockStep.held (.inl ⟨rfl, ?_⟩) hi.held
    change _ = heldLock t (s.pc t)
    rw [hp]
    rfl
  · rw [hhome, hs]
    simp only [WState.goto, WState.setState, WState.setWaitChan, hand_update]
    exact hplaced
  · subst hs
    intro t'
    by_cases htt : t' = t
    · have hl := hi.loc t
      rw [hp] at hl
      simpa [htt, hut.symm, LocalOk] using hl
    by_cases htu : t' = u
    · have hl := hi.loc u
      rw [hk] at hl
      subst htu
      cases k <;> simp_all [LocalOk]
    · simpa [htt, htu] using hi.loc t'
  · subst hs
    exact hi.calm

/-! ### All steps -/

/-- The program counters at which a thread is neither asleep nor on its way there, holds
no lock, and has nobody in hand. -/
def Plain : Pc T → Prop
  | .user | .copyin _ _ _ | .getWait _ _ _ | .badWait _ | .getWake _ _ _ | .exit
  | .exitLock => True
  | .enq .lock _ _ _ => True
  | .slp .lock _ _ => True
  | .wake .test _ _ => True
  | _ => False

omit [DecidableEq T] in
theorem Plain.facts {p : Pc T} (hp : Plain p) : heldLock t p = none ∧ hand p = none ∧
    (∀ st wc, homeOf st wc p = none) ∧
    ∀ st wc ch, LocalOk st wc ch p ↔ st ≠ .sleeping ∧ wc = none ∧ ch = 0 := by
  cases p with
  | enq stage q timeout slot | slp stage chan timeout | wake stage q kind =>
    cases stage <;> first
      | exact hp.elim
      | exact ⟨rfl, rfl, fun _ _ => rfl, fun _ _ _ => Iff.rfl⟩
  | asleep | badWake | free | exitFree => exact hp.elim
  | user | copyin | getWait | badWait | getWake | exit | exitLock =>
    exact ⟨rfl, rfl, fun _ _ => rfl, fun _ _ _ => Iff.rfl⟩

section

variable (hi : QInv s)
include hi

theorem QInv.plain (ht : TableInv s') {p0 p : Pc T} (hp : s.pc t = p0)
    (hpc : s'.pc = update s.pc t p) (h₀ : Plain p0) (h : Plain p) (hq : s'.queue = s.queue)
    (hlock : s'.lock = s.lock) (hst : s'.state = s.state) (hwc : s'.waitChan = s.waitChan)
    (hch : s'.chan = s.chan) (hf : s'.fault = s.fault) : QInv s' := by
  obtain ⟨hl0, hh0, hhome0, hloc0⟩ := h₀.facts (t := t)
  obtain ⟨hl, hh, hhome, hloc⟩ := h.facts (t := t)
  refine hi.move ht hp hpc (.inl ⟨hlock, by rw [hl, hl0]⟩) ?_ (by rw [hhome, hhome0])
    (by rw [hh, hh0]) hq hst hwc hch hf
  have := hi.loc t
  rw [hp, hloc0] at this
  exact (hloc _ _ _).mpr this

theorem QInv.threadStep (hg : GetAbsent s (.step t))
    (hs : threadStep s t = some s') : QInv s' := by
  have ht := hi.table.threadStep hg hs
  have hl := hi.loc t
  cases hi.table.stepped hg hs with
  | noMatch hp | matched hp | noFutex hp | wakeDone hp | noTid hp | exitWake hp | exitStore hp =>
    exact hi.plain ht hp rfl trivial trivial rfl rfl rfl rfl rfl rfl
  | @getWake u n exiting hp =>
    cases exiting <;> exact hi.plain ht hp rfl trivial trivial rfl rfl rfl rfl rfl rfl
  | @noNode u v timeout pa hp hfl =>
    have hpa := hi.table.wf.free pa (by simp [hfl])
    refine hi.plain ht hp rfl trivial trivial ?_ rfl rfl rfl rfl rfl
    exact readQueue_update_page rfl (by simp [readQueue, hpa]) (by simp)
  | create hp _ hfl =>
    refine hi.plain ht hp rfl trivial trivial ?_ rfl rfl rfl rfl rfl
    exact readQueue_withFutex hi.table.wf s.condQ _ hfl
  | badWait hp =>
    refine hi.plain ht hp rfl trivial trivial ?_ rfl rfl rfl rfl rfl
    exact readQueue_update_page rfl (by simp [readQueue, (hi.table.unreferenced hp).1]) (by simp)
  | enqLock hp hfree | slpLock hp hfree | wakeLock hp hfree | exitLock hp hfree =>
    rw [hp] at hl
    exact hi.move ht hp rfl (.inr (.inl ⟨_, hfree, rfl, rfl⟩)) hl rfl rfl rfl rfl rfl rfl rfl
  | enqTimeout hp | wakeTest hp | wakeCheck hp =>
    rw [hp] at hl
    exact hi.move ht hp rfl (.inl ⟨rfl, rfl⟩) hl rfl rfl rfl rfl rfl rfl rfl
  | signaled hp | wakeNext hp =>
    rw [hp] at hl
    exact hi.move ht hp rfl (.inr (.inr ⟨_, rfl, rfl, rfl⟩)) hl rfl rfl rfl rfl rfl rfl rfl
  | enqState hp | enqChan hp | slpState hp =>
    rw [hp] at hl
    refine hi.own ht hp rfl (.inl ⟨rfl, rfl⟩) rfl rfl rfl ?_
    simp [LocalOk, hl.1, hl.2.1, hl.2.2]
  | enqPush hp hlive => exact hi.push ht hp hlive rfl
  | @enqSched q timeout slot hp =>
    have hok := hi.table.pcOk t
    rw [hp] at hl hok
    refine hi.move ht hp rfl (.inr (.inr ⟨t, rfl, rfl, rfl⟩)) ?_ ?_ rfl rfl rfl rfl rfl rfl
    · -- a thread does not come here with the slot of `thread_sleep`
      cases slot with
      | futex u v | cond => exact ⟨.inl hl.1, hl.2.2⟩
      | chan => exact hok.elim
    · simp [homeOf, hl.1, hl.2.1]
  | slpSched hp =>
    rw [hp] at hl
    refine hi.move ht hp rfl (.inr (.inr ⟨t, rfl, rfl, rfl⟩)) ⟨.inl hl.1, hl.2⟩ ?_
      rfl rfl rfl rfl rfl rfl
    simp [homeOf, hl.2]
  | wakePop hp hq => exact hi.pop ht hp rfl hq rfl
  | wakeBody hp => exact hi.body ht hp rfl
  | @notSleeping c kind w hp hst =>
    have hhand : hand (s.pc t) = some (w, .cond c) := by
      rcases hp with hp | hp <;> rw [hp] <;> rfl
    exact absurd (hi.home_cases (hi.placed.inHand t w _ hhand).1).1 hst
  | crash he => exact hi.crash he
  | exitFree hp =>
    refine hi.own (p := .user) ht hp rfl (.inr (.inr ⟨t, rfl, rfl, rfl⟩)) rfl rfl rfl ?_
    simp [LocalOk]

theorem QInv.enter (hp : s.pc t = .user) (c : Call) : QInv (enter s t c) := by
  have ht : TableInv (Wait.enter s t c) := hi.table.enter c
  cases c with
  | setTid clear => exact ⟨ht, hi.held, hi.placed, hi.loc, hi.calm⟩
  | futexWake u n | futexWait u v timeout | condWait c | condSignal c | condBroadcast c
  | threadSleep chan timeout | exit =>
    exact hi.plain ht hp rfl trivial trivial rfl rfl rfl rfl rfl rfl

/-- **The fields of one thread change under its free lock**, from outside its code. -/
theorem QInv.outside (ht : TableInv s') (hpc : s'.pc = s.pc)
    (hlock : s'.lock = s.lock) (hq : s'.queue = s.queue)
    (hhome : homeOf (s'.state t) (s'.waitChan t) (s.pc t) = home s t)
    (hloc : LocalOk (s'.state t) (s'.waitChan t) (s'.chan t) (s.pc t))
    (hoth : ∀ t', t' ≠ t → s'.state t' = s.state t' ∧ s'.waitChan t' = s.waitChan t' ∧
      s'.chan t' = s.chan t' := by intro t' htt; simp [htt])
    (hf : s'.fault = s.fault := by rfl) : QInv s' := by
  refine hi.own ht rfl ?_ (.inl ⟨hlock, rfl⟩) hq rfl hhome hloc hoth hf
  rw [hpc, update_eq_self]

omit [DecidableEq T] in
theorem QInv.asleep_of_free (hl : s.lock t = none)
    (hst : s.state t = .sleeping) : ∃ k, s.pc t = .asleep k := by
  have hloc := hi.loc t
  have hno := hi.held.ne_of_free hl t
  cases hp : s.pc t with
  | asleep k => exact ⟨k, rfl⟩
  | enq stage q timeout slot | slp stage chan timeout =>
    cases stage <;> simp_all [LocalOk, heldLock]
  | _ => simp_all [LocalOk]

theorem QInv.wakeOutside (ht : TableInv s') (hl : s.lock t = none)
    (hst : s.state t = .sleeping) (hwc : s.waitChan t = none) (hpc : s'.pc = s.pc)
    (hlock : s'.lock = s.lock) (hq : s'.queue = s.queue)
    (hst' : s'.state = update s.state t .runnable) (hwc' : s'.waitChan = s.waitChan)
    (hch : s'.chan t = s.chan t ∨ s'.chan t = 0)
    (hoth : ∀ t', t' ≠ t → s'.chan t' = s.chan t') (hf : s'.fault = s.fault) :
    QInv s' := by
  obtain ⟨k, hk⟩ := hi.asleep_of_free hl hst
  have hloc := hi.loc t
  rw [hk] at hloc
  refine hi.outside (t := t) ht hpc hlock hq ?_ ?_ (fun t' htt => ?_) hf
  · simp [home, homeOf, hk, hwc, hwc']
  · rw [hst', hwc', hwc, hk, update_self]
    cases k <;> rcases hch with hch | hch <;> simp_all [LocalOk]
  · simp [hst', hwc', htt, hoth t' htt]

theorem QInv.dispatch (ht : TableInv (resume (s.setState t .running) t))
    (hr : s.state t = .runnable) : QInv (resume (s.setState t .running) t) := by
  have hloc := hi.loc t
  refine hi.own (t := t) ht rfl rfl ?_ rfl ?_ ?_ ?_ fun t' htt => ?_
  · refine .inl ⟨rfl, ?_⟩
    cases hp : s.pc t with
    | asleep k => cases k <;> cases hk : s.killed t <;> simp [hp, hk, resumePc, heldLock]
    | _ => simp [hp, resumePc]
  · cases hp : s.pc t with
    | asleep k => cases k <;> cases hk : s.killed t <;> simp [hp, hk, resumePc, hand]
    | _ => simp [hp, resumePc]
  · cases hp : s.pc t with
    | asleep k =>
      cases k <;> cases hk : s.killed t <;> simp [hp, hk, hr, resumePc, homeOf]
    | _ => simp [hp, hr, resumePc, homeOf]
  · cases hp : s.pc t with
    | asleep k =>
      cases k <;> cases hk : s.killed t <;> simp_all [resumePc, LocalOk]
    | enq stage q timeout slot | slp stage chan timeout =>
      cases stage <;> simp_all [resumePc, LocalOk]
    | _ => simp_all [resumePc, LocalOk]
  · by_cases hc : s.pc t = .asleep .chan <;> simp [htt, hc]

/-- **Every action that meets `Clean` keeps the invariant.** -/
theorem QInv.act {a : Act T} (hg : Clean s a) (hs : act s a = some s') :
    QInv s' := by
  have ht := hi.table.act hg.1 hs
  cases act_inv hs with
  | call _ hp => exact hi.enter hp _
  | step _ hs => exact hi.threadStep hg.1 hs
  | store | tick => exact ⟨ht, hi.held, hi.placed, hi.loc, hi.calm⟩
  | @yield t _ _ | @spawn t _ _ =>
    have hloc := hi.loc t
    refine hi.outside (t := t) ht rfl rfl rfl ?_ ?_
    · cases hp : s.pc t <;> simp_all [home, homeOf, LocalOk]
    · cases hp : s.pc t with
      | enq stage q timeout slot | slp stage chan timeout =>
        cases stage <;> simp_all [LocalOk, heldLock]
      | asleep k => cases k <;> simp_all [LocalOk]
      | _ => simp_all [LocalOk]
  | @dispatch t hr hfree => exact hi.dispatch ht hr
  | @timeout t hl hst =>
    exact hi.wakeOutside ht hl hst hg.2 rfl rfl rfl rfl rfl (.inl rfl) (fun _ _ => rfl) rfl
  | @wakeChan t chan hl hst hch hne =>
    -- only `thread_sleep` leaves a channel behind, and it sets no `wait_chan_entry`
    obtain ⟨k, hk⟩ := hi.asleep_of_free hl hst
    have hloc := hi.loc t
    rw [hk] at hloc
    have hwc : s.waitChan t = none := by
      cases k <;> simp_all [LocalOk]
    exact hi.wakeOutside ht hl hst hwc rfl rfl rfl rfl rfl (.inl rfl) (fun _ _ => rfl) rfl
  | @signal t kill hl =>
    rcases threadSendSignal_cases s t kill with ⟨-, h⟩ | ⟨hst, h⟩ | ⟨-, h⟩
    · rw [h] at ht ⊢
      exact ⟨ht, hi.held, hi.placed, hi.loc, hi.calm⟩
    · rw [h] at ht ⊢
      refine hi.wakeOutside ht hl hst (hg.2 hst) rfl rfl rfl rfl rfl (.inr (by simp)) ?_ rfl
      intro t' htt
      simp [htt]
    · rw [h] at ht ⊢
      refine ⟨ht, hi.held, hi.placed, hi.loc, fun kind' st h => ?_⟩
      exact ne_notSleeping (.inr rfl) kind' st (Option.some.inj h)

end

end

/-- **The membership of waiting queues in every clean run**: one in which `get_futex` is
called only for addresses without a node, and no timeout or signal wakes a thread whose
`wait_chan_entry` is set. -/
theorem waitQueues_of_reach {s : WState T} (h : (waitMachine T).Reach Clean s) :
    WaitQueuesOk s :=
  (h.invariant (I := QInv) (fun _ h0 => Boot.qInv h0)
    fun _ _ _ hi hg hs => hi.act hg hs).waitQueuesOk

/-! ### Four runs -/

/-- Thread 1 goes to sleep in `cond_wait`. -/
def condWaitSteps : List (Act ℕ) := .call 1 (.condWait 0) :: List.replicate 6 (.step 1)

/-- Thread 2 pops a thread in `cond_signal`. -/
def popSteps : List (Act ℕ) := [.call 2 (.condSignal 0), .step 2, .step 2]

/-- In the window of the waker, thread 1 sleeps with its `wait_chan_entry` set and its lock
free, and is on no queue. After a signal has woken it, it is `RUNNABLE` and still linked. And if
the signal kills it, it leaves `cond_wait` through `thread_exit`, linked as it is; `cond_signal`
then pops an `UNUSED` thread and panics. -/
theorem waitQueues_fail :
    (∃ s, (waitMachine ℕ).Reach Machine.anyStep s ∧ s.lock 1 = none ∧
      s.state 1 = .sleeping ∧ s.waitChan 1 = some (.cond 0) ∧ 1 ∉ s.queue (.cond 0)) ∧
    (∃ s, (waitMachine ℕ).Reach Machine.anyStep s ∧ s.lock 1 = none ∧
      s.state 1 = .runnable ∧ 1 ∈ s.queue (.cond 0)) ∧
    ∃ s, (waitMachine ℕ).Reach Machine.anyStep s ∧
      s.fault = some (.panic "cond signal : this thread is not sleeping") := by
  refine ⟨⟨_, Machine.reach_of_exec boot_bootTwo
      (rfl : (waitMachine ℕ).exec bootTwo (condWaitSteps ++ popSteps) = some _), rfl, rfl,
      rfl, List.not_mem_nil⟩, ⟨_, Machine.reach_of_exec boot_bootTwo
      (rfl : (waitMachine ℕ).exec bootTwo (condWaitSteps ++ [.signal 1 false]) = some _), rfl, rfl,
      List.mem_cons_self⟩, ?_⟩
  exact ⟨_, Machine.reach_of_exec boot_bootTwo
    (rfl : (waitMachine ℕ).exec bootTwo (condWaitSteps ++ [.signal 1 true, .dispatch 1, .step 1,
      .step 1, .step 1] ++ popSteps ++ [.step 2, .step 2]) = some _), rfl⟩

/-- A clean run that ends in the window of the waker. -/
theorem waitQueues_in_window :
    ∃ s, (waitMachine ℕ).Reach Clean s ∧ Popped s 2 1 (.cond 0) ∧ WaitQueuesOk s := by
  have h₀ : (waitMachine ℕ).Reach Clean bootTwo := .init boot_bootTwo
  have h1 := h₀.step (a := Act.call 1 (.condWait 0)) ⟨trivial, trivial⟩ rfl
  have h2 := h1.step (a := Act.step 1) ⟨trivial, trivial⟩ rfl
  have h3 := h2.step (a := Act.step 1) ⟨trivial, trivial⟩ rfl
  have h4 := h3.step (a := Act.step 1) ⟨trivial, trivial⟩ rfl
  have h5 := h4.step (a := Act.step 1) ⟨trivial, trivial⟩ rfl
  have h6 := h5.step (a := Act.step 1) ⟨trivial, trivial⟩ rfl
  have h7 := h6.step (a := Act.step 1) ⟨trivial, trivial⟩ rfl
  have h8 := h7.step (a := Act.call 2 (.condSignal 0)) ⟨trivial, trivial⟩ rfl
  have h9 := h8.step (a := Act.step 2) ⟨trivial, trivial⟩ rfl
  have h10 := h9.step (a := Act.step 2) ⟨trivial, trivial⟩ rfl
  exact ⟨_, h10, ⟨.signal, .inr rfl⟩, waitQueues_of_reach h10⟩

end XVapor.Wait
