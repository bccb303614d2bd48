import XVapor.WaitTable

/-!
# Lost Wakeups of the Futex

`futex_wait` reads the word with `copyin` before it takes any lock that `futex_wake` takes
too. A store and a wake that fall between the read and the creation of the futex are
missed: the waiter goes to sleep on a value that is no longer there, and the wake it would
have needed has already returned.

A wakeup is *lost* when a `futex_wake` for at least one thread has returned, has woken
fewer threads than it was allowed to, and a thread sleeps on the same word for a value
that the word has not had since before that wake began.

## Main results

* `not_lost_of_reach`: no wakeup is lost in the runs in which `get_futex` is called only
  for addresses without a node, and in `futex_wait` only while the word still has the
  value that `copyin` read.
-/

namespace XVapor.Wait

open Function
open FutexTable

variable {T : Type} [DecidableEq T]

/-- The word and the value a thread sleeps for, or is about to, once `get_futex` has
returned to `futex_wait`. -/
def waitsFor : Pc T → Option (UAddr × UInt32)
  | .enq _ _ _ (.futex u v) => some (u, v)
  | .asleep (.futex u v) => some (u, v)
  | _ => none

/-- **A lost wakeup.** -/
def Lost (s : WState T) : Prop :=
  ∃ r ∈ s.log, r.done = true ∧ 1 ≤ r.nrWake ∧ (r.woken : Int) < r.nrWake ∧
    ∃ t v, s.pc t = .asleep (.futex r.uaddr v) ∧ s.state t = .sleeping ∧ some v ∉ r.vals

/-- `get_futex` is called only for an address without a node, and by `futex_wait` only
while the word still has the value that was read. -/
def Undisturbed (s : WState T) : Act T → Prop
  | .step t =>
    match s.pc t with
    | .getWait u v _ => ¬ HasNode s.kern u ∧ s.mem u = some v
    | .getWake u _ _ => ¬ HasNode s.kern u
    | _ => True
  | _ => True

omit [DecidableEq T] in
theorem Undisturbed.getAbsent {s : WState T} {a : Act T} (h : Undisturbed s a) :
    GetAbsent s a := by
  cases a with
  | step t =>
    simp only [Undisturbed] at h
    simp only [GetAbsent]
    split at h <;> simp_all
  | _ => trivial

/-- The invariant behind the absence of lost wakeups. A call that has not returned is
still at `get_futex`; every history contains the current value of its word; and a call
that has returned saw every value somebody waits for at its word. -/
structure LogInv (s : WState T) : Prop where
  table : TableInv s
  running : ∀ r ∈ s.log, r.done = false →
    ∃ n exiting, s.pc r.waker = .getWake r.uaddr n exiting
  current : ∀ r ∈ s.log, s.mem r.uaddr ∈ r.vals
  seen : ∀ r ∈ s.log, r.done = true → ∀ t v,
    waitsFor (s.pc t) = some (r.uaddr, v) → some v ∈ r.vals

section

variable {s s' : WState T} {t : T}

section

omit [DecidableEq T]

/-- Under the invariant no wakeup is lost. -/
theorem LogInv.not_lost (hi : LogInv s) : ¬ Lost s := by
  rintro ⟨r, hr, hdone, -, -, t, v, hpc, -, hno⟩
  exact hno (hi.seen r hr hdone t v (by rw [hpc]; rfl))

theorem Boot.logInv (h : Boot s) : LogInv s := by
  refine ⟨h.tableInv, ?_, ?_, ?_⟩ <;> simp [h.log]

variable {u : UAddr} {v : UInt32}

theorem LogInv.hasNode (hi : LogInv s) (h : waitsFor (s.pc t) = some (u, v)) : HasNode s.kern u := by
  have hok := hi.table.pcOk t
  cases hp : s.pc t with
  | enq stage q timeout slot =>
    rw [hp] at h hok
    cases slot with
    | futex u' v' =>
      cases h
      obtain ⟨fp, -, hn⟩ := hok
      exact hn.hasNode
    | _ => cases h
  | asleep slot =>
    rw [hp] at h hok
    cases slot with
    | futex u' v' =>
      cases h
      exact hok
    | _ => cases h
  | _ =>
    rw [hp] at h
    cases h

theorem LogInv.frame (hi : LogInv s) (ht : TableInv s') (hl : s'.log = s.log)
    (hm : s'.mem = s.mem)
    (hw : ∀ t u v, waitsFor (s'.pc t) = some (u, v) → waitsFor (s.pc t) = some (u, v))
    (hg : ∀ t u n e, s.pc t = .getWake u n e → s'.pc t = .getWake u n e) : LogInv s' := by
  refine ⟨ht, ?_, ?_, ?_⟩
  · intro r hr hdone
    obtain ⟨n, e, hpc⟩ := hi.running r (hl ▸ hr) hdone
    exact ⟨n, e, hg _ _ _ _ hpc⟩
  · intro r hr
    rw [hm]
    exact hi.current r (hl ▸ hr)
  · intro r hr hdone t v h
    exact hi.seen r (hl ▸ hr) hdone t v (hw t _ v h)

end

theorem LogInv.move (hi : LogInv s) (ht : TableInv s') {p0 p : Pc T} (hp : s.pc t = p0)
    (hpc : s'.pc = update s.pc t p) (hw : waitsFor p = none ∨ waitsFor p = waitsFor p0)
    (hg : ∀ u n e, p0 ≠ .getWake u n e) (hl : s'.log = s.log) (hm : s'.mem = s.mem) :
    LogInv s' := by
  subst hp
  refine hi.frame ht hl hm ?_ ?_
  · intro t' u v h
    obtain rfl | htt := eq_or_ne t' t
    · rw [hpc, update_self] at h
      rcases hw with hw | hw
      · rw [hw] at h
        cases h
      · exact hw ▸ h
    · rwa [hpc, update_of_ne htt] at h
  · intro t' u n e h
    have htt : t' ≠ t := by
      rintro rfl
      exact hg u n e h
    rwa [hpc, update_of_ne htt]

/-! ### The steps with an effect on words and histories -/

omit [DecidableEq T] in
theorem LogInv.store (hi : LogInv s) (u : UAddr) (v : UInt32) : LogInv (s.store u v) := by
  refine ⟨hi.table.frame rfl rfl, ?_, ?_, ?_⟩
  · intro r' hr' hdone
    obtain ⟨r, hr, rfl⟩ := List.mem_map.mp hr'
    by_cases hu : r.uaddr = u
    · simp only [hu, if_true] at hdone ⊢
      simpa [hu] using hi.running r hr hdone
    · simp only [hu, if_false] at hdone ⊢
      exact hi.running r hr hdone
  · intro r' hr'
    obtain ⟨r, hr, rfl⟩ := List.mem_map.mp hr'
    by_cases hu : r.uaddr = u
    · simp [hu]
    · simpa [hu] using hi.current r hr
  · intro r' hr' hdone t w h
    obtain ⟨r, hr, rfl⟩ := List.mem_map.mp hr'
    by_cases hu : r.uaddr = u
    · simp only [hu, if_true] at hdone h ⊢
      exact List.mem_cons_of_mem _ (hi.seen r hr hdone t w (by rw [hu]; exact h))
    · simp only [hu, if_false] at hdone h ⊢
      exact hi.seen r hr hdone t w h

theorem LogInv.beginWake (hi : LogInv s) (u : UAddr) (n : Int) (exiting : Bool)
    (hg : ∀ u n e, s.pc t ≠ .getWake u n e) : LogInv (s.beginWake t u n exiting) := by
  refine ⟨hi.table.move rfl rfl trivial nofun, ?_, ?_, ?_⟩
  · intro r hr hdone
    rcases List.mem_cons.mp hr with rfl | hr
    · exact ⟨n, exiting, by simp⟩
    obtain ⟨n', e', hpc⟩ := hi.running r hr hdone
    have hne : r.waker ≠ t := by
      intro h
      exact hg _ _ _ (h ▸ hpc)
    exact ⟨n', e', by simp [hne, hpc]⟩
  · intro r hr
    rcases List.mem_cons.mp hr with rfl | hr
    · simp
    · exact hi.current r hr
  · intro r hr hdone t' v h
    rcases List.mem_cons.mp hr with rfl | hr
    · cases hdone
    · refine hi.seen r hr hdone t' v ?_
      by_cases ht : t' = t
      · simp [ht, waitsFor] at h
      · simpa [ht] using h

theorem LogInv.endWake (hi : LogInv s) {n : Int} {exiting : Bool}
    (hp : s.pc t = .getWake u n exiting) (hno : ¬ HasNode s.kern u) :
    LogInv (s.endWake t exiting) := by
  have htable : TableInv (s.endWake t exiting) := by
    cases exiting <;> exact hi.table.move rfl rfl trivial nofun
  have hold : ∀ t', waitsFor ((s.endWake t exiting).pc t') = waitsFor (s.pc t') := by
    intro t'
    obtain rfl | ht := eq_or_ne t' t
    · cases exiting <;> simp [hp, waitsFor]
    · simp [ht]
  refine ⟨htable, ?_, ?_, ?_⟩
  · intro r' hr' hdone
    obtain ⟨r, hr, rfl⟩ := List.mem_map.mp hr'
    by_cases hc : r.waker = t ∧ r.done = false
    · simp [hc] at hdone
    · simp only [hc, if_false] at hdone ⊢
      obtain ⟨n', e', hpc⟩ := hi.running r hr hdone
      have hne : r.waker ≠ t := fun h => hc ⟨h, hdone⟩
      exact ⟨n', e', by simp [hne, hpc]⟩
  · intro r' hr'
    obtain ⟨r, hr, rfl⟩ := List.mem_map.mp hr'
    split <;> exact hi.current r hr
  · intro r' hr' hdone t' v h
    obtain ⟨r, hr, rfl⟩ := List.mem_map.mp hr'
    rw [hold] at h
    by_cases hc : r.waker = t ∧ r.done = false
    · -- this call returns now: its word is `u`, which has no node
      obtain ⟨n', e', hpc⟩ := hi.running r hr hc.2
      rw [hc.1, hp, Pc.getWake.injEq] at hpc
      simp only [hc, and_self, if_true] at h
      exact absurd (hi.hasNode h) (hpc.1 ▸ hno)
    · simp only [hc, if_false] at hdone h ⊢
      exact hi.seen r hr hdone t' v h

theorem LogInv.startWait (hi : LogInv s) (ht : TableInv s')
    {p : Pc T} (hm : s.mem u = some v) (hl : s'.log = s.log) (hm' : s'.mem = s.mem)
    (hpc : s'.pc = update s.pc t p) (hw : waitsFor p = some (u, v))
    (hg : ∀ u n e, s.pc t ≠ .getWake u n e) : LogInv s' := by
  refine ⟨ht, ?_, ?_, ?_⟩
  · intro r hr hdone
    obtain ⟨n, e, hr'⟩ := hi.running r (hl ▸ hr) hdone
    have hne : r.waker ≠ t := by
      intro h
      exact hg _ _ _ (h ▸ hr')
    exact ⟨n, e, by rw [hpc, update_of_ne hne, hr']⟩
  · intro r hr
    rw [hm']
    exact hi.current r (hl ▸ hr)
  · intro r hr hdone t' w h
    obtain rfl | htt := eq_or_ne t' t
    · rw [hpc, update_self, hw, Option.some.injEq, Prod.mk.injEq] at h
      obtain ⟨hu, rfl⟩ := h
      have := hi.current r (hl ▸ hr)
      rwa [← hu, hm] at this
    · rw [hpc, update_of_ne htt] at h
      exact hi.seen r (hl ▸ hr) hdone t' w h

/-! ### All steps -/

section

variable (hi : LogInv s)
include hi

theorem LogInv.threadStep (hg : Undisturbed s (.step t))
    (hs : threadStep s t = some s') : LogInv s' := by
  have ht := hi.table.threadStep hg.getAbsent hs
  cases hi.table.stepped hg.getAbsent hs with
  | noMatch hp | matched hp | noFutex hp | noNode hp | badWait hp | slpLock hp | slpState hp
  | slpSched hp | wakeTest hp | wakeDone hp | wakePop hp | wakeCheck hp | wakeLock hp
  | wakeBody hp | signaled hp | wakeNext hp | noTid hp | exitLock hp | exitFree hp =>
    exact hi.move ht hp rfl (.inl rfl) nofun rfl rfl
  | @enqLock q timeout slot hp | @enqState q timeout slot hp | @enqPush q timeout slot hp
  | @enqChan q timeout slot hp | @enqTimeout q timeout slot hp | @enqSched q timeout slot hp =>
    refine hi.move ht hp rfl (.inr ?_) nofun rfl rfl
    cases slot <;> rfl
  | create hp =>
    simp only [Undisturbed, hp] at hg
    exact hi.startWait ht hg.2 rfl rfl rfl rfl (by simp [hp])
  | getWake hp hno => exact hi.endWake hp hno
  | crash | notSleeping => exact hi.frame ht rfl rfl (fun _ _ _ h => h) fun _ _ _ _ h => h
  | exitWake hp => exact hi.beginWake _ 1 true (by simp [hp])
  | exitStore hp => exact (hi.store _ 0).beginWake _ 1 true (by simp [hp])

theorem LogInv.enter (hp : s.pc t = .user) (c : Call) :
    LogInv (enter s t c) := by
  have ht : TableInv (Wait.enter s t c) := hi.table.enter c
  have hno : ∀ u n e, s.pc t ≠ .getWake u n e := by simp [hp]
  cases c with
  | futexWake u n => exact hi.beginWake u n false hno
  | setTid clear => exact hi.frame ht rfl rfl (fun _ _ _ h => h) fun _ _ _ _ h => h
  | futexWait u v timeout | condWait c | condSignal c | condBroadcast c
  | threadSleep chan timeout | exit => exact hi.move ht hp rfl (.inl rfl) nofun rfl rfl

theorem LogInv.act {a : Act T} (hg : Undisturbed s a)
    (hs : act s a = some s') : LogInv s' := by
  have ht := hi.table.act hg.getAbsent hs
  have hsame : s'.log = s.log → s'.mem = s.mem → s'.pc = s.pc → LogInv s' := by
    intro hl hm hpc
    exact hi.frame ht hl hm (by simp [hpc]) (by simp [hpc])
  cases act_inv hs with
  | call _ hp => exact hi.enter hp _
  | step _ hs => exact hi.threadStep hg hs
  | yield | spawn | tick | timeout | wakeChan => exact hsame rfl rfl rfl
  | @dispatch t =>
    refine hi.frame ht rfl rfl ?_ ?_
    · intro t' u v h
      obtain rfl | htt := eq_or_ne t' t
      · cases hp : s.pc t' with
        | asleep slot => cases slot <;> cases hk : s.killed t' <;>
            simp [hp, hk, resumePc, waitsFor] at h
        | _ => simpa [hp, resumePc] using h
      · simpa [htt] using h
    · intro t' u n e h
      obtain rfl | htt := eq_or_ne t' t
      · simp [h, resumePc]
      · simpa [htt] using h
  | store => exact hi.store _ _
  | @signal t kill =>
    rcases threadSendSignal_cases s t kill with ⟨-, h⟩ | ⟨-, h⟩ | ⟨-, h⟩ <;>
      exact hsame (by rw [h]) (by rw [h]) (by rw [h])

end

end

/-- **No wakeup is lost in an undisturbed run**: one in which `get_futex` is called only
for addresses without a node, and by `futex_wait` only while the word still has the value
that was read. -/
theorem not_lost_of_reach {s : WState T} (h : (waitMachine T).Reach Undisturbed s) :
    ¬ Lost s :=
  (h.invariant (I := LogInv) (fun _ h0 => Boot.logInv h0)
    fun _ _ _ hi hg hs => hi.act hg hs).not_lost


/-! ### Two runs -/

/-- The steps of thread 1 from `get_futex` to `thread_sched`. -/
def sleepSteps : List (Act ℕ) := List.replicate 7 (.step 1)

/-- Thread 1 reads the word in `futex_wait`; thread 2 stores another value and its
`futex_wake` returns; thread 1 goes to sleep. -/
theorem lost_wakeup_reachable :
    ∃ s, (waitMachine ℕ).Reach Machine.anyStep s ∧ Lost s := by
  refine ⟨_, Machine.reach_of_exec boot_bootTwo
    (rfl : (waitMachine ℕ).exec bootTwo ([.call 1 (.futexWait 4096 7 none), .step 1,
      .store 4096 8, .call 2 (.futexWake 4096 1), .step 2] ++ sleepSteps) = some _), ?_⟩
  exact ⟨_, List.mem_cons_self, rfl, by decide, by decide, 1, 7, rfl, rfl, by decide⟩

/-- A run that is undisturbed: `futex_wake` returns, and then thread 1 goes to sleep on the
word. -/
theorem not_lost_after_wait :
    ∃ s, (waitMachine ℕ).Reach Undisturbed s ∧ s.pc 1 = .asleep (.futex 4096 7) ∧
      s.state 1 = .sleeping ∧ (∃ r ∈ s.log, r.done = true) ∧ ¬ Lost s := by
  have hno : ¬ HasNode (boot 2 : Kern ℕ) 4096 := by simp [HasNode, boot]
  have h₀ : (waitMachine ℕ).Reach Undisturbed bootTwo := .init boot_bootTwo
  have h1 := h₀.step (a := Act.call 2 (.futexWake 4096 1)) trivial rfl
  have h2 := h1.step (a := Act.step 2) hno rfl
  have h3 := h2.step (a := Act.call 1 (.futexWait 4096 7 none)) trivial rfl
  have h4 := h3.step (a := Act.step 1) trivial rfl
  have h5 := h4.step (a := Act.step 1) ⟨hno, rfl⟩ rfl
  have h6 := h5.step (a := Act.step 1) trivial rfl
  have h7 := h6.step (a := Act.step 1) trivial rfl
  have h8 := h7.step (a := Act.step 1) trivial rfl
  have h9 := h8.step (a := Act.step 1) trivial rfl
  have h10 := h9.step (a := Act.step 1) trivial rfl
  have h11 := h10.step (a := Act.step 1) trivial rfl
  exact ⟨_, h11, rfl, rfl, ⟨_, List.mem_cons_self, rfl⟩, not_lost_of_reach h11⟩

end XVapor.Wait
