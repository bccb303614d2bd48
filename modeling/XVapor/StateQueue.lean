import XVapor.SchedInvariant

/-!
# Every Thread on the Queue of its State

Whenever `t->lock` is free, a tcb is linked on the queue of its state and on no other,
unless one agent has popped it and has not taken its lock yet: a CPU that is about to run a
`RUNNABLE` thread, or an `alloc_thread` that is about to use an `UNUSED` one. A `RUNNING`
thread is on no queue, and it is the `c->thread` of exactly one CPU.

This needs that a thread is not freed by another one while it runs, or while a CPU has
popped it: `free_allother_threads_group` does not look. And it needs that no `do_clone`
fails after `create_proc`, because `freeproc` frees the leader without its lock.

## Main results

* `stateQueues_of_reach`: the queues are right in every state reached by such actions.
-/

namespace XVapor.Sched

open scoped Sample

variable {A T : Type} [DecidableEq A] [DecidableEq T]

variable {s s' : SchedState A T} {home : T → Option TcbState} {a : A} {t : T} {p : Pc T}

/-! ### What is to hold -/

/-- The agent has popped the tcb, and has not taken its lock yet. -/
def Popped (s : SchedState A T) (a : A) (t : T) : Prop :=
  s.pc a = .popped t ∨ s.pc a = .allocWant t

/-- What is to hold of a tcb whose lock is free. -/
structure PlacedOk (s : SchedState A T) (t : T) : Prop where
  linked : ∀ st, t ∈ s.tcbs.queue st ↔
    st = s.tcbs.state t ∧ st ≠ .running ∧ ∀ a, ¬ Popped s a t
  once : ∀ st, (s.tcbs.queue st).count t ≤ 1
  runnable : ∀ a, s.pc a = .popped t → s.tcbs.state t = .runnable
  unused : ∀ a, s.pc a = .allocWant t → s.tcbs.state t = .unused
  popped_unique : ∀ a b, Popped s a t → Popped s b t → a = b
  running : s.tcbs.state t = .running → ∃! a, s.cthread a = some t

/-- **The queues are right**: every tcb whose lock is free is in its place, only a
`RUNNABLE` tcb is set `RUNNING`, and only a `RUNNING` one is switched to. -/
structure QueuesOk (s : SchedState A T) : Prop where
  placed : ∀ t, s.lock t = none → PlacedOk s t
  toRunning : ∀ a t, s.pc a = .locked t → s.tcbs.state t = .runnable
  switch : ∀ a t, s.pc a = .marked t → s.tcbs.state t = .running

/-- The condition on one action: when `free_allother_threads_group` comes to unlink a
thread, the thread is `SLEEPING`, or it is `RUNNABLE` and linked; and no `do_clone` fails
after `create_proc`. -/
def Tidy (s : SchedState A T) : Act A T → Prop
  | .step a _ => ∀ st t, s.pc a = .change .free st .remove t →
      s.tcbs.state t = .sleeping ∨
        (s.tcbs.state t = .runnable ∧ t ∈ s.tcbs.queue .runnable)
  | .next _ n => n ≠ .cloneProcFails
  | .own _ _ => True
  | .wake _ _ => True
  | .freeOther _ _ => True
  | .alloc _ => True

/-! ### Actions -/

theorem SchedInv.agentStep (hi : SchedInv s home) {hit : Bool}
    (hok : Tidy s (.step a hit)) (h : agentStep s a hit = some s') :
    ∃ home', SchedInv s' home' := by
  have hloc := hi.loc a
  cases hp : s.pc a with simp only [Sched.agentStep, hp, reduceCtorEq] at h
  | loop =>
    simp only [Tcbs.queuePop] at h
    split at h
    · rename_i hpop
      cases h
      exact ⟨home, hi⟩
    rename_i t c hpop
    cases h
    split at hpop
    · nomatch hpop
    rename_i u rest hq
    cases hpop
    exact ⟨home, hi.pop hq hp trivial⟩
  | popped t =>
    refine ⟨home, hi.acquire h hp fun hhome => ?_⟩
    have hhand := (hi.placed.inHand a t .runnable (by rw [Function.comp_apply, hp]; rfl)).1
    exact (Option.some.inj (hhand.symm.trans hhome)).symm
  | locked t =>
    cases h
    exact ⟨_, hi.toRunning hp⟩
  | marked t =>
    cases h
    rw [hp] at hloc
    exact ⟨home, hi.setThread (p := .switched t) (by rw [hp]; rfl) (by rw [hp]; rfl) rfl
      hloc⟩
  | switched t =>
    cases h
    rw [hp] at hloc
    have hhand := (hi.placed.inHand a t .running (by rw [Function.comp_apply, hp]; rfl)).1
    refine ⟨home, hi.release hp ?_ trivial⟩
    rw [hhand, show s.tcbs.state t = .running from hloc]
  | back t =>
    cases h
    rw [hp] at hloc
    exact ⟨home, hi.setThread (p := .unlock t) (by rw [hp]; rfl) (by rw [hp]; rfl) rfl
      hloc⟩
  | unlock t | rel t =>
    cases h
    rw [hp] at hloc
    exact ⟨home, hi.release hp hloc trivial⟩
  | want path t =>
    have hk : Keeps (.want path t) (.got path t) := by cases path <;> exact ⟨rfl, rfl, rfl⟩
    exact ⟨home, hi.acquire h hp id hk⟩
  | got path t =>
    rw [hp] at hloc
    cases path with simp only at h
    | wake =>
      split at h
      · rename_i hst
        cases h
        refine ⟨home, hi.goto hp ⟨rfl, ?_⟩⟩
        rw [LocalOk, hst.1] at hloc
        exact hloc
      cases h
      exact ⟨home, hi.goto hp hloc⟩
    | ready =>
      cases h
      exact ⟨home, hi.goto hp ⟨rfl, trivial⟩⟩
    | free =>
      cases h
      exact ⟨home, hi.goto hp ⟨rfl, hloc⟩⟩
  | allocWant t =>
    exact ⟨home, hi.acquire h hp fun _ => trivial⟩
  | allocGot t =>
    cases h
    exact ⟨home, hi.goto hp ⟨rfl, trivial⟩⟩
  | change k st stage t =>
    cases stage with
    | remove =>
      cases h
      exact ⟨_, hi.remove hp fun hk => hok st t (hk ▸ hp)⟩
    | push =>
      cases h
      exact ⟨_, hi.push hp⟩
    | set =>
      cases h
      exact ⟨_, hi.set hp⟩
  | freeproc stage t =>
    rw [hp] at hloc
    exact hloc.elim

theorem SchedInv.nextStep (hi : SchedInv s home) {n : Next} (hn : n ≠ .cloneProcFails)
    (h : nextStep s a n = some s') : SchedInv s' home := by
  have hloc := hi.loc a
  cases n with simp only [Sched.nextStep] at h
  | createProc =>
    split at h
    next t hp =>
      cases h
      rw [hp] at hloc
      exact hi.release hp hloc trivial
    next => nomatch h
  | cloneThread | cloneThreadFails =>
    split at h
    next t hp =>
      cases h
      exact hi.goto hp ⟨rfl, trivial⟩
    next => nomatch h
  | cloneProc =>
    split at h
    next t hp =>
      cases h
      exact hi.goto hp trivial
    next => nomatch h
  | cloneProcFails => exact absurd rfl hn

/-- **One action that meets the condition keeps the invariant.** -/
theorem SchedInv.act (hi : SchedInv s home) {x : Act A T} (hok : Tidy s x)
    (h : act s x = some s') : ∃ home', SchedInv s' home' := by
  cases x with
  | step a hit => exact hi.agentStep hok h
  | own a call =>
    simp only [Sched.act] at h
    split at h
    next t hp =>
      refine ⟨home, hi.acquire h hp fun _ => ⟨?_, trivial⟩⟩
      cases call <;> simp [OwnCall.state, Change.target]
    next => cases h
  | wake a t | freeOther a t =>
    simp only [Sched.act] at h
    obtain ⟨hp, rfl⟩ := guard_eq_some.1 h
    exact ⟨home, hi.goto hp trivial⟩
  | alloc a =>
    simp only [Sched.act, Tcbs.queuePop] at h
    split at h
    next hp =>
      cases hq : s.tcbs.queue .unused with
      | nil =>
        simp only [hq] at h
        cases h
        exact ⟨home, hi⟩
      | cons t rest =>
        simp only [hq] at h
        cases h
        exact ⟨home, hi.pop hq hp trivial⟩
    next => cases h
  | next a n => exact ⟨home, hi.nextStep hok h⟩

/-! ### Runs -/

omit [DecidableEq A] [DecidableEq T] in
theorem schedInv_boot (h : Boot s) : SchedInv s fun _ => some .unused := by
  have hpc : ∀ {B : Type} (f : Pc T → Option B), f .loop = none → f .idle = none →
      ∀ a, f (s.pc a) = none := by
    intro B f hl hid a
    rcases h.pc a with hp | hp <;> simp [hp, hl, hid]
  have hhand : ∀ a, handOf (s.pc a) = none := hpc handOf rfl rfl
  have hclaim : ∀ a, claimOf (s.pc a) = none := hpc claimOf rfl rfl
  refine ⟨⟨fun st => ?_, fun st t ht => ?_, fun a t st ha => ?_, fun a b t st st' ha => ?_,
    fun t st ht => ?_⟩, h.empty _ (by decide), fun a t ha => ?_, fun t _ => ?_, fun a => ?_,
    fun a t ha => ?_, fun a b t ha => ?_, fun a => ?_⟩
  · obtain rfl | hst := eq_or_ne st .unused
    · exact h.nodup
    · rw [h.empty st hst]
      exact List.nodup_nil
  · by_cases hst : st = .unused
    · rw [hst]
    · rw [h.empty st hst] at ht
      nomatch ht
  · exact nomatch (hhand a).symm.trans ha
  · exact nomatch (hhand a).symm.trans ha
  · cases ht
    exact .inl (h.pool t)
  · exact nomatch (hpc heldOf rfl rfl a).symm.trans ha
  · rw [h.state t]
  · rcases h.pc a with hp | hp <;> simp [hp, LocalOk]
  · exact nomatch (hclaim a).symm.trans ha
  · exact nomatch (hclaim a).symm.trans ha
  · rw [h.cthread a, hpc threadOf rfl rfl a]

omit [DecidableEq T] in
theorem cases_of_handOf {st : TcbState} (h : handOf p = some (t, st)) (hno : heldOf p ≠ some t) :
    (p = .popped t ∧ st = .runnable) ∨ (p = .allocWant t ∧ st = .unused) ∨
      (p = .run t ∧ st = .running) := by
  unfold handOf at h
  split at h <;> simp_all [heldOf]

omit [DecidableEq T] in
theorem eq_run_of_threadOf (h : threadOf p = some t) (hno : heldOf p ≠ some t) :
    p = .run t := by
  unfold threadOf at h
  split at h <;> simp_all [heldOf]

omit [DecidableEq A] in
theorem SchedInv.placedOk (hi : SchedInv s home) (hlock : s.lock t = none) :
    PlacedOk s t := by
  have hhome := hi.free t hlock
  have hno : ∀ a, heldOf (s.pc a) ≠ some t := fun a => hi.held.ne_of_free hlock a
  have hpop : ∀ a, Popped s a t → ∃ st, handOf (s.pc a) = some (t, st) := by
    rintro a (hp | hp)
    · exact ⟨.runnable, by rw [hp]; rfl⟩
    · exact ⟨.unused, by rw [hp]; rfl⟩
  have hstate : ∀ a st, handOf (s.pc a) = some (t, st) → s.tcbs.state t = st := by
    intro a st ha
    exact Option.some.inj (hhome.symm.trans (hi.placed.inHand a t st ha).1)
  refine ⟨fun st => ?_, fun st => List.nodup_iff_count_le_one.1 (hi.placed.nodup st) t,
    fun a hp => hstate a .runnable (by rw [hp]; rfl),
    fun a hp => hstate a .unused (by rw [hp]; rfl), fun a b ha hb => ?_, fun hrun => ?_⟩
  · constructor
    · intro hmem
      obtain ⟨hst, hhand⟩ := hi.placed.mem_iff.1 hmem
      have heq : st = s.tcbs.state t := Option.some.inj (hst.symm.trans hhome)
      refine ⟨heq, ?_, fun a ha => ?_⟩
      · rintro rfl
        rw [hi.running_nil] at hmem
        nomatch hmem
      · obtain ⟨st', ha'⟩ := hpop a ha
        obtain rfl := hstate a st' ha'
        exact hhand a (heq ▸ ha')
    · rintro ⟨rfl, hne, hnp⟩
      refine hi.placed.mem_iff.2 ⟨hhome, fun a ha => ?_⟩
      rcases cases_of_handOf ha (hno a) with ⟨hp, -⟩ | ⟨hp, -⟩ | ⟨-, hst⟩
      · exact hnp a (.inl hp)
      · exact hnp a (.inr hp)
      · exact hne hst
  · obtain ⟨st, ha⟩ := hpop a ha
    obtain ⟨st', hb⟩ := hpop b hb
    exact hi.placed.hand_inj a b t st st' ha hb
  · rw [hrun] at hhome
    rcases hi.placed.placed t .running hhome with hmem | ⟨a, ha⟩
    · rw [hi.running_nil] at hmem
      nomatch hmem
    rcases cases_of_handOf ha (hno a) with ⟨-, hst⟩ | ⟨-, hst⟩ | ⟨hp, -⟩
    · nomatch hst
    · nomatch hst
    refine ⟨a, by simp only [hi.cthread, hp]; rfl, fun b hb => ?_⟩
    have hpb := eq_run_of_threadOf ((hi.cthread b).symm.trans hb) (hno b)
    refine hi.placed.hand_inj b a t .running .running ?_ ha
    rw [Function.comp_apply, hpb]
    rfl

omit [DecidableEq A] in
theorem SchedInv.queuesOk (hi : SchedInv s home) : QueuesOk s where
  placed _ := hi.placedOk
  toRunning a t hp := by
    have hloc := hi.loc a
    rw [hp] at hloc
    exact hloc
  switch a t hp := by
    have hloc := hi.loc a
    rw [hp] at hloc
    exact hloc

/-- **Every thread is on the queue of its state**: in every state reached by actions that
meet the condition, a tcb whose lock is free is linked on the queue of its state and on no
other, unless one agent has just popped it; a `RUNNING` thread is on no queue and is the
thread of exactly one CPU; and no thread that has been freed is set `RUNNING` or switched
to. -/
theorem stateQueues_of_reach (h : (schedMachine A T).Reach Tidy s) : QueuesOk s := by
  have hinv : ∃ home, SchedInv s home := by
    refine h.invariant (I := fun s => ∃ home, SchedInv s home)
      (fun s hs => ⟨_, schedInv_boot hs⟩) ?_
    rintro s x s' ⟨home, hi⟩ hok hs
    exact hi.act hok hs
  obtain ⟨home, hi⟩ := hinv
  exact hi.queuesOk

/-- A thread is made, and the CPU pops it: the queues are right while it is in hand. -/
theorem stateQueues_popped : ∃ s : SchedState ℕ (Fin 2),
    (schedMachine ℕ (Fin 2)).Reach Tidy s ∧ s.pc 0 = .popped 0 ∧
      s.tcbs.state 0 = .runnable ∧ QueuesOk s := by
  have h0 : (schedMachine ℕ (Fin 2)).Reach Tidy bootTwo := .init boot_bootTwo
  have h1 := h0.step (a := Act.alloc 1) trivial rfl
  have h2 := h1.step (a := Act.step 1 true) (by rintro _ _ ⟨⟩) rfl
  have h3 := h2.step (a := Act.step 1 true) (by rintro _ _ ⟨⟩) rfl
  have h4 := h3.step (a := Act.step 1 true) (by rintro _ _ ⟨⟩) rfl
  have h5 := h4.step (a := Act.step 1 true) (by rintro _ _ ⟨⟩) rfl
  have h6 := h5.step (a := Act.step 1 true) (by rintro _ _ ⟨⟩) rfl
  have h7 := h6.step (a := Act.next 1 .cloneThread) (by rintro ⟨⟩) rfl
  have h8 := h7.step (a := Act.step 1 true) (by rintro _ _ ⟨⟩) rfl
  have h9 := h8.step (a := Act.step 1 true) (by rintro _ _ ⟨⟩) rfl
  have h10 := h9.step (a := Act.step 0 true) (by rintro _ _ ⟨⟩) rfl
  have h11 := h10.step (a := Act.step 1 true) (by rintro _ _ ⟨⟩) rfl
  exact ⟨_, h11, rfl, rfl, stateQueues_of_reach h11⟩

/-- `n` steps of agent 1. -/
def steps (n : ℕ) : List (Act ℕ (Fin 2)) := List.replicate n (.step 1 true)

/-- The actions by which agent 1 makes a thread and leaves it `RUNNABLE`. -/
def makeThread : List (Act ℕ (Fin 2)) :=
  .alloc 1 :: steps 5 ++ .next 1 .cloneThread :: steps 4

/-- **Three ways to a wrong queue.** Between the pop and the lock of `alloc_thread`, an
`UNUSED` tcb is on no queue while its lock is free. A CPU that has popped a thread
finds it freed when it gets the lock, and sets it `RUNNING` while it is linked on the queue
of the unused. And `freeproc`, after a `do_clone` that fails, links a `USED` tcb on that queue
while its lock is free. -/
theorem stateQueues_fail :
    (∃ s, (schedMachine ℕ (Fin 2)).Reach Machine.anyStep s ∧ s.lock 0 = none ∧
      s.tcbs.state 0 = .unused ∧ ∀ st, (0 : Fin 2) ∉ s.tcbs.queue st) ∧
    (∃ s s', (schedMachine ℕ (Fin 2)).Reach Machine.anyStep s ∧ s.pc 0 = .locked 0 ∧
      s.tcbs.state 0 = .unused ∧ act s (.step 0 true) = some s' ∧
      s'.tcbs.state 0 = .running ∧ 0 ∈ s'.tcbs.queue .unused ∧ ¬ QueuesOk s) ∧
    (∃ s, (schedMachine ℕ (Fin 2)).Reach Machine.anyStep s ∧ s.lock 0 = none ∧
      s.tcbs.state 0 = .used ∧ 0 ∈ s.tcbs.queue .unused ∧ ¬ QueuesOk s) := by
  refine ⟨?_, ?_, ?_⟩
  · refine ⟨_, Machine.reach_of_exec boot_bootTwo
      (rfl : (schedMachine ℕ (Fin 2)).exec bootTwo [.alloc 1] = some _), rfl, rfl, ?_⟩
    intro st
    cases st <;> decide
  · have hrun : (schedMachine ℕ (Fin 2)).exec bootTwo (makeThread ++
        .step 0 true :: .freeOther 1 0 :: steps 6 ++ [.step 0 true]) = some _ := rfl
    refine ⟨_, _, Machine.reach_of_exec boot_bootTwo hrun, rfl, rfl, rfl, rfl, by decide,
      fun hok => ?_⟩
    cases hok.toRunning 0 0 rfl
  · have hrun : (schedMachine ℕ (Fin 2)).exec bootTwo (.alloc 1 :: steps 5 ++
        .next 1 .createProc :: .next 1 .cloneProcFails :: steps 2) = some _ := rfl
    refine ⟨_, Machine.reach_of_exec boot_bootTwo hrun, rfl, rfl, by decide, fun hok => ?_⟩
    cases (((hok.placed 0 rfl).linked .unused).1 (by decide)).1

end XVapor.Sched
