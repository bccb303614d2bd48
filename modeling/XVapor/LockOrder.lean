import XVapor.LockPaths

/-!
# The Order of the Spinlocks

The timer, sleep and signal paths take the locks in the order `tg.lock`, `siglock`,
`tickslock` and `timeout_lock`, `t->lock`, with two exceptions: `get_timeout_ticks` takes
`tickslock` while the sleeping thread holds its `t->lock`, and `signal_send` takes the
`siglock` of a thread while the sender holds the `t->lock` of that thread. Both run against
the order of another path: `clockintr` takes every `t->lock` with `tickslock` held, and
`signal_handle` takes `t->lock` with the `siglock` held.

If the two exceptions never find their lock taken, no cycle of CPUs spins. If they do, two
CPUs can spin for each other.

## Main results

* `no_cycle_of_reach`: no cycle of spinning CPUs, in any run in which a CPU that holds a
  `t->lock` finds `tickslock` and the `siglock`s free.
-/

namespace XVapor.Paths

variable {T P : Type} [DecidableEq T] [DecidableEq P]

open Cmd

/-! ### The calls -/

/-- The locks that callers of `thread_sleep` sleep on. -/
inductive SleepOn
  | cons
  | uartTx
  | pipe (i : ℕ)
  | sleeplock (i : ℕ)
  | vdisk
  | wait
  | ticks
  | sig
  deriving DecidableEq, Repr

/-- The lock, for the sleeping thread `t`. -/
def SleepOn.lock (t : T) : SleepOn → KLock T P
  | .cons => .cons
  | .uartTx => .uartTx
  | .pipe i => .pipe i
  | .sleeplock i => .sleeplock i
  | .vdisk => .vdisk
  | .wait => .wait
  | .ticks => .ticks
  | .sig => .sig t

/-- The calls of the sleep, timer and signal paths. `cur` is the current thread of the CPU,
if it has one, and `group` is the list of the threads of a process. -/
inductive TimerCall (T P : Type)
  | clockintr (cur : Option T)
  | threadSleep (t : T) (lk : SleepOn) (timeout : Bool)
  | futexWait (t : T) (timeout : Bool)
  | threadSendSignal (t : T)
  | signalHandle (t : T)
  | threadKill (cur : Option T)
  | procSendsignalAllThread (cur : Option T) (p : P) (group : List T)

/-- The programs of the calls. The callers of `thread_sleep` and of `thread_send_signal`
take the lock it is called with, and release it. -/
def timerProg (pool : List T) : TimerCall T P → Path T P
  | .clockintr cur => Paths.clockintr pool cur
  | .threadSleep t lk timeout =>
    block [acquire (lk.lock t), call (Paths.threadSleep t (lk.lock t) timeout),
      release (lk.lock t)]
  | .futexWait t timeout => Paths.futexWait t timeout
  | .threadSendSignal t =>
    block [acquire (.tcb t), call (Paths.threadSendSignal t), release (.tcb t)]
  | .signalHandle t => Paths.signalHandle t
  | .threadKill cur => Paths.threadKill pool cur
  | .procSendsignalAllThread cur p group =>
    Paths.procSendsignalAllThread pool cur p group

/-- The machine of CPUs that run these calls. -/
def timerMachine (A : Type) [DecidableEq A] (pool : List T) :
    Machine (LockState A (KLock T P) Test) (LockAct A (TimerCall T P)) :=
  lockMachine A fun _ => timerProg pool

/-! ### The order -/

/-- The rank of a lock. The locks a thread sleeps on are at the bottom. -/
def rank : KLock T P → ℕ
  | .tg _ => 1
  | .sig _ => 2
  | .ticks => 3
  | .timeout => 3
  | .tcb _ => 4
  | _ => 0

/-- The two acquisitions that go down: `tickslock` or a `siglock`, with a `t->lock` held. -/
def Inverted (H : KLock T P → Prop) (l : KLock T P) : Prop :=
  (l = .ticks ∨ ∃ t, l = .sig t) ∧ ∃ t, H (.tcb t)

/-- Acquisitions go up the ranks, or are one of the two that go down; and those two are
assumed to find their lock free. -/
def orderRules (T P : Type) : LockRules (KLock T P) Test where
  acq H l := (∀ m, H m → rank m < rank l) ∨ Inverted H l
  yield _ := True
  wait H l := ¬ Inverted H l
  can _ _ _ := True

/-- The condition on one action: a CPU that holds a `t->lock` attempts `tickslock` or a
`siglock` only if that lock is free. -/
def FindsFree {A : Type} (s : LockState A (KLock T P) Test) :
    LockAct A (TimerCall T P) → Prop
  | .start _ _ => True
  | .step a _ => ∀ l k, s.conf a = some ⟨.acquire l, k⟩ → Inverted (s.holds a) l →
      s.lock l = none

omit [DecidableEq T] [DecidableEq P] in
/-- The condition is the assumption of the rules. -/
theorem FindsFree.allowed {A : Type} {s : LockState A (KLock T P) Test}
    {x : LockAct A (TimerCall T P)} (h : FindsFree s x) : Allowed (fun _ => orderRules T P) s x := by
  cases x with
  | start a p => trivial
  | step a answer =>
    rintro ⟨c, k⟩ hc
    cases c with
    | acquire l => exact fun hne hinv => hne (h l k hc hinv)
    | ite b c d => trivial
    | loop b c => cases b <;> trivial
    | _ => trivial

/-! ### The calls keep the order -/

section

omit [DecidableEq T] [DecidableEq P]

theorem acq_nil (l : KLock T P) :
    (orderRules T P).acq (· ∈ ([] : List (KLock T P))) l :=
  .inl fun _ h => nomatch h

theorem acq_singleton {l m : KLock T P} (h : rank m < rank l) :
    (orderRules T P).acq (· ∈ [m]) l := by
  refine .inl fun x hx => ?_
  obtain rfl := List.mem_singleton.1 hx
  exact h

theorem acq_pair {l m n : KLock T P} (hm : rank m < rank l) (hn : rank n < rank l) :
    (orderRules T P).acq (· ∈ [m, n]) l := by
  refine .inl fun x hx => ?_
  rcases List.mem_pair.1 hx with rfl | rfl
  · exact hm
  · exact hn

end

/-- **Every call keeps to the order**, but for the two exceptions. -/
theorem balanced_timerProg (pool : List T) (x : TimerCall T P) :
    Balanced (orderRules T P) (timerProg pool x) [] := by
  have hinv : ∀ {Γ : List (KLock T P)} {l : KLock T P} (u : T), .tcb u ∈ Γ →
      (l = .ticks ∨ ∃ t, l = .sig t) → (orderRules T P).acq (· ∈ Γ) l :=
    fun u hu hl => .inr ⟨hl, u, hu⟩
  cases x with
  | clockintr cur =>
    refine ⟨by simp, acq_nil _, ?_⟩
    refine Safe.seq_call (balanced_threadWakeupChan pool cur (by simp)
      fun t => acq_singleton (by simp [rank])) ⟨by simp, ?_⟩
    rw [List.erase_cons_head]
    refine ⟨by simp, acq_nil _, ?_⟩
    refine Safe.seq_call (balanced_wakeupFirst _ pool cur (by simp)
      fun t => acq_singleton (by simp [rank])) ⟨by simp, ?_⟩
    simp [Safe, block]
  | threadSleep t lk timeout =>
    have hlt : rank (lk.lock t : KLock T P) < rank (.tcb t : KLock T P) := by
      cases lk <;> simp [SleepOn.lock, rank]
    have hne : (lk.lock t : KLock T P) ≠ .tcb t := by
      intro h
      rw [h] at hlt
      omega
    refine ⟨by simp, acq_nil _, ?_⟩
    refine Safe.seq_call (balanced_threadSleep timeout hne (acq_singleton hlt) (acq_nil _)
      (acq_nil _) trivial fun _ => hinv t (by simp) (.inl rfl)) ⟨by simp, ?_⟩
    simp [Safe, block]
  | futexWait t timeout =>
    exact balanced_futexWait timeout acq_nil (acq_singleton (by simp [rank])) trivial
      fun _ => hinv t (by simp) (.inl rfl)
  | threadSendSignal t =>
    refine ⟨by simp, acq_nil _, ?_⟩
    refine Safe.seq_call (balanced_threadSendSignal (by simp)
      (hinv t (by simp) (.inr ⟨t, rfl⟩))) ⟨by simp, ?_⟩
    simp [Safe, block]
  | signalHandle t =>
    exact balanced_signalHandle (acq_nil _) (acq_singleton (by simp [rank]))
  | threadKill cur =>
    exact balanced_threadKill pool cur acq_nil
      (fun u => hinv u (by simp) (.inr ⟨u, rfl⟩))
      (fun u => acq_singleton (by simp [rank])) fun u v => acq_singleton (by simp [rank])
  | procSendsignalAllThread cur p group =>
    exact balanced_procSendsignalAllThread pool cur p group (acq_nil _)
      (fun u => acq_singleton (by simp [rank]))
      (fun u => hinv u (by simp) (.inr ⟨u, rfl⟩))
      (fun u => acq_singleton (by simp [rank]))
      (fun u => acq_pair (by simp [rank]) (by simp [rank]))
      fun u v => acq_pair (by simp [rank]) (by simp [rank])

/-! ### Runs -/

/-- **No cycle of CPUs spins**, in any run in which a CPU that holds a `t->lock` attempts
`tickslock` and the `siglock`s only when they are free. -/
theorem no_cycle_of_reach {A : Type} [DecidableEq A] {pool : List T}
    {s : LockState A (KLock T P) Test} (h : (timerMachine A pool).Reach FindsFree s) (a : A) :
    ¬ Relation.TransGen (Waits s) a a := by
  obtain ⟨held, ht⟩ := tracked_of_reach (fun _ => balanced_timerProg pool)
    (h.mono fun _ _ => FindsFree.allowed)
  exact ht.acyclic rank (fun _ H l hacq hwait => hacq.resolve_right hwait) a

/-- Two CPUs send a signal to thread 1: one waits for the other, and that is all. -/
theorem no_cycle_while_waiting : ∃ s : LockState ℕ (KLock ℕ ℕ) Test,
    (timerMachine ℕ [0, 1]).Reach FindsFree s ∧ Waits s 1 0 ∧
      ¬ Relation.TransGen (Waits s) 1 1 := by
  have h0 : (timerMachine ℕ [0, 1]).Reach FindsFree (lockBoot ℕ (KLock ℕ ℕ) Test) := .init rfl
  have h1 := h0.step (a := LockAct.start 0 (.threadSendSignal 1)) trivial rfl
  have h2 := h1.step (a := LockAct.step 0 false) (fun _ _ h => nomatch h) rfl
  have h3 := h2.step (a := LockAct.step 0 false) (fun _ _ h _ => by cases h; rfl) rfl
  have h4 := h3.step (a := LockAct.start 1 (.threadSendSignal 1)) trivial rfl
  have h5 := h4.step (a := LockAct.step 1 false) (fun _ _ h => nomatch h) rfl
  have h6 := h5.step (a := LockAct.step 1 false)
    (fun _ _ h hinv => by cases h; simp [Inverted] at hinv) rfl
  exact ⟨_, h6, ⟨rfl, .tcb 1, _, rfl, rfl⟩, no_cycle_of_reach h6 1⟩

/-- `clockintr` takes `tickslock`, thread 1 comes into `get_timeout_ticks` of its
`futex_wait`, and `clockintr` comes to thread 1. -/
def ticksRun : List (LockAct ℕ (TimerCall ℕ ℕ)) :=
  .start 0 (.clockintr (some 0)) :: List.replicate 2 (.step 0 false) ++
    .start 1 (.futexWait 1 true) :: List.replicate 32 (.step 1 false) ++
    List.replicate 8 (.step 0 false)

/-- Thread 1 takes its `siglock` in `signal_handle`, a CPU that sends it a signal comes into
`signal_send`, and thread 1 comes to `thread_setkilled`. -/
def sigRun : List (LockAct ℕ (TimerCall ℕ ℕ)) :=
  .start 1 (.signalHandle 1) :: List.replicate 6 (.step 1 false) ++
    .start 0 (.threadSendSignal 1) :: List.replicate 17 (.step 0 false) ++
    List.replicate 2 (.step 1 true) ++ .step 1 false :: List.replicate 7 (.step 1 true)

omit [DecidableEq T] [DecidableEq P] in
theorem cycle_of_waits {s : LockState A (KLock T P) Test} {a b : A} (hab : Waits s a b)
    (hba : Waits s b a) : Waits s a b ∧ Waits s b a ∧ Relation.TransGen (Waits s) a a :=
  ⟨hab, hba, .tail (.single hab) hba⟩

/-- **Two CPUs spin for each other**: one in `clockintr` for the `t->lock` of a thread that
sleeps with a timeout, which spins for `tickslock`; or one that sends a signal for the
`siglock` of a thread, which spins in `signal_handle` for its own `t->lock`. -/
theorem cycles_reachable :
    (∃ s : LockState ℕ (KLock ℕ ℕ) Test, (timerMachine ℕ [0, 1]).Reach Machine.anyStep s ∧
      s.lock .ticks = some 0 ∧ s.lock (.tcb 1) = some 1 ∧ Waits s 0 1 ∧ Waits s 1 0 ∧
      Relation.TransGen (Waits s) 0 0) ∧
    (∃ s : LockState ℕ (KLock ℕ ℕ) Test, (timerMachine ℕ [0, 1]).Reach Machine.anyStep s ∧
      s.lock (.tcb 1) = some 0 ∧ s.lock (.sig 1) = some 1 ∧ Waits s 0 1 ∧ Waits s 1 0 ∧
      Relation.TransGen (Waits s) 0 0) := by
  constructor
  · have hrun : (timerMachine ℕ [0, 1]).exec (lockBoot ℕ (KLock ℕ ℕ) Test) ticksRun =
        some _ := rfl
    exact ⟨_, Machine.reach_of_exec rfl hrun, rfl, rfl,
      cycle_of_waits ⟨rfl, .tcb 1, _, rfl, rfl⟩ ⟨rfl, .ticks, _, rfl, rfl⟩⟩
  · have hrun : (timerMachine ℕ [0, 1]).exec (lockBoot ℕ (KLock ℕ ℕ) Test) sigRun =
        some _ := rfl
    exact ⟨_, Machine.reach_of_exec rfl hrun, rfl, rfl,
      cycle_of_waits ⟨rfl, .sig 1, _, rfl, rfl⟩ ⟨rfl, .tcb 1, _, rfl, rfl⟩⟩

end XVapor.Paths
