import XVapor.FutexTable
import XVapor.Machine
import XVapor.Tcb

/-!
# Sequences of Futex Calls

`do_futex` with its two operations, as `kernel/ipc/futex.c` runs them one call after the
other for the threads of one address space, without timeouts and signals. A
`FUTEX_WAIT` that finds the expected value leaves its thread `SLEEPING`; the call returns
only after some later wake. Beside the kernel state runs the list `waiters u` of the
threads that waited on `u` while the word had the expected value and have not been woken
since, in call order: what a wake has to act on.

## Main results

* `futexCalls_iff`: a sequence from boot does what the waiters ask for if and only if no call
  reaches `get_futex` for an address that has a node.
-/

namespace XVapor.FutexTable

open Function

variable {T : Type} [DecidableEq T]

/-! ### The calls -/

/-- The operations `do_futex` distinguishes. -/
inductive FutexOp
  | wait
  | waitPrivate
  | wake
  | wakePrivate
  | other
  deriving DecidableEq, Repr

/-- The state the calls work on: the futex table and allocator, the user words (`none`
where `copyin` fails), the tcb states with their queues, and `wait_chan_entry`, as the
page of the futex it points into. -/
structure Sys (T : Type) where
  kern : Kern T
  mem : UAddr → Option UInt32
  tcbs : Tcbs T
  waitChanEntry : T → Option ℕ

/-- A call has returned, or its thread has switched away in `thread_sched`. -/
inductive Outcome
  | ret (r : Int)
  | blocked
  deriving DecidableEq, Repr

/-- `futex_wait` with `timeout == NULL`, up to its return or to `thread_sched`. -/
def futexWait (s : Sys T) (t : T) (uaddr : UAddr) (val : UInt32) :
    Except Fault (Outcome × Sys T) :=
  match s.mem uaddr with
  | none => .ok (.ret (-1), s)
  | some uval =>
    if uval ≠ val then .ok (.ret 0, s)
    else
      match getFutex s.kern uaddr false with
      | .error e => .error e
      | .ok (none, k) => .ok (.ret (-1), { s with kern := k })
      | .ok (some fp, k) =>
        match waitPushBack k fp t with
        | .error e => .error e
        | .ok k =>
          .ok (.blocked, { s with
            kern := k
            tcbs := s.tcbs.tcbQChangeState t .sleeping
            waitChanEntry := update s.waitChanEntry t (some fp) })

/-- The body of the loop of `futex_wake` once `t` has been popped. -/
def wakeOne (s : Sys T) (t : T) : Except Fault (Sys T) :=
  if s.tcbs.state t ≠ .sleeping then
    .error (.printed (s.tcbs.state t).ctorIdx "futex wakeup : this thread is not sleeping")
  else if s.waitChanEntry t = none then .error (.panic "assert failed")
  else .ok { s with
    tcbs := s.tcbs.tcbQChangeState t .runnable
    waitChanEntry := update s.waitChanEntry t none }

/-- The loop of `futex_wake`, with the number of wakes still allowed, `nr_wake - ret`. -/
def wakeLoop (s : Sys T) (fp : ℕ) : ℕ → Int → Except Fault (Int × Sys T)
  | 0, ret => .ok (ret, s)
  | left + 1, ret =>
    match waitPop s.kern fp with
    | .error e => .error e
    | .ok none => .ok (ret, s)
    | .ok (some (t, k)) =>
      match wakeOne { s with kern := k } t with
      | .error e => .error e
      | .ok s => wakeLoop s fp left (ret + 1)

/-- `futex_wake`. -/
def futexWake (s : Sys T) (uaddr : UAddr) (nrWake : Int) :
    Except Fault (Outcome × Sys T) :=
  match getFutex s.kern uaddr true with
  | .error e => .error e
  | .ok (none, k) => .ok (.ret 0, { s with kern := k })
  | .ok (some fp, k) =>
    match wakeLoop { s with kern := k } fp nrWake.toNat 0 with
    | .error e => .error e
    | .ok (ret, s) =>
      match waitPop s.kern fp with
      | .error e => .error e
      | .ok (some _) => .ok (.ret ret, s)
      | .ok none =>
        match futexFree s.kern uaddr with
        | .error e => .error e
        | .ok k => .ok (.ret ret, { s with kern := k })

/-- The `int nr_wake` that `do_futex` makes of its `uint32 val`. -/
def nrWake (val : UInt32) : Int := val.toInt32.toInt

/-- `do_futex` called by thread `t`. -/
def doFutex (s : Sys T) (t : T) (uaddr : UAddr) (op : FutexOp) (val : UInt32) :
    Except Fault (Outcome × Sys T) :=
  match op with
  | .wait | .waitPrivate => futexWait s t uaddr val
  | .wake | .wakePrivate => futexWake s uaddr (nrWake val)
  | .other => .ok (.ret (-1), s)

/-! ### What the calls have to do -/

/-- `FUTEX_WAIT` and its private form. -/
def FutexOp.isWait : FutexOp → Bool
  | .wait | .waitPrivate => true
  | _ => false

/-- `FUTEX_WAKE` and its private form. -/
def FutexOp.isWake : FutexOp → Bool
  | .wake | .wakePrivate => true
  | _ => false

/-- The kernel state and the waiters of every address. -/
structure CallState (T : Type) where
  sys : Sys T
  waiters : UAddr → List T

/-- What happens between boot and the end of the sequence: a call of a thread, a store of
user code, or the scheduler giving a `RUNNABLE` thread a CPU. -/
inductive Action (T : Type)
  | call (t : T) (uaddr : UAddr) (op : FutexOp) (val : UInt32)
  | store (uaddr : UAddr) (v : UInt32)
  | dispatch (t : T)

/-- The waiters after a call: a wait on the expected value joins, a wake takes the first
`nr_wake` away. -/
def waitersAfter (s : CallState T) (t : T) (uaddr : UAddr) (op : FutexOp) (val : UInt32) :
    UAddr → List T :=
  if op.isWait ∧ s.sys.mem uaddr = some val then
    update s.waiters uaddr (s.waiters uaddr ++ [t])
  else if op.isWake then
    update s.waiters uaddr ((s.waiters uaddr).drop (nrWake val).toNat)
  else s.waiters

/-- One action; only a `RUNNING` thread makes calls. -/
def callStep (s : CallState T) : Action T → Option (CallState T)
  | .call t uaddr op val =>
    if s.sys.tcbs.state t = .running then
      match doFutex s.sys t uaddr op val with
      | .ok (_, s') => some ⟨s', waitersAfter s t uaddr op val⟩
      | .error _ => none
    else none
  | .store uaddr v =>
    if s.sys.mem uaddr = none then none
    else some { s with
      sys := { s.sys with mem := update s.sys.mem uaddr (some v) } }
  | .dispatch t =>
    if s.sys.tcbs.state t = .runnable then
      some { s with
        sys := { s.sys with tcbs := (s.sys.tcbs.queueRemove t).setState t .running } }
    else none

/-- Before the first futex call, with `n` free pages: nobody waits, whatever the words and
the thread states are. -/
def callBoot (n : ℕ) (mem : UAddr → Option UInt32) (tcbs : Tcbs T)
    (chan : T → Option ℕ) : CallState T where
  sys := ⟨boot n, mem, tcbs, chan⟩
  waiters := fun _ => []

/-- The sequences of actions. -/
def callMachine (T : Type) [DecidableEq T] : Machine (CallState T) (Action T) where
  init s := ∃ n mem tcbs chan, s = callBoot n mem tcbs chan
  step := callStep

/-- Every waiter is `SLEEPING` and on the waiting queue of the live futex that the table
has for its address, in call order. -/
def Queued (s : Sys T) (W : UAddr → List T) : Prop :=
  ∀ u, ∀ t ∈ W u, s.tcbs.state t = .sleeping ∧
    ∃ fp f, futexHashLookup s.kern u = .ok (some fp) ∧ s.kern.page fp = .futex f ∧
      f.waitingQueue = W u ∧ s.waitChanEntry t = some fp

/-- What a call has to return and to do to the thread states. A wait on the expected value
blocks and never fails; a wake returns how many of the waiters it took, and those and no
other threads change state. -/
def Effect (s : CallState T) (t : T) (uaddr : UAddr) (op : FutexOp) (val : UInt32)
    (o : Outcome) (s' : Sys T) : Prop :=
  (op.isWait → s.sys.mem uaddr = some val → o = .blocked) ∧
  (op.isWait → ∀ uval, s.sys.mem uaddr = some uval → uval ≠ val → o = .ret 0) ∧
  (op.isWait → ∀ t', t' ≠ t → s'.tcbs.state t' = s.sys.tcbs.state t') ∧
  (op.isWake →
    o = .ret (min (nrWake val).toNat (s.waiters uaddr).length : ℕ) ∧
    (∀ t' ∈ (s.waiters uaddr).take (nrWake val).toNat, s'.tcbs.state t' = .runnable) ∧
    ∀ t' ∉ (s.waiters uaddr).take (nrWake val).toNat,
      s'.tcbs.state t' = s.sys.tcbs.state t')

/-- The call, if a `RUNNING` thread makes it, comes back with the right effect and leaves
every remaining waiter asleep and queued. -/
def WakeOk (s : CallState T) : Action T → Prop
  | .call t uaddr op val => s.sys.tcbs.state t = .running →
      ∃ o s', doFutex s.sys t uaddr op val = .ok (o, s') ∧
        Effect s t uaddr op val o s' ∧ Queued s' (waitersAfter s t uaddr op val)
  | _ => True

/-- The call goes through to `get_futex`: it is a wake, or a wait on the expected value. -/
def ReachesGet (s : CallState T) (uaddr : UAddr) (op : FutexOp) (val : UInt32) : Prop :=
  op.isWake ∨ (op.isWait ∧ s.sys.mem uaddr = some val)

/-- A call that goes through to `get_futex` is for an address without a node, and a wait
among these finds the two pages of its futex. -/
def Unshared (s : CallState T) : Action T → Prop
  | .call t uaddr op val => s.sys.tcbs.state t = .running →
      ReachesGet s uaddr op val → ¬ HasNode s.sys.kern uaddr ∧
        (op.isWait → 2 ≤ s.sys.kern.freelist.length)
  | _ => True

/-- The invariant of the good sequences: an address with a node has one waiter. -/
structure CallInv (s : CallState T) : Prop where
  wf : Wf s.sys.kern
  one : ∀ u, HasNode s.sys.kern u → ∃ t, s.waiters u = [t]
  queued : Queued s.sys s.waiters

section

variable {s s' : CallState T} {t : T} {u : UAddr} {op : FutexOp} {val : UInt32}

omit [DecidableEq T] in
theorem callInv_callBoot (n : ℕ) (mem : UAddr → Option UInt32) (tcbs : Tcbs T)
    (chan : T → Option ℕ) : CallInv (callBoot n mem tcbs chan) where
  wf := wf_boot n
  one := by simp [callBoot, HasNode, boot]
  queued := by simp [Queued, callBoot]

omit [DecidableEq T] in
theorem CallInv.waiters_eq_nil (hi : CallInv s) (h : ¬ HasNode s.sys.kern u) :
    s.waiters u = [] := by
  rw [List.eq_nil_iff_forall_not_mem]
  intro t ht
  obtain ⟨-, fp, f, hlook, -⟩ := hi.queued u t ht
  rw [hi.wf.lookup_absent h] at hlook
  cases hlook

/-! ### One call -/

theorem doFutex_of_isWake (h : op.isWake) :
    doFutex s.sys t u op val = futexWake s.sys u (nrWake val) := by
  cases op <;> first | rfl | cases h

theorem doFutex_of_isWait (h : op.isWait) :
    doFutex s.sys t u op val = futexWait s.sys t u val := by
  cases op <;> first | rfl | cases h

theorem FutexOp.not_isWait_of_isWake {op : FutexOp} (h : op.isWake) : ¬ op.isWait := by
  cases op <;> first | exact Bool.false_ne_true | cases h

/-- **A wake of an address with a node goes wrong**: it returns 0, and the futex its
waiter is queued on has been freed. -/
theorem CallInv.not_wakeOk_wake (hi : CallInv s) (hop : op.isWake)
    (hr : s.sys.tcbs.state t = .running) (h : HasNode s.sys.kern u) :
    ¬ WakeOk s (.call t u op val) := by
  intro hok
  obtain ⟨o, s', hcall, ⟨-, -, -, heff⟩, hq⟩ := hok hr
  obtain ⟨ho, -, -⟩ := heff hop
  obtain ⟨w, hw⟩ := hi.one u h
  obtain ⟨pos, hpos, fp, k', hn, hget, -, hfree, -, hlook⟩ := hi.wf.getFutex_present h true
  simp only [doFutex_of_isWake hop, futexWake, hget, Except.ok.injEq, Prod.mk.injEq] at hcall
  obtain ⟨rfl, rfl⟩ := hcall
  rw [hw, List.length_singleton, Outcome.ret.injEq] at ho
  -- returning 0 is right only for `nr_wake ≤ 0`, which leaves the waiter on the queue
  have hn0 : (nrWake val).toNat = 0 := by omega
  have hmem : w ∈ waitersAfter s t u op val u := by
    simp [waitersAfter, FutexOp.not_isWait_of_isWake hop, hop, hn0, hw]
  obtain ⟨-, fp', f, hlook', hf, -⟩ := hq u w hmem
  rw [hlook, Except.ok.injEq, Option.some.injEq] at hlook'
  rw [← hlook', hfree] at hf
  cases hf

/-- **A wait on the expected value goes wrong if its address has a node or memory is
short**: `get_futex` returns `NULL`, and the wait fails. -/
theorem CallInv.not_wakeOk_wait (hi : CallInv s) (hop : op.isWait)
    (hr : s.sys.tcbs.state t = .running) (hm : s.sys.mem u = some val)
    (h : HasNode s.sys.kern u ∨ s.sys.kern.freelist.length < 2) :
    ¬ WakeOk s (.call t u op val) := by
  have hget : ∃ k', getFutex s.sys.kern u false = .ok (none, k') := by
    by_cases hno : HasNode s.sys.kern u
    · obtain ⟨-, -, -, k', -, hget, -⟩ := hi.wf.getFutex_present hno false
      exact ⟨k', hget⟩
    · exact hi.wf.getFutex_noMem hno (h.resolve_left hno)
  obtain ⟨k', hget⟩ := hget
  intro hok
  obtain ⟨o, s', hcall, ⟨hblock, -⟩, -⟩ := hok hr
  simp only [doFutex_of_isWait hop, futexWait, hm, hget, ne_eq, not_true_eq_false, if_false,
    Except.ok.injEq, Prod.mk.injEq] at hcall
  rw [hblock hop hm] at hcall
  cases hcall.1

/-- The kernel state after a wait that created its futex. -/
def slept (s : Sys T) (t : T) (u : UAddr) (fp fhn : ℕ) (rest : List ℕ) : Sys T where
  kern := setQueue (withFutex s.kern u fp fhn rest) fp [t]
  mem := s.mem
  tcbs := s.tcbs.tcbQChangeState t .sleeping
  waitChanEntry := update s.waitChanEntry t (some fp)

variable {fp fhn : ℕ} {rest : List ℕ}

theorem CallInv.queued_slept (hi : CallInv s) (hr : s.sys.tcbs.state t = .running)
    (h : ¬ HasNode s.sys.kern u) (hfl : s.sys.kern.freelist = fp :: fhn :: rest) :
    Queued (slept s.sys t u fp fhn rest) (update s.waiters u [t]) := by
  have hnew := hi.wf.page_withFutex_futex u hfl
  have hwf := hi.wf.create h hfl
  intro u' t' ht'
  obtain rfl | hu := eq_or_ne u' u
  · obtain rfl : t' = t := by simpa using ht'
    refine ⟨by simp [slept], fp, ⟨.image "futex", [t']⟩, ?_, by simp [slept, setQueue],
      by simp, by simp [slept]⟩
    rw [← hi.wf.lookup_withFutex_self h hfl]
    exact hwf.lookup_setQueue hnew u'
  · rw [update_of_ne hu] at ht' ⊢
    obtain ⟨hs, fp', f, hlook, hf, hq, hc⟩ := hi.queued u' t' ht'
    have hne : t' ≠ t := ne_of_values hs hr (by simp)
    have hfp : fp' ≠ fp := by
      rintro rfl
      rw [hi.wf.free fp' (by simp [hfl])] at hf
      cases hf
    refine ⟨by simp [slept, hne, hs], fp', f, ?_, ?_, hq, by simp [slept, hne, hc]⟩
    · rw [← hi.wf.lookup_withFutex h hfl hlook]
      exact hwf.lookup_setQueue hnew u'
    · rw [← hf, ← hi.wf.page_withFutex u hfl (by simp [hf])]
      exact setQueue_page_of_ne hfp

omit [DecidableEq T] in
theorem CallInv.waitersAfter_wake (hi : CallInv s) (hop : op.isWake)
    (h : ¬ HasNode s.sys.kern u) : waitersAfter s t u op val = s.waiters := by
  have hnil := hi.waiters_eq_nil h
  have hself : update s.waiters u [] = s.waiters := by
    rw [← hnil, update_eq_self]
  simp [waitersAfter, FutexOp.not_isWait_of_isWake hop, hop, hnil, hself]

theorem futexWait_of_ne (h : s.sys.mem u ≠ some val) :
    futexWait s.sys t u val =
      .ok (.ret (if s.sys.mem u = none then -1 else 0), s.sys) := by
  rcases hm : s.sys.mem u with _ | uval
  · simp [futexWait, hm]
  rw [hm, ne_eq, Option.some.injEq] at h
  simp [futexWait, hm, h]

/-- The three ways an unshared call of a `RUNNING` thread can go: it does not reach
`get_futex` and changes nothing; it is a wake, finds no futex, returns 0, and there was
no waiter; or it is a wait, creates the futex, and blocks. -/
theorem CallInv.unshared_cases (hi : CallInv s) (hr : s.sys.tcbs.state t = .running)
    (h : Unshared s (.call t u op val)) :
    (¬ ReachesGet s u op val ∧ waitersAfter s t u op val = s.waiters ∧
      doFutex s.sys t u op val = .ok (.ret
        (if op.isWait ∧ s.sys.mem u ≠ none then 0 else -1), s.sys)) ∨
    (op.isWake ∧ s.waiters u = [] ∧ waitersAfter s t u op val = s.waiters ∧
      doFutex s.sys t u op val = .ok (.ret 0, s.sys)) ∨
    (op.isWait ∧ s.sys.mem u = some val ∧ ¬ HasNode s.sys.kern u ∧
      waitersAfter s t u op val = update s.waiters u [t] ∧
      ∃ fp fhn rest, s.sys.kern.freelist = fp :: fhn :: rest ∧
        doFutex s.sys t u op val = .ok (.blocked, slept s.sys t u fp fhn rest)) := by
  by_cases hreach : ReachesGet s u op val
  · obtain ⟨hno, hlen⟩ := h hr hreach
    rcases hreach with hop | ⟨hop, hm⟩
    · refine .inr (.inl ⟨hop, hi.waiters_eq_nil hno, hi.waitersAfter_wake hop hno, ?_⟩)
      rw [doFutex_of_isWake hop]
      simp [futexWake, hi.wf.getFutex_absent_assert hno]
    · obtain ⟨fp, fhn, rest, hfl⟩ := exists_pages (hlen hop)
      refine .inr (.inr ⟨hop, hm, hno, ?_, fp, fhn, rest, hfl, ?_⟩)
      · simp [waitersAfter, hop, hm, hi.waiters_eq_nil hno]
      · have hpage := hi.wf.page_withFutex_futex u hfl
        rw [doFutex_of_isWait hop]
        simp [futexWait, hm, hi.wf.getFutex_create hno hfl, waitPushBack, hpage, slept, setQueue]
  · have hnot := hreach
    simp only [ReachesGet, not_or] at hreach
    refine .inl ⟨hnot, by simp [waitersAfter, hreach.1, hreach.2], ?_⟩
    by_cases hop : op.isWait
    · rw [doFutex_of_isWait hop, futexWait_of_ne (not_and.1 hreach.2 hop)]
      by_cases hm : s.sys.mem u = none <;> simp [hop, hm]
    · cases op with
      | other => rfl
      | wait | waitPrivate => exact absurd rfl hop
      | wake | wakePrivate => exact absurd rfl hreach.1

theorem CallInv.wakeOk (hi : CallInv s) (h : Unshared s (.call t u op val)) :
    WakeOk s (.call t u op val) := by
  intro hr
  rcases hi.unshared_cases hr h with ⟨hreach, hW, hcall⟩ | ⟨hop, hnil, hW, hcall⟩ |
    ⟨hop, hm, hno, hW, fp, fhn, rest, hfl, hcall⟩
  · refine ⟨_, _, hcall, ?_, hW ▸ hi.queued⟩
    simp only [ReachesGet, not_or, not_and] at hreach
    refine ⟨fun hop hm => absurd hm (hreach.2 hop), ?_, fun _ _ _ => rfl,
      fun hop => absurd hop hreach.1⟩
    intro hop uval hm _
    simp [hop, hm]
  · refine ⟨_, _, hcall, ?_, hW ▸ hi.queued⟩
    have hnw := FutexOp.not_isWait_of_isWake hop
    refine ⟨fun h => absurd h hnw, fun h => absurd h hnw, fun h => absurd h hnw, ?_⟩
    intro _
    simp [hnil]
  · refine ⟨_, _, hcall, ?_, hW ▸ hi.queued_slept hr hno hfl⟩
    refine ⟨fun _ _ => rfl, ?_, ?_, fun hw => absurd hop (FutexOp.not_isWait_of_isWake hw)⟩
    · intro _ uval hm' hne
      rw [hm, Option.some.injEq] at hm'
      exact absurd hm'.symm hne
    · intro _ t' hne
      simp [slept, hne]

/-- **One action**: under the invariant, it does what the waiters ask for exactly if it is
unshared. -/
theorem CallInv.wakeOk_iff_unshared (hi : CallInv s) (a : Action T) :
    WakeOk s a ↔ Unshared s a := by
  cases a with
  | store u v => exact Iff.rfl
  | dispatch t => exact Iff.rfl
  | call t u op val =>
    refine ⟨fun hok hr hreach => ?_, hi.wakeOk⟩
    rcases hreach with hop | ⟨hop, hm⟩
    · exact ⟨fun hno => hi.not_wakeOk_wake hop hr hno hok,
        fun hw => absurd hw (FutexOp.not_isWait_of_isWake hop)⟩
    · refine ⟨fun hno => hi.not_wakeOk_wait hop hr hm (.inl hno) hok, fun _ => ?_⟩
      by_contra hlen
      exact hi.not_wakeOk_wait hop hr hm (.inr (by omega)) hok

/-! ### Sequences of calls -/

omit [DecidableEq T] in
theorem CallInv.of_kern_eq (hi : CallInv s) (hk : s'.sys.kern = s.sys.kern)
    (hW : s'.waiters = s.waiters) (hc : s'.sys.waitChanEntry = s.sys.waitChanEntry)
    (hst : ∀ t, s.sys.tcbs.state t = .sleeping → s'.sys.tcbs.state t = .sleeping) :
    CallInv s' := by
  refine ⟨hk ▸ hi.wf, by rw [hk, hW]; exact hi.one, ?_⟩
  intro u t ht
  rw [hW] at ht
  obtain ⟨hs, fp, f, hlook, hf, hq, hchan⟩ := hi.queued u t ht
  exact ⟨hst t hs, fp, f, hk ▸ hlook, hk ▸ hf, hW ▸ hq, hc ▸ hchan⟩

theorem CallInv.step (hi : CallInv s) {a : Action T} (h : Unshared s a)
    (hs : callStep s a = some s') : CallInv s' := by
  cases a with
  | store u v =>
    simp only [callStep] at hs
    split at hs
    · cases hs
    · cases hs
      exact hi.of_kern_eq rfl rfl rfl fun _ h => h
  | dispatch t =>
    simp only [callStep] at hs
    obtain ⟨hrun, rfl⟩ := guard_eq_some.1 hs
    refine hi.of_kern_eq rfl rfl rfl fun t' ht' => ?_
    have hne : t' ≠ t := ne_of_values ht' hrun nofun
    simpa [hne] using ht'
  | call t u op val =>
    simp only [callStep] at hs
    split at hs
    next hr =>
      rcases hi.unshared_cases hr h with ⟨-, hW, hcall⟩ | ⟨-, -, hW, hcall⟩ |
        ⟨hop, hm, hno, hW, fp, fhn, rest, hfl, hcall⟩
      · rw [hcall] at hs
        cases hs
        exact hi.of_kern_eq rfl hW rfl fun _ h => h
      · rw [hcall] at hs
        cases hs
        exact hi.of_kern_eq rfl hW rfl fun _ h => h
      · rw [hcall, hW] at hs
        cases hs
        have hnew := hi.wf.page_withFutex_futex u hfl
        have hwf := hi.wf.create hno hfl
        refine ⟨hwf.setQueue hnew [t], fun u' hu' => ?_, hi.queued_slept hr hno hfl⟩
        by_cases hu : u' = u
        · exact ⟨t, by simp [hu]⟩
        · have hold := (hi.wf.hasNode_withFutex hfl (hwf.hasNode_setQueue hnew hu'))
          obtain ⟨w, hw⟩ := hi.one u' (hold.resolve_left hu)
          exact ⟨w, by simp [hu, hw]⟩
    next => cases hs

end

/-- **Along every sequence of calls from boot, the futex calls do what the waiters ask for
exactly if no call reaches `get_futex` for an address that has a node**, with memory for
the futexes of the waits. -/
theorem futexCalls_iff (n : ℕ) (mem : UAddr → Option UInt32) (tcbs : Tcbs T)
    (chan : T → Option ℕ) (as : List (Action T)) :
    (callMachine T).Along WakeOk (callBoot n mem tcbs chan) as ↔
      (callMachine T).Along Unshared (callBoot n mem tcbs chan) as :=
  Machine.along_iff_along (I := CallInv) (fun _ a hi => hi.wakeOk_iff_unshared a)
    (fun _ _ _ hi h hs => hi.step h hs) (callInv_callBoot n mem tcbs chan)

/-- Two pages, every word 7, and every thread `RUNNING`. -/
def twoRunning : CallState ℕ :=
  callBoot 2 (fun _ => some 7) ⟨fun _ => .running, fun _ => []⟩ fun _ => none

/-- Thread 1 waits on a word, and thread 2 wakes one waiter of it: the wake returns 0, and
thread 1 stays `SLEEPING`. -/
theorem futexWake_misses_waiter :
    ∃ s1 s2, callStep twoRunning (.call 1 4096 .wait 7) = some s1 ∧
      s1.waiters 4096 = [1] ∧ doFutex s1.sys 2 4096 .wake 1 = .ok (.ret 0, s2) ∧
      s2.tcbs.state 1 = .sleeping ∧
      ¬ (callMachine ℕ).Along WakeOk twoRunning
        [.call 1 4096 .wait 7, .call 2 4096 .wake 1] := by
  refine ⟨_, _, rfl, rfl, rfl, rfl, ?_⟩
  rintro ⟨-, h⟩
  obtain ⟨o, s', hcall, ⟨-, -, -, heff⟩, -⟩ := (h _ rfl).1 rfl
  have ho := (heff rfl).1
  cases hcall
  exact absurd ho (by decide)

end XVapor.FutexTable
