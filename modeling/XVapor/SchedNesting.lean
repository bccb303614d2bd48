import XVapor.LockPaths

/-!
# Giving up the CPU with One Lock Held

`thread_sched` panics unless the nesting counter of the CPU is one. The blocking operations
of the kernel as lock programs, each run by a thread of its own: console, UART, pipe,
sleeplock and disk, `wait_one` and `wait4`, `nanosleep`, `futex_wait` and `sigtimedwait`.

All of them come to `thread_sched` with the lock of their thread and no other, with one
exception: `consolewrite` calls `uartputc` with `cons.lock` held, and `uartputc` sleeps if
the transmit buffer is full.

## Main results

* `sched_of_reach`: in any run in which `consolewrite` finds room in the transmit buffer, a
  thread that enters `thread_sched` holds its own lock and no other.
-/

namespace XVapor.Paths

variable {T P : Type} [DecidableEq T] [DecidableEq P]

open Cmd

/-- What the paths know when they are entered: the thread pool, the process table, and the
process of a thread. -/
structure Tables (T P : Type) where
  pool : List T
  procs : List P
  procOf : T → P

/-! ### The operations -/

section

variable (k : Tables T P) (t : T)

/-- `thread_wakeup_chan`, called by thread `t`. -/
def wakeupChan : Path T P := threadWakeupChan k.pool (some t)

/-- `proc_killed`. -/
def procKilled (p : P) : Path T P :=
  block [acquire (.proc p), release (.proc p)]

/-- `if (proc_killed(p)) { release(&l); return -1; }` -/
def returnIfKilled (l : KLock T P) : Path T P :=
  block [call (procKilled (k.procOf t)), ite .killed (block [release l, ret]) skip]

/-- `uartstart`, called with `uart_tx_lock` held. -/
def uartstart : Path T P :=
  loop none (block [ite .uartEmpty ret skip, ite .uartBusy ret skip, call (wakeupChan k t)])

/-- `uartputc`. -/
def uartputc : Path T P :=
  block [acquire .uartTx, ite .panicked (loop none skip) skip,
    loop (some .uartFull) (call (threadSleep t .uartTx false)),
    call (uartstart k t), release .uartTx]

/-- `consolewrite`. -/
def consolewrite : Path T P :=
  block [acquire .cons,
    loop (some .moreBytes) (block [ite .copyinFails brk skip, call (uartputc k t)]),
    release .cons]

/-- `consoleread`. -/
def consoleread : Path T P :=
  block [acquire .cons,
    loop (some .moreBytes) (block [
      loop (some .consEmpty) (block [returnIfKilled k t .cons,
        call (threadSleep t .cons false)]),
      ite .endOfFile brk skip, ite .copyoutFails brk skip, ite .newline brk skip]),
    release .cons]

/-- `pipewrite`. `proc_killed` is called if the reading end is open. -/
def pipewrite (i : ℕ) : Path T P :=
  block [acquire (.pipe i),
    loop (some .moreBytes) (block [
      ite .readClosed (block [release (.pipe i), ret]) skip,
      returnIfKilled k t (.pipe i),
      ite .pipeFull
        (block [call (wakeupChan k t), call (threadSleep t (.pipe i) false)])
        (ite .copyinFails brk skip)]),
    call (wakeupChan k t), release (.pipe i)]

/-- `piperead`. -/
def piperead (i : ℕ) : Path T P :=
  block [acquire (.pipe i),
    loop (some .pipeEmptyOpen) (block [returnIfKilled k t (.pipe i),
      call (threadSleep t (.pipe i) false)]),
    loop (some .moreBytes) (block [ite .pipeEmpty brk skip, ite .copyoutFails brk skip]),
    call (wakeupChan k t), release (.pipe i)]

/-- `acquiresleep`. -/
def acquiresleep (i : ℕ) : Path T P :=
  block [acquire (.sleeplock i),
    loop (some .sleeplocked) (call (threadSleep t (.sleeplock i) false)),
    release (.sleeplock i)]

/-- A number of calls of `free_desc`, in `alloc_descs` that fails and in `free_chain`. -/
def freeDescs : Path T P :=
  loop (some .moreDescs) (call (wakeupChan k t))

/-- `virtio_disk_rw_multiple`. A write does not wait. -/
def virtioDiskRwMultiple (write : Bool) : Path T P :=
  block [ite .tooManyDescs ret skip, acquire .vdisk,
    loop none (block [
      ite .descsFree brk skip, freeDescs k t,
      if write then block [release .vdisk, ret] else skip,
      call (threadSleep t .vdisk false)]),
    if write then skip else block [
      loop (some .diskBusy) (call (threadSleep t .vdisk false)), freeDescs k t],
    release .vdisk]

/-- `freeproc` of `pp` by a thread of `cur`, with a `free_thread` for each thread that is
left. -/
def freeproc (cur pp : P) : Path T P :=
  block [acquire (.lthExit pp), acquire (.tg cur),
    loop (some .moreThreads) (block [acquire (.mm pp), release (.mm pp)]),
    release (.tg cur), release (.lthExit pp)]

/-- What `wait_one` and `wait4` do for the process `pp` of the table. -/
def waitScan (pp : P) : Path T P :=
  ite .isChild
    (block [acquire (.proc pp),
      ite .zombie
        (block [
          ite .copyoutFails (block [release (.proc pp), release .wait, ret]) skip,
          call (freeproc (k.procOf t) pp), release (.proc pp), release .wait, ret])
        skip,
      release (.proc pp)])
    skip

/-- `wait_one` and `wait4`, which has one more test before it sleeps. -/
def waitChild (test : Path T P) : Path T P :=
  block [acquire .wait,
    loop none (block [
      forEach k.procs (waitScan k t),
      ite .noKids (block [release .wait, ret]) skip,
      returnIfKilled k t .wait, test,
      call (threadSleep t .wait false)])]

def waitOne : Path T P := waitChild k t skip

def wait4 : Path T P := waitChild k t (ite .noHang (block [release .wait, ret]) skip)

/-- `sys_nanosleep`. -/
def sysNanosleep : Path T P :=
  block [ite .copyinFails ret skip, acquire .ticks,
    loop (some .timeLeft) (block [returnIfKilled k t .ticks,
      call (threadSleep t .ticks false)]),
    ite .remGiven (ite .copyoutFails (block [release .ticks, ret]) skip) skip,
    release .ticks]

end

/-- The blocking operations. -/
inductive BlockingCall
  | consolewrite
  | uartputc
  | consoleread
  | pipewrite (i : ℕ)
  | piperead (i : ℕ)
  | acquiresleep (i : ℕ)
  | virtioDiskRw (write : Bool)
  | waitOne
  | wait4
  | nanosleep
  | futexWait (timeout : Bool)
  | sigtimedwait (timeout : Bool)
  deriving DecidableEq, Repr

/-- The program of an operation of thread `t`. -/
def blockingProg (k : Tables T P) (t : T) : BlockingCall → Path T P
  | .consolewrite => Paths.consolewrite k t
  | .uartputc => Paths.uartputc k t
  | .consoleread => Paths.consoleread k t
  | .pipewrite i => Paths.pipewrite k t i
  | .piperead i => Paths.piperead k t i
  | .acquiresleep i => Paths.acquiresleep t i
  | .virtioDiskRw write => virtioDiskRwMultiple k t write
  | .waitOne => Paths.waitOne k t
  | .wait4 => Paths.wait4 k t
  | .nanosleep => sysNanosleep k t
  | .futexWait timeout => Paths.futexWait t timeout
  | .sigtimedwait timeout => doSigtimedwait t timeout

/-- The machine of threads that run the operations. -/
def blockingMachine (k : Tables T P) :
    Machine (LockState T (KLock T P) Test) (LockAct T BlockingCall) :=
  lockMachine T (blockingProg k)

/-! ### The rules -/

/-- The condition on one action: with `cons.lock` held, the transmit buffer is not found
full. -/
def FindsRoom (s : LockState T (KLock T P) Test) : LockAct T BlockingCall → Prop
  | .start _ _ => True
  | .step t answer => ∀ c, s.conf t = some c → c.cmd.test = some .uartFull →
      s.lock .cons = some t → answer = false

instance (s : LockState T (KLock T P) Test) (x : LockAct T BlockingCall) :
    Decidable (FindsRoom s x) :=
  match x with
  | .start _ _ => .isTrue trivial
  | .step t answer =>
    match h : s.conf t with
    | none => .isTrue fun c hc => by simp [h] at hc
    | some c =>
      decidable_of_iff (c.cmd.test = some .uartFull → s.lock .cons = some t → answer = false)
        (by simp [FindsRoom, h])

/-- A thread gives up the CPU with its own lock, and finds the buffer full only without
`cons.lock`. -/
def nestingRules (P : Type) (t : T) : LockRules (KLock T P) Test where
  acq _ _ := True
  yield l := l = .tcb t
  wait _ _ := True
  can H b answer := b = .uartFull → H .cons → answer = false

omit [DecidableEq T] [DecidableEq P] in
/-- The condition is the assumption of the rules. -/
theorem FindsRoom.allowed {s : LockState T (KLock T P) Test} {x : LockAct T BlockingCall}
    (h : FindsRoom s x) : Allowed (nestingRules P) s x := by
  cases x with
  | start t c => trivial
  | step t answer =>
    rintro ⟨c, k⟩ hc
    have hroom : ∀ b, c.test = some b → (nestingRules P t).can (s.holds t) b answer := by
      rintro b hb rfl hcons
      exact h _ hc hb hcons
    cases c with
    | acquire l => exact fun _ => trivial
    | ite b c d => exact hroom b rfl
    | loop b c =>
      cases b with
      | none => trivial
      | some b => exact hroom b rfl
    | _ => trivial

/-! ### The operations keep the rules -/

section

variable {t : T} {k : Tables T P} {Γ : List (KLock T P)}
  {ret brk : List (KLock T P) → Prop}

variable {lk l : KLock T P}

theorem balanced_sleep (timeout : Bool) (h : lk ≠ .tcb t) :
    Balanced (nestingRules P t) (threadSleep t lk timeout) [lk] :=
  balanced_threadSleep timeout h trivial trivial trivial rfl fun _ => trivial

theorem balanced_wakeupChan (h : ∀ u, .tcb u ∉ Γ) :
    Balanced (nestingRules P t) (wakeupChan k t) Γ :=
  balanced_threadWakeupChan k.pool (some t) h fun _ => trivial

theorem safe_sleepLoop {b : Test} (h : lk ≠ .tcb t) :
    Safe (nestingRules P t) (loop (some b) (call (threadSleep t lk false))) (· = [lk]) ret
      brk [lk] :=
  ⟨fun _ => (balanced_sleep false h).call rfl, fun _ => rfl⟩

theorem safe_returnIfKilled (hl : l ≠ .proc (k.procOf t)) :
    Safe (nestingRules P t) (returnIfKilled k t l) (· = [l]) (· = []) brk [l] := by
  have hkilled : Balanced (nestingRules P t) (procKilled (k.procOf t)) [l] :=
    safe_acquire_release (by simpa using hl.symm) trivial rfl
  refine Safe.seq_call hkilled ⟨fun _ => ?_, fun _ => rfl⟩
  simp [Safe, block]

theorem safe_sleepLoop_killed {b : Test} (hl : l ≠ .proc (k.procOf t)) (ht : l ≠ .tcb t) :
    Safe (nestingRules P t) (loop (some b) (block [returnIfKilled k t l,
      call (threadSleep t l false)])) (· = [l]) (· = []) brk [l] := by
  refine ⟨fun _ => ?_, fun _ => rfl⟩
  exact Safe.seq_keep (safe_returnIfKilled hl) (Safe.seq_call (balanced_sleep false ht) rfl)

theorem balanced_uartstart (h : ∀ u, .tcb u ∉ Γ) :
    Balanced (nestingRules P t) (uartstart k t) Γ :=
  ⟨fun _ => rfl, fun _ => ⟨fun _ => rfl, fun _ =>
    Safe.seq_call (balanced_wakeupChan h) rfl⟩⟩

/-- `uartputc` sleeps only if it is called with nothing held: with `cons.lock` held the
buffer has room. -/
theorem balanced_uartputc (h : Γ = [] ∨ Γ = [.cons]) :
    Balanced (nestingRules P t) (uartputc k t) Γ := by
  have hu : KLock.uartTx ∉ Γ := by rcases h with rfl | rfl <;> simp
  have htcb : ∀ u, KLock.tcb u ∉ KLock.uartTx :: Γ := by rcases h with rfl | rfl <;> simp
  have hrest : Safe (nestingRules P t) (block [call (uartstart k t), release .uartTx])
      (· = Γ) (· = Γ) (fun _ => False) (.uartTx :: Γ) :=
    Safe.seq_call (balanced_uartstart htcb) ⟨by simp, by simp [Safe, block]⟩
  refine ⟨hu, trivial, ?_⟩
  refine Safe.seq_keep ⟨fun _ => rfl, fun _ => rfl⟩ ⟨fun hfull => ?_, fun _ => hrest⟩
  rcases h with rfl | rfl
  · exact (balanced_sleep false (by simp)).call rfl
  · exact absurd (hfull rfl (by simp)) (by simp)

theorem balanced_consolewrite : Balanced (nestingRules P t) (consolewrite k t) [] := by
  refine ⟨by simp, trivial, fun _ => ?_, fun _ => by simp [Safe, block]⟩
  refine ⟨fun _ => by simp [Safe, block], fun _ => ?_⟩
  exact Safe.seq_call (balanced_uartputc (.inr rfl)) rfl

theorem balanced_consoleread : Balanced (nestingRules P t) (consoleread k t) [] := by
  have hend : Safe (nestingRules P t) (release .cons) (· = []) (· = []) (fun _ => False)
      [.cons] := by simp [Safe]
  refine ⟨by simp, trivial, fun _ => ?_, fun _ => by simp [Safe, block]⟩
  refine Safe.seq_keep (safe_sleepLoop_killed (by simp) (by simp)) ?_
  refine ⟨fun _ => hend, fun _ => ⟨fun _ => hend, fun _ => ⟨fun _ => hend, fun _ => rfl⟩⟩⟩

theorem safe_pipeEnd (i : ℕ) :
    Safe (nestingRules P t) (block [call (wakeupChan k t), release (.pipe i)]) (· = []) (· = [])
      (fun _ => False) [.pipe i] :=
  Safe.seq_call (balanced_wakeupChan (by simp)) (by simp [Safe, block])

theorem balanced_pipewrite (i : ℕ) : Balanced (nestingRules P t) (pipewrite k t i) [] := by
  refine ⟨by simp, trivial, fun _ => ?_, fun _ => safe_pipeEnd i⟩
  refine ⟨fun _ => by simp [Safe, block], fun _ => ?_⟩
  refine Safe.seq_keep (safe_returnIfKilled (by simp)) ⟨fun _ => ?_, fun _ => ?_⟩
  · exact Safe.seq_call (balanced_wakeupChan (by simp))
      (Safe.seq_call (balanced_sleep false (by simp)) rfl)
  · exact ⟨fun _ => safe_pipeEnd i, fun _ => rfl⟩

theorem balanced_piperead (i : ℕ) : Balanced (nestingRules P t) (piperead k t i) [] := by
  refine ⟨by simp, trivial, ?_⟩
  refine Safe.seq_keep (safe_sleepLoop_killed (by simp) (by simp)) ?_
  refine ⟨fun _ => ?_, fun _ => safe_pipeEnd i⟩
  exact ⟨fun _ => safe_pipeEnd i, fun _ => ⟨fun _ => safe_pipeEnd i, fun _ => rfl⟩⟩

theorem safe_freeDescs (h : ∀ u, .tcb u ∉ Γ) :
    Safe (nestingRules P t) (freeDescs k t) (· = Γ) ret brk Γ :=
  ⟨fun _ => (balanced_wakeupChan h).call rfl, fun _ => rfl⟩

theorem balanced_virtioDiskRwMultiple (write : Bool) :
    Balanced (nestingRules P t) (virtioDiskRwMultiple k t write) [] := by
  have hend : Safe (nestingRules P t) (block [release .vdisk])
      (· = []) (· = []) (fun _ => False) [.vdisk] := by simp [Safe, block]
  refine ⟨fun _ => rfl, fun _ => ⟨by simp, trivial, fun _ => ?_, fun _ => ?_⟩⟩
  · -- the request, once it has its descriptors
    cases write with
    | true => exact hend
    | false =>
      exact Safe.seq_keep
        (Safe.seq_keep (safe_sleepLoop (by simp))
          (Safe.seq_keep (safe_freeDescs (by simp)) rfl)) hend
  · refine Safe.seq_keep (safe_freeDescs (by simp)) ?_
    cases write with
    | true => simp [Safe, block]
    | false => exact Safe.seq_call (balanced_sleep false (by simp)) rfl

theorem balanced_freeproc (cur pp : P) :
    Balanced (nestingRules P t) (freeproc cur pp) [.proc pp, .wait] := by
  refine ⟨by simp, trivial, by simp, trivial, fun _ => ?_, fun _ => by simp [Safe, block]⟩
  exact safe_acquire_release (by simp) trivial rfl

theorem safe_waitScan (pp : P) :
    Safe (nestingRules P t) (waitScan k t pp) (· = [.wait]) (· = []) brk [.wait] := by
  refine ⟨fun _ => ?_, fun _ => rfl⟩
  refine ⟨by simp, trivial, fun _ => ?_, fun _ => by simp [Safe, block]⟩
  refine ⟨fun _ => by simp [Safe, block], fun _ => ?_⟩
  exact Safe.seq_call (balanced_freeproc _ pp) (by simp [Safe, block])

theorem balanced_waitChild {test : Path T P}
    (htest : ∀ brk, Safe (nestingRules P t) test (· = [.wait]) (· = []) brk [.wait]) :
    Balanced (nestingRules P t) (waitChild k t test) [] := by
  refine ⟨by simp, trivial, Safe.seq (Safe.forever ?_)⟩
  refine Safe.seq_keep (Safe.forEach (fun pp _ => safe_waitScan pp) rfl) ?_
  refine ⟨fun _ => by simp [Safe, block], fun _ => ?_⟩
  refine Safe.seq_keep (safe_returnIfKilled (by simp)) (Safe.seq_keep (htest _) ?_)
  exact Safe.seq_call (balanced_sleep false (by simp)) rfl

theorem balanced_sysNanosleep : Balanced (nestingRules P t) (sysNanosleep k t) [] := by
  have hend : Safe (nestingRules P t) (block [release .ticks])
      (· = []) (· = []) (fun _ => False) [.ticks] := by simp [Safe, block]
  refine ⟨fun _ => rfl, fun _ => ⟨by simp, trivial, ?_⟩⟩
  refine Safe.seq_keep (safe_sleepLoop_killed (by simp) (by simp)) ?_
  exact ⟨fun _ => ⟨fun _ => by simp [Safe, block], fun _ => hend⟩, fun _ => hend⟩

theorem balanced_doSigtimedwait (timeout : Bool) :
    Balanced (nestingRules P t) (doSigtimedwait t timeout) [] := by
  have hhandle : Safe (nestingRules P t) (block [call (signalHandle t)]) (· = []) (· = [])
      (fun _ => False) [] :=
    Safe.seq_call (balanced_signalHandle trivial trivial) rfl
  refine ⟨fun _ => rfl, fun _ => ⟨by simp, trivial, fun _ => ?_, fun _ => ?_⟩⟩
  · simpa [Safe] using hhandle
  · refine ⟨fun _ => (balanced_sleep timeout (by simp)).call rfl, fun _ => ⟨by simp, ?_⟩⟩
    rw [List.erase_cons_head]
    exact ⟨fun _ => hhandle, fun _ => rfl⟩

/-- **Every operation keeps the rules.** -/
theorem balanced_blockingProg (k : Tables T P) (t : T) (c : BlockingCall) :
    Balanced (nestingRules P t) (blockingProg k t c) [] := by
  cases c with
  | consolewrite => exact balanced_consolewrite
  | uartputc => exact balanced_uartputc (.inl rfl)
  | consoleread => exact balanced_consoleread
  | pipewrite i => exact balanced_pipewrite i
  | piperead i => exact balanced_piperead i
  | acquiresleep i =>
    exact ⟨by simp, trivial, Safe.seq_keep (safe_sleepLoop (by simp)) (by simp [Safe, block])⟩
  | virtioDiskRw write => exact balanced_virtioDiskRwMultiple write
  | waitOne => exact balanced_waitChild fun _ => rfl
  | wait4 => exact balanced_waitChild fun _ => ⟨fun _ => by simp [Safe, block], fun _ => rfl⟩
  | nanosleep => exact balanced_sysNanosleep
  | futexWait timeout =>
    exact balanced_futexWait timeout (fun _ => trivial) trivial rfl fun _ => trivial
  | sigtimedwait timeout => exact balanced_doSigtimedwait timeout

end

/-! ### Runs -/

/-- **A thread that enters `thread_sched` holds its own lock and no other**, its nesting
counter is one, and `thread_sched` does not panic; in any run in which `uartputc`, called
with `cons.lock` held, does not find the transmit buffer full. -/
theorem sched_of_reach {k : Tables T P} {s : LockState T (KLock T P) Test}
    (h : (blockingMachine k).Reach FindsRoom s) {t : T} {l : KLock T P}
    {fs : List (Frame (KLock T P) Test)} (hc : s.conf t = some ⟨.sched l, fs⟩) :
    s.noff t = 1 ∧ (∀ m, s.lock m = some t ↔ m = .tcb t) ∧
      ∀ answer, (blockingMachine k).step s (.step t answer) ≠ none := by
  obtain ⟨held, ht⟩ := tracked_of_reach (balanced_blockingProg k)
    (h.mono fun _ _ => FindsRoom.allowed)
  obtain ⟨hl, hn, hlocks⟩ := ht.sched hc
  have hl : l = .tcb t := hl
  rw [hl] at hc hlocks
  refine ⟨hn, hlocks, fun answer => ?_⟩
  simp [blockingMachine, lockMachine, lockStep, hc, confStep, (hlocks _).2 rfl, hn]

/-- One thread, of one process. -/
def oneThread : Tables ℕ ℕ := ⟨[0], [0], fun _ => 0⟩

/-- Thread 0 waits for a sleeplock, and comes to `thread_sched`. -/
theorem sched_of_acquiresleep : ∃ s fs,
    (blockingMachine oneThread).Reach FindsRoom s ∧ s.conf 0 = some ⟨.sched (.tcb 0), fs⟩ ∧
      s.noff 0 = 1 ∧ s.lock (.sleeplock 0) ≠ some 0 := by
  have hrun : (blockingMachine oneThread).exec (lockBoot ℕ (KLock ℕ ℕ) Test)
      (.start 0 (.acquiresleep 0) :: List.replicate 15 (.step 0 true)) = some _ := rfl
  have h0 : (blockingMachine oneThread).Reach FindsRoom (lockBoot ℕ (KLock ℕ ℕ) Test) :=
    .init rfl
  have h := h0.exec_along (by decide) hrun
  have hs := sched_of_reach h (t := 0) rfl
  exact ⟨_, _, h, rfl, hs.1, fun hl => by simpa using (hs.2.1 _).1 hl⟩

/-! ### A full buffer -/

/-- Thread 0 in the loop of `consolewrite`. -/
def writing : LockState ℕ (KLock ℕ ℕ) Test where
  lock l := if l = .cons then some 0 else none
  noff t := if t = 0 then 1 else 0
  conf t := if t = 0 then
      some ⟨loop (some .moreBytes) (block [ite .copyinFails brk skip,
        call (uartputc oneThread 0)]), [.seq (block [release .cons])]⟩
    else none
  spin _ := false

/-- The next byte is put into the buffer, and the UART is not ready to send. -/
def putByte : List (LockAct ℕ BlockingCall) :=
  .step 0 true :: List.replicate 21 (.step 0 false) ++ List.replicate 11 (.step 0 true)

/-- The next byte finds the buffer full. -/
def findFull : List (LockAct ℕ BlockingCall) :=
  .step 0 true :: List.replicate 12 (.step 0 false) ++ List.replicate 11 (.step 0 true)

theorem exec_enter : (blockingMachine oneThread).exec (lockBoot ℕ (KLock ℕ ℕ) Test)
    (.start 0 .consolewrite :: List.replicate 4 (.step 0 false)) = some writing := by
  refine congrArg some (LockState.ext (funext fun l => ?_) (funext fun t => ?_)
    (funext fun t => ?_) (funext fun t => ?_))
  · cases l <;> rfl
  · cases t <;> rfl
  · cases t <;> rfl
  · cases t <;> rfl

theorem exec_putByte :
    (blockingMachine oneThread).exec writing putByte = some writing := by
  refine congrArg some (LockState.ext (funext fun l => ?_) (funext fun t => ?_)
    (funext fun t => ?_) (funext fun t => ?_))
  · cases l <;> rfl
  · cases t <;> rfl
  · cases t <;> rfl
  · cases t <;> rfl

/-- **A write to the console panics**: the UART does not become ready, the first 32 bytes
fill the buffer (`UART_TX_BUF_SIZE`), and the next one sleeps with `cons.lock` held. Thread 0
is at `thread_sched` with a nesting counter of two, where it has no next step. -/
theorem consolewrite_sched_locks : ∃ s fs,
    (blockingMachine oneThread).exec (lockBoot ℕ (KLock ℕ ℕ) Test)
      (.start 0 .consolewrite :: List.replicate 4 (.step 0 false) ++
        (List.replicate 32 putByte).flatten ++ findFull) = some s ∧
      s.conf 0 = some ⟨.sched (.tcb 0), fs⟩ ∧ s.lock .cons = some 0 ∧ s.noff 0 = 2 ∧
      ∀ answer, (blockingMachine oneThread).step s (.step 0 answer) = none := by
  have hfill : (blockingMachine oneThread).exec (lockBoot ℕ (KLock ℕ ℕ) Test)
      (.start 0 .consolewrite :: List.replicate 4 (.step 0 false) ++
        (List.replicate 32 putByte).flatten ++ findFull) =
      (blockingMachine oneThread).exec writing findFull := by
    rw [Machine.exec_append, Machine.exec_append, exec_enter, Option.bind_some,
      Machine.exec_replicate exec_putByte, Option.bind_some]
  have hfull : (blockingMachine oneThread).exec writing findFull = some _ := rfl
  exact ⟨_, _, hfill.trans hfull, rfl, rfl, rfl, fun _ => rfl⟩

end XVapor.Paths
