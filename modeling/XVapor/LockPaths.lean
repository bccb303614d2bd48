import XVapor.LockProgram

/-!
# What the Kernel Paths do with Spinlocks

The functions of the sleep, timer, signal and blocking I/O paths as lock programs. A
program has every `acquire`, `release`, `thread_sched`, early return, loop and call of the
source function; an assignment is no command, and a test is a command if a lock operation or
a return depends on it. The locks inside the queues, of the allocator, and of the printing
of messages are taken and released around one step, and are left out.

A thread that is known when a path is entered (the current thread, the elements of the
thread pool) is a parameter of the program.
-/

namespace XVapor.Paths

/-! ### Locks and tests -/

/-- The spinlocks: of the console, the UART, each pipe and sleeplock, the disk and `wait`;
`tickslock` and `timeout_lock`; `t->lock`, `t->sig_pending.siglock`, `p->tg.lock`,
`p->lock`, `p->lth_exitlock` and `p->mm.lock`; and the lock of the futex table. -/
inductive KLock (T P : Type)
  | cons
  | uartTx
  | pipe (i : ℕ)
  | sleeplock (i : ℕ)
  | vdisk
  | wait
  | ticks
  | timeout
  | tcb (t : T)
  | sig (t : T)
  | tg (p : P)
  | proc (p : P)
  | lthExit (p : P)
  | mm (p : P)
  | futex
  deriving DecidableEq, Repr

/-- The tests on which lock operations depend. -/
inductive Test
  /-- `t->state == TCB_SLEEPING && t->timeout == ticks_now` -/
  | timeoutHit
  /-- the same, with `t->chan == chan` -/
  | chanTimeoutHit
  | signalInvalid
  | signalExists
  | noMemory
  /-- `t->pending_cnt == 0` -/
  | noPending
  /-- another element on `t->sig_pending.list` -/
  | morePending
  /-- the signal is not the one asked for, or it is ignored -/
  | signalSkipped
  /-- `sa_handler == SIG_DFL` -/
  | defaultAction
  /-- `SIGKILL` or `SIGIOT` -/
  | kills
  | handlerFails
  | tidInvalid
  | tidMatches
  | setEmpty
  /-- `t->timeout != 0` -/
  | timeoutSet
  | copyinFails
  | copyoutFails
  /-- `uval != val` -/
  | valueChanged
  | noFutex
  | killed
  | panicked
  /-- `uart_tx_w == uart_tx_r + UART_TX_BUF_SIZE` -/
  | uartFull
  /-- `uart_tx_w == uart_tx_r` -/
  | uartEmpty
  /-- the transmit holding register is full -/
  | uartBusy
  /-- `i < n` or `n > 0` -/
  | moreBytes
  /-- `cons.r == cons.w` -/
  | consEmpty
  /-- the byte is `C('D')` -/
  | endOfFile
  /-- the byte ends the line -/
  | newline
  /-- `pi->readopen == 0` -/
  | readClosed
  | pipeFull
  | pipeEmpty
  /-- `pi->nread == pi->nwrite && pi->writeopen` -/
  | pipeEmptyOpen
  /-- `lk->locked` -/
  | sleeplocked
  | tooManyDescs
  | descsFree
  | moreDescs
  /-- `bufs[0]->disk == 1` -/
  | diskBusy
  /-- `pp->parent == p`, in `wait4` with the pid asked for -/
  | isChild
  | zombie
  /-- another thread on `p->tg.threads` -/
  | moreThreads
  | noKids
  /-- `options & WNOHANG` -/
  | noHang
  /-- `ticks - ticks0 < rticks` -/
  | timeLeft
  /-- a second argument is given for the remaining time -/
  | remGiven
  deriving DecidableEq, Repr

/-- A path of the kernel. -/
abbrev Path (T P : Type) : Type := Cmd (KLock T P) Test

variable {T P : Type} [DecidableEq T] [DecidableEq P]

open Cmd

/-! ### Wakeups and ticks -/

/-- `thread_wakeup_chan`. The current thread is skipped; an idle CPU has none. -/
def threadWakeupChan (pool : List T) (cur : Option T) : Path T P :=
  forEach pool fun t =>
    if some t = cur then skip else block [acquire (.tcb t), release (.tcb t)]

/-- The loop of `thread_wakeup_timeout` and `thread_wakeup_chan_timeout`, which stops at the
first thread it wakes up. -/
def wakeupFirst (hit : Test) (pool : List T) (cur : Option T) : Path T P :=
  forEach pool fun t =>
    if some t = cur then skip
    else block [acquire (.tcb t), ite hit (block [release (.tcb t), ret]) (release (.tcb t))]

def threadWakeupTimeout (pool : List T) (cur : Option T) : Path T P :=
  wakeupFirst .timeoutHit pool cur

def threadWakeupChanTimeout (pool : List T) (cur : Option T) : Path T P :=
  wakeupFirst .chanTimeoutHit pool cur

/-- The reading of `ticks` in `get_ticksnow` and `get_timeout_ticks`. -/
def readTicks : Path T P :=
  block [acquire .ticks, release .ticks]

def getTicksnow : Path T P := readTicks

def getTimeoutTicks : Path T P := readTicks

/-- `clockintr`. -/
def clockintr (pool : List T) (cur : Option T) : Path T P :=
  block [acquire .ticks, call (threadWakeupChan pool cur), release .ticks,
    acquire .timeout, call (threadWakeupTimeout pool cur), release .timeout]

/-! ### Sleeping -/

/-- `thread_sleep` of thread `t` on the lock `lk`, with or without a timeout. -/
def threadSleep (t : T) (lk : KLock T P) (timeout : Bool) : Path T P :=
  block [acquire (.tcb t), release lk,
    if timeout then call getTimeoutTicks else skip,
    sched (.tcb t), release (.tcb t), acquire lk]

/-- `get_futex`. -/
def getFutex : Path T P :=
  block [acquire .futex, release .futex]

/-- `futex_wait` of thread `t`, with or without a timeout. -/
def futexWait (t : T) (timeout : Bool) : Path T P :=
  block [ite .copyinFails ret skip, ite .valueChanged ret skip, call getFutex,
    ite .noFutex ret skip, acquire .timeout, acquire (.tcb t), release .timeout,
    if timeout then call getTimeoutTicks else skip,
    sched (.tcb t), release (.tcb t)]

/-! ### Signals -/

/-- `signal_send`, called with `t->lock` held. -/
def signalSend (t : T) : Path T P :=
  block [ite .signalInvalid ret skip, ite .signalExists ret skip, ite .noMemory ret skip,
    acquire (.sig t), release (.sig t)]

/-- `thread_send_signal`, called with `t->lock` held. -/
def threadSendSignal (t : T) : Path T P :=
  call (signalSend t)

/-- `thread_setkilled`. -/
def threadSetkilled (t : T) : Path T P :=
  block [acquire (.tcb t), release (.tcb t)]

/-- `signal_default`. -/
def signalDefault (t : T) : Path T P :=
  ite .kills (call (threadSetkilled t)) skip

/-- `signal_handle`. -/
def signalHandle (t : T) : Path T P :=
  block [ite .noPending ret skip, acquire (.sig t),
    loop (some .morePending)
      (ite .signalSkipped skip
        (ite .defaultAction (call (signalDefault t))
          (ite .handlerFails (block [release (.sig t), ret]) brk))),
    release (.sig t)]

/-- What follows a `thread_send_signal` in `thread_kill` and in
`proc_sendsignal_all_thread`, for a thread that may wait for the signal. -/
def wakeSigwait (pool : List T) (cur : Option T) (t : T) : Path T P :=
  block [acquire (.sig t), call getTicksnow, call (threadWakeupChanTimeout pool cur),
    release (.sig t)]

/-- `thread_kill`. -/
def threadKill (pool : List T) (cur : Option T) : Path T P :=
  block [ite .tidInvalid ret skip,
    forEach pool fun t =>
      block [acquire (.tcb t),
        ite .tidMatches
          (block [call (threadSendSignal t), release (.tcb t), wakeSigwait pool cur t, ret])
          (release (.tcb t))]]

/-- `proc_sendsignal_all_thread`, for the threads `group` of the process. -/
def procSendsignalAllThread (pool : List T) (cur : Option T) (p : P) (group : List T) :
    Path T P :=
  block [acquire (.tg p),
    forEach group fun t =>
      block [acquire (.tcb t), call (threadSendSignal t), release (.tcb t),
        wakeSigwait pool cur t],
    release (.tg p)]

/-- `do_sigtimedwait`. The second test for the signal is made with the lock still held if
the first one found it, so that it finds it again. -/
def doSigtimedwait (t : T) (timeout : Bool) : Path T P :=
  block [ite .setEmpty ret skip, acquire (.sig t),
    ite .signalExists (release (.sig t))
      (block [loop (some .timeoutSet) (call (threadSleep t (.sig t) timeout)),
        release (.sig t), ite .signalExists skip ret]),
    call (signalHandle t)]

/-! ### Balance -/

section

variable {R : LockRules (KLock T P) Test} {Γ : List (KLock T P)} {t : T}

variable {post ret brk : List (KLock T P) → Prop}

theorem safe_acquire_release {l : KLock T P}
    (hl : l ∉ Γ) (hacq : R.acq (· ∈ Γ) l) (hp : post Γ) :
    Safe R (block [acquire l, release l]) post ret brk Γ :=
  ⟨hl, hacq, by simp, by simpa [Safe, block] using hp⟩

theorem balanced_threadWakeupChan (pool : List T) (cur : Option T)
    (hno : ∀ t, .tcb t ∉ Γ) (hacq : ∀ t, R.acq (· ∈ Γ) (.tcb t)) :
    Balanced R (threadWakeupChan pool cur) Γ := by
  refine Safe.forEach (fun t _ => ?_) rfl
  split
  · exact rfl
  · exact safe_acquire_release (hno t) (hacq t) rfl

theorem balanced_wakeupFirst (hit : Test) (pool : List T) (cur : Option T)
    (hno : ∀ t, .tcb t ∉ Γ) (hacq : ∀ t, R.acq (· ∈ Γ) (.tcb t)) :
    Balanced R (wakeupFirst hit pool cur) Γ := by
  refine Safe.forEach (fun t _ => ?_) rfl
  split
  · exact rfl
  · refine ⟨hno t, hacq t, fun _ => ?_, fun _ => ?_⟩
    · exact ⟨by simp, by simp [Safe, block]⟩
    · exact ⟨by simp, by simp [Safe, block]⟩

theorem balanced_readTicks (hno : .ticks ∉ Γ) (hacq : R.acq (· ∈ Γ) .ticks) :
    Balanced R readTicks Γ :=
  safe_acquire_release hno hacq rfl

theorem balanced_threadSleep {lk : KLock T P} (timeout : Bool) (hlk : lk ≠ .tcb t)
    (hacq : R.acq (· ∈ [lk]) (.tcb t)) (hlock : R.acq (· ∈ ([] : List (KLock T P))) lk)
    (htcb : R.acq (· ∈ ([] : List (KLock T P))) (.tcb t)) (hyield : R.yield (.tcb t))
    (hticks : timeout = true → R.acq (· ∈ [KLock.tcb t]) (.ticks : KLock T P)) :
    Balanced R (threadSleep t lk timeout) [lk] := by
  have herase : [KLock.tcb t, lk].erase lk = [.tcb t] := by
    rw [List.erase_cons_tail (by simpa using hlk.symm), List.erase_cons_head]
  have hrest : Safe R (block [sched (.tcb t), release (.tcb t), acquire lk]) (· = [lk])
      (· = [lk]) (fun _ => False) [.tcb t] :=
    ⟨rfl, hyield, htcb, by simp, by simpa [Safe, block] using hlock⟩
  refine ⟨by simpa using hlk.symm, hacq, by simp, ?_⟩
  rw [herase]
  cases timeout with
  | false => exact hrest
  | true => exact Safe.seq_call (balanced_readTicks (by simp) (hticks rfl)) hrest

theorem balanced_futexWait (timeout : Bool) (hempty : ∀ l, R.acq (· ∈ ([] : List (KLock T P))) l)
    (hacq : R.acq (· ∈ [KLock.timeout]) (.tcb t)) (hyield : R.yield (.tcb t))
    (hticks : timeout = true → R.acq (· ∈ [KLock.tcb t]) (.ticks : KLock T P)) :
    Balanced R (futexWait t timeout) [] := by
  have hrest : Safe R (block [sched (.tcb t), release (.tcb t)]) (· = []) (· = [])
      (fun _ => False) [.tcb t] :=
    ⟨rfl, hyield, hempty _, by simp, by simp [Safe, block]⟩
  refine ⟨fun _ => rfl, fun _ => ⟨fun _ => rfl, fun _ => ?_⟩⟩
  have hget : Balanced R (getFutex : Path T P) [] :=
    safe_acquire_release (by simp) (hempty _) rfl
  refine Safe.seq_call hget ⟨fun _ => rfl, fun _ => ⟨by simp, hempty _, by simp, hacq, by simp, ?_⟩⟩
  have herase : [KLock.tcb t, .timeout].erase (.timeout : KLock T P) = [.tcb t] := by
    rw [List.erase_cons_tail (by simp), List.erase_cons_head]
  rw [herase]
  cases timeout with
  | false => exact hrest
  | true => exact Safe.seq_call (balanced_readTicks (by simp) (hticks rfl)) hrest

theorem balanced_threadSendSignal (hno : .sig t ∉ Γ) (hacq : R.acq (· ∈ Γ) (.sig t)) :
    Balanced R (threadSendSignal t) Γ := by
  have hsend : Balanced R (signalSend t) Γ :=
    ⟨fun _ => rfl, fun _ => ⟨fun _ => rfl, fun _ => ⟨fun _ => rfl, fun _ =>
      safe_acquire_release hno hacq rfl⟩⟩⟩
  exact hsend.call rfl

theorem balanced_signalHandle (hempty : R.acq (· ∈ ([] : List (KLock T P))) (.sig t))
    (hacq : R.acq (· ∈ [KLock.sig t]) (.tcb t : KLock T P)) :
    Balanced R (signalHandle t) [] := by
  have hkill : Balanced R (threadSetkilled t) [.sig t] :=
    safe_acquire_release (by simp) hacq rfl
  have hdefault : Balanced R (signalDefault t) [.sig t] :=
    ⟨fun _ => hkill.call rfl, fun _ => rfl⟩
  refine ⟨fun _ => rfl, fun _ => ⟨by simp, hempty, fun _ => ?_, fun _ => by simp [Safe, block]⟩⟩
  refine ⟨fun _ => rfl, fun _ => ⟨fun _ => hdefault.call rfl, fun _ => ?_⟩⟩
  exact ⟨fun _ => by simp [Safe, block], fun _ => by simp [Safe, block]⟩

theorem safe_wakeSigwait (pool : List T)
    (cur : Option T) (hsig : .sig t ∉ Γ) (hticks : .ticks ∉ Γ) (htcb : ∀ u, .tcb u ∉ Γ)
    (hacq : R.acq (· ∈ Γ) (.sig t)) (hacqt : R.acq (· ∈ .sig t :: Γ) .ticks)
    (hacqu : ∀ u, R.acq (· ∈ .sig t :: Γ) (.tcb u)) (hp : post Γ) :
    Safe R (wakeSigwait pool cur t) post ret brk Γ := by
  refine ⟨hsig, hacq, Safe.seq_call (balanced_readTicks (by simpa using hticks) hacqt) ?_⟩
  refine Safe.seq_call (balanced_wakeupFirst _ pool cur (by simpa using htcb) hacqu) ?_
  exact ⟨by simp, by simpa [Safe, block] using hp⟩

theorem balanced_threadKill (pool : List T) (cur : Option T)
    (hempty : ∀ l, R.acq (· ∈ ([] : List (KLock T P))) l)
    (hsend : ∀ u, R.acq (· ∈ [KLock.tcb u]) (.sig u : KLock T P))
    (hticks : ∀ u, R.acq (· ∈ [KLock.sig u]) (.ticks : KLock T P))
    (hwake : ∀ u v, R.acq (· ∈ [KLock.sig u]) (.tcb v : KLock T P)) :
    Balanced R (threadKill pool cur) [] := by
  refine ⟨fun _ => rfl, fun _ => Safe.forEach (fun t _ => ?_) rfl⟩
  refine ⟨by simp, hempty _, fun _ => ?_, fun _ => by simp [Safe, block]⟩
  refine Safe.seq_call (balanced_threadSendSignal (by simp) (hsend t)) ⟨by simp, ?_⟩
  rw [List.erase_cons_head]
  exact Safe.seq <| safe_wakeSigwait pool cur (by simp) (by simp) (by simp) (hempty _) (hticks t)
    (hwake t) rfl

theorem balanced_procSendsignalAllThread (pool : List T) (cur : Option T) (p : P)
    (group : List T) (hempty : R.acq (· ∈ ([] : List (KLock T P))) (.tg p))
    (htcb : ∀ u, R.acq (· ∈ [KLock.tg p]) (.tcb u : KLock T P))
    (hsend : ∀ u, R.acq (· ∈ [KLock.tcb u, .tg p]) (.sig u : KLock T P))
    (hsig : ∀ u, R.acq (· ∈ [KLock.tg p]) (.sig u : KLock T P))
    (hticks : ∀ u, R.acq (· ∈ [KLock.sig u, .tg p]) (.ticks : KLock T P))
    (hwake : ∀ u v, R.acq (· ∈ [KLock.sig u, .tg p]) (.tcb v : KLock T P)) :
    Balanced R (procSendsignalAllThread pool cur p group) [] := by
  refine ⟨by simp, hempty, Safe.forEach (fun t _ => ?_) (by simp [Safe, block])⟩
  refine ⟨by simp, htcb t, ?_⟩
  refine Safe.seq_call (balanced_threadSendSignal (by simp) (hsend t)) ⟨by simp, ?_⟩
  rw [List.erase_cons_head]
  exact Safe.seq <| safe_wakeSigwait pool cur (by simp) (by simp) (by simp) (hsig t) (hticks t)
    (hwake t) rfl

end

end XVapor.Paths
