import XVapor.SpaceMachine

/-!
# Clones that Fail

`do_clone` with its **books**: the locks it has taken and not released, and the state of the
`tcb` it has got, beside the kernel of `AddressSpace`. Forgetting the books gives `doClone`
(`cloneBooks_kernel`).

A call that fails at its first allocation, of a `tcb` with `CLONE_THREAD` and of a process
without, leaves no trace. **Every later failure leaves one.** With `CLONE_THREAD` the lock of
the thread stays locked. Without it, if there is no `tcb`, the lock of the process stays
locked; if there is no trap frame or the identifier cannot be copied, the kernel faults; and if
there is no memory for a copy of the pages or the mappings, `freeproc` takes the thread it
frees from the count of the caller.

## Main results

* `noTrace_iff`: when a call that fails leaves no trace.
-/

namespace XVapor.Vm

open Files (ProcId ProcState)

/-! ### `do_clone` with its books -/

/-- The locks that `do_clone` takes and hands from function to function: that of the new
process, and that of the new thread. -/
inductive CloneLock
  | proc
  | thread
  deriving DecidableEq, Repr

/-- The state of the new `tcb`, which says in which queue it is. -/
inductive TcbState
  | unused
  | used
  | runnable
  deriving DecidableEq, Repr

/-- The kernel with the books. -/
structure Books where
  kernel : Kernel
  held : List CloneLock
  tcb : TcbState

/-- The books before the call. -/
def Books.start (k : Kernel) : Books := ⟨k, [], .unused⟩

namespace Books

variable (s : Books)

def acquire (l : CloneLock) : Books := { s with held := l :: s.held }

def release (l : CloneLock) : Books := { s with held := s.held.erase l }

/-- `tcb_q_change_state`. -/
def changeState (st : TcbState) : Books := { s with tcb := st }

end Books

/-- `alloc_thread`. It returns with the lock of the thread held. -/
def allocThread (s : Books) (tcb : Bool) : Option Books :=
  if tcb then some ((s.acquire .thread).changeState .used) else none

/-- `proc_join_thread`. -/
def joinThread (s : Books) (p : ProcId) : Except Panic (Tcb × Books) := do
  let (t, k) ← procJoinThread s.kernel p
  .ok (t, { s with kernel := k })

/-- `free_thread`. It returns with the lock of the thread held. The thread stays in the list of
its group. -/
def freeJoined (s : Books) (p : ProcId) (t : Tcb) : Except Panic Books := do
  let k ← freeThread s.kernel p t
  .ok ({ s with kernel := k.haunt p t }.changeState .unused)

/-- `freeproc` of the new process, called by the process `p`. Its threads are freed with it. -/
def freeNew (s : Books) (p np : ProcId) : Except Panic Books := do
  let k ← freeproc s.kernel p np
  .ok ({ s with kernel := k }.changeState .unused)

/-- `create_proc`. It returns with the lock of the process held. -/
def createProc (s : Books) (p np : ProcId) (tcb : Bool) : Except Panic (Option Tcb × Books) := do
  let k ← allocproc s.kernel np
  let s := { s with kernel := k }.acquire .proc
  match allocThread s tcb with
  | none => do
    let s ← freeNew s p np
    .ok (none, s)
  | some s => do
    let (t, s) ← joinThread s np
    .ok (some t, s.release .thread)

/-- `do_clone` with `CLONE_THREAD`. -/
def cloneThreadBooks (s : Books) (p : ProcId) (a : CloneArgs) : Except Panic (Bool × Books) :=
  match allocThread s a.tcb with
  | none => .ok (false, s)
  | some s => do
    let (t, s) ← joinThread s p
    if t.trapframe = none then do
      let s ← freeJoined s p t
      .ok (false, s)
    else do
      let (copied, k) ← storeTids s.kernel p a
      let s := { s with kernel := k }
      if copied then .ok (true, (s.changeState .runnable).release .thread)
      else do
        let s ← freeJoined s p t
        .ok (false, s)

/-- `do_clone` without `CLONE_THREAD`, from the copy of the address space on. -/
def cloneCopies (s : Books) (p np : ProcId) (a : CloneArgs) : Except Panic (Bool × Books) := do
  let (copied, k) ← cloneSpace s.kernel p np a.vm
  let s := { s with kernel := k }
  if copied = false then do
    let s ← freeNew s p np
    .ok (false, s.release .proc)
  else do
    let (copied, k) ← procCopyVma np s.kernel a.vmaPages (s.kernel.proc p).vmas
    let s := { s with kernel := k }
    if copied = false then do
      let s ← freeNew s p np
      .ok (false, s.release .proc)
    else
      let k := s.kernel
      let s := { s with kernel := k.setProc np { k.proc np with
        sz := (k.proc p).sz, ofile := (k.proc p).ofile, parent := some p } }
      .ok (true, (s.release .proc).changeState .runnable)

/-- `do_clone` without `CLONE_THREAD`. -/
def cloneProcBooks (s : Books) (p np : ProcId) (a : CloneArgs) : Except Panic (Bool × Books) := do
  let (t, s) ← createProc s p np a.tcb
  match t with
  | none => .ok (false, s)
  | some t =>
    if t.trapframe = none then .error .nullTrapframe
    else do
      let (stored, k) ← storeTids s.kernel p a
      let s := { s with kernel := k }
      if stored = false then do
        let _ ← freeNew s p np
        .error .nullProc
      else cloneCopies s p np a

/-- `do_clone` with its books. -/
def cloneBooks (s : Books) (p : ProcId) (a : CloneArgs) : Except Panic (Bool × Books) :=
  if a.thread then cloneThreadBooks s p a
  else match a.np with
    | none => .ok (false, s)
    | some np => cloneProcBooks s p np a

variable {s s' : Books} {k k' : Kernel} {p np q : ProcId} {a : CloneArgs} {t : Tcb}

/-! ### The books beside the kernel -/

/-- Forget the books. -/
def forget {α : Type} (r : Except Panic (α × Books)) : Except Panic (α × Kernel) :=
  r.map fun x => (x.1, x.2.kernel)

theorem forget_bind {α β : Type} (r : Except Panic α) (f : α → Except Panic (β × Books)) :
    forget (r >>= f) = r >>= fun x => forget (f x) := by
  cases r with
  | ok x => rfl
  | error e => rfl

theorem cloneThreadBooks_kernel (s : Books) (p : ProcId) (a : CloneArgs) :
    forget (cloneThreadBooks s p a) = cloneThread s.kernel p a := by
  rw [cloneThreadBooks, cloneThread, allocThread]
  obtain _ | _ := a.tcb
  · rfl
  simp only [if_true, joinThread, freeJoined, bind_assoc, forget_bind, Bool.true_eq_false,
    if_false]
  refine bind_congr ?_
  rintro ⟨t, k⟩
  simp only [ok_bind]
  split
  · exact forget_bind _ _
  rw [forget_bind]
  refine bind_congr ?_
  rintro ⟨copied, k1⟩
  cases copied with
  | true => rfl
  | false => exact forget_bind _ _

theorem freeNew_kernel {α : Type} (s : Books) (p np : ProcId) (f : Books → α × Books)
    (hf : ∀ s, (f s).2.kernel = s.kernel) (x : α) (hx : ∀ s, (f s).1 = x) :
    forget (freeNew s p np >>= fun s => .ok (f s)) =
      freeproc s.kernel p np >>= fun k => .ok (x, k) := by
  rw [forget_bind, freeNew, bind_assoc]
  refine bind_congr fun k => ?_
  simp only [ok_bind, forget, Except.map, hf, hx]
  rfl

theorem cloneProcBooks_kernel (s : Books) (p np : ProcId) (a : CloneArgs) :
    forget (cloneProcBooks s p np a) = cloneProc s.kernel p np a := by
  rw [cloneProcBooks, cloneProc, createProc, bind_assoc, forget_bind]
  refine bind_congr fun k => ?_
  dsimp only
  rw [allocThread]
  obtain _ | _ := a.tcb
  · simp only [Bool.false_eq_true, if_false, if_true, bind_assoc, ok_bind]
    exact freeNew_kernel _ p np (fun s => (false, s)) (fun _ => rfl) false fun _ => rfl
  simp only [if_true, joinThread, bind_assoc, ok_bind, forget_bind, Bool.true_eq_false,
    if_false]
  refine bind_congr fun ⟨t, k⟩ => ?_
  dsimp only
  split
  · rfl
  rw [forget_bind]
  refine bind_congr fun ⟨stored, k1⟩ => ?_
  dsimp only
  obtain _ | _ := stored
  · simp only [if_true]
    rw [forget_bind, freeNew, bind_assoc]
    rfl
  simp only [Bool.true_eq_false, if_false]
  rw [cloneCopies, forget_bind]
  refine bind_congr fun ⟨copied, k2⟩ => ?_
  obtain _ | _ := copied
  · simp only [if_true]
    exact freeNew_kernel _ p np (fun s => (false, s.release .proc)) (fun _ => rfl) false
      fun _ => rfl
  simp only [Bool.true_eq_false, if_false]
  rw [forget_bind]
  refine bind_congr fun ⟨copied, k3⟩ => ?_
  cases copied with
  | false =>
    exact freeNew_kernel _ p np (fun s => (false, s.release .proc)) (fun _ => rfl)
      false fun _ => rfl
  | true => rfl

/-- **The books are beside `do_clone`**: forgetting them gives the call of the address space. -/
theorem cloneBooks_kernel (s : Books) (p : ProcId) (a : CloneArgs) :
    forget (cloneBooks s p a) = doClone s.kernel p a := by
  rw [cloneBooks, doClone]
  split
  · exact cloneThreadBooks_kernel s p a
  cases a.np with
  | none => rfl
  | some np => exact cloneProcBooks_kernel s p np a

/-! ### The count of the caller -/

/-- Only the process `np` has changed, and its threads are `ths`. -/
structure Beside (np : ProcId) (ths : List Tcb) (k k' : Kernel) : Prop where
  proc : ∀ q ≠ np, k'.proc q = k.proc q
  threads : (k'.proc np).threads = ths

theorem Beside.trans {ths ths' : List Tcb} {k1 : Kernel} (h : Beside np ths k k1)
    (h' : Beside np ths' k1 k') : Beside np ths' k k' :=
  ⟨fun q hq => (h'.proc q hq).trans (h.proc q hq), h'.threads⟩

theorem Beside.setProc {P : Proc} {ths : List Tcb} (h : P.threads = ths) :
    Beside np ths k (k.setProc np P) :=
  ⟨fun _ hq => Kernel.setProc_ne k P hq, by rw [Kernel.setProc_self, h]⟩

theorem Beside.of_proc (h : k'.proc = k.proc) : Beside np (k.proc np).threads k k' :=
  ⟨fun _ _ => by rw [h], by rw [h]⟩

theorem allocproc_beside (h : allocproc k np = .ok k') : Beside np [] k k' := by
  obtain ⟨⟨T, m⟩, -, h⟩ := bind_eq_ok.1 h
  cases h
  cases T with
  | none | some T => exact ⟨fun q hq => Kernel.setProc_ne _ _ hq, by rw [Kernel.setProc_self]⟩

theorem procJoinThread_beside (h : procJoinThread k np = .ok (t, k')) :
    Beside np ((k.proc np).threads ++ [t]) k k' := by
  obtain ⟨S, -, h⟩ := bind_eq_ok.1 h
  obtain ⟨⟨tf, S1⟩, -, h⟩ := bind_eq_ok.1 h
  cases h
  exact ⟨fun q hq => Kernel.setProc_ne _ _ hq, by rw [Kernel.setProc_self]⟩

variable {b : Bool}

theorem storeTid_proc {addr : Option ℕ} {tid : BitVec 32}
    (h : storeTid k p addr tid = .ok (b, k')) : k'.proc = k.proc := by
  obtain _ | x := addr
  · cases h
    rfl
  obtain ⟨S, -, h⟩ := bind_eq_ok.1 h
  cases h
  rfl

theorem storeTids_proc (h : storeTids k p a = .ok (b, k')) : k'.proc = k.proc := by
  obtain ⟨⟨copied, k1⟩, h1, h⟩ := bind_eq_ok.1 h
  cases copied with
  | true => exact (storeTid_proc h).trans (storeTid_proc h1)
  | false =>
    cases h
    exact storeTid_proc h1

theorem cloneSpace_beside {vm : Bool} (h : cloneSpace k p np vm = .ok (b, k')) :
    Beside np (k.proc np).threads k k' := by
  cases vm with
  | true =>
    cases h
    exact .setProc rfl
  | false =>
    obtain ⟨S, -, h⟩ := bind_eq_ok.1 h
    obtain ⟨S1, -, h⟩ := bind_eq_ok.1 h
    obtain ⟨⟨copied, S2⟩, -, h⟩ := bind_eq_ok.1 h
    cases h
    exact .of_proc rfl

theorem freeThread_proc (h : freeThread k np t = .ok k') : k'.proc = k.proc := by
  obtain ⟨S, -, h⟩ := bind_eq_ok.1 h
  obtain ⟨S1, -, h⟩ := bind_eq_ok.1 h
  cases h
  rfl

/-- **`freeproc` takes the threads it frees from the count of the caller**, who is not their
process. -/
theorem freeproc_threadCnt (hne : p ≠ np) (h : freeproc k p np = .ok k') :
    (k'.proc p).threadCnt = (k.proc p).threadCnt - (k.proc np).threads.length := by
  rw [freeproc] at h
  obtain ⟨-, h⟩ := ite_error_ok.1 h
  obtain ⟨k1, h1, h⟩ := bind_eq_ok.1 h
  have hloop : Ends (fun _ : Panic => False) (fun k1 : Kernel => (k1.proc p).threadCnt =
      (k.proc p).threadCnt - (k.proc np).threads.length)
      ((k.proc np).threads.foldlM (freeprocThread p np) k) := by
    refine (Ends.foldlM (I := fun ts k1 => (k1.proc p).threadCnt - ts.length =
      (k.proc p).threadCnt - (k.proc np).threads.length) ?_ _ rfl).mono fun k1 hk1 => ?_
    · intro t ts k1 hk1
      rw [freeprocThread]
      split
      · exact not_false
      cases hr : freeThread (k1.setProc p { k1.proc p with
          threadCnt := (k1.proc p).threadCnt - 1 }) np t with
      | error e => exact not_false
      | ok k2 =>
        show (k2.proc p).threadCnt - _ = _
        rw [freeThread_proc hr, Kernel.setProc_self]
        rw [List.length_cons] at hk1
        push_cast at hk1 ⊢
        omega
    · simpa using hk1
  rw [h1] at hloop
  obtain ⟨k2, h2, h⟩ := bind_eq_ok.1 h
  cases h
  have hproc : k2.proc = k1.proc := by
    split at h2
    · cases h2
      rfl
    obtain ⟨S, -, h2⟩ := bind_eq_ok.1 h2
    obtain ⟨m, -, h2⟩ := bind_eq_ok.1 h2
    cases h2
    rfl
  rw [Kernel.setProc_ne _ _ hne, hproc]
  exact hloop

/-! ### Traces -/

/-- **No trace of a call is left.** No lock is held, the `tcb` and the process that the call may
have got are unused, the record of the caller with its count, its threads, its mappings and its
descriptors is as it was, and so are the free pages. -/
structure NoTrace (p : ProcId) (a : CloneArgs) (k : Kernel) (s : Books) : Prop where
  locks : s.held = []
  tcb : s.tcb = .unused
  unused : ∀ np ∈ a.np, (s.kernel.proc np).state = .unused
  caller : s.kernel.proc p = k.proc p
  free : s.kernel.mem.free = k.mem.free
  live : ∀ n, s.kernel.mem.live n = k.mem.live n

theorem cloneThreadBooks_held (htcb : a.tcb = true)
    (h : cloneThreadBooks (.start k) p a = .ok (false, s)) : s.held = [.thread] := by
  rw [cloneThreadBooks, allocThread, if_pos htcb] at h
  obtain ⟨⟨t, s1⟩, h1, h⟩ := bind_eq_ok.1 h
  obtain ⟨⟨t', k1⟩, -, h1⟩ := bind_eq_ok.1 h1
  obtain ⟨rfl, rfl⟩ := Prod.mk.inj (Except.ok.inj h1)
  have hfree : ∀ s1 : Books, s1.held = [.thread] → ∀ r, (freeJoined s1 p t' >>= fun s =>
      .ok (false, s) : Except Panic (Bool × Books)) = .ok r → r.2.held = [.thread] := by
    intro s1 hs1 r hr
    obtain ⟨s2, h2, hr⟩ := bind_eq_ok.1 hr
    obtain ⟨k2, -, h2⟩ := bind_eq_ok.1 h2
    obtain rfl := Except.ok.inj h2
    obtain rfl := Except.ok.inj hr
    exact hs1
  dsimp only at h
  split at h
  · exact hfree _ rfl _ h
  obtain ⟨⟨copied, k2⟩, -, h⟩ := bind_eq_ok.1 h
  cases copied with
  | true => cases h
  | false => exact hfree _ rfl _ h

/-- A failure of a copy takes one from the count of the caller. -/
theorem cloneCopies_count (hne : p ≠ np) (hths : (s.kernel.proc np).threads = [t])
    (h : cloneCopies s p np a = .ok (false, s')) :
    (s'.kernel.proc p).threadCnt = (s.kernel.proc p).threadCnt - 1 := by
  have hfree : ∀ s1 : Books, Beside np [t] s.kernel s1.kernel →
      ∀ r, (freeNew s1 p np >>= fun s => .ok (false, s.release .proc) :
        Except Panic (Bool × Books)) = .ok r →
      (r.2.kernel.proc p).threadCnt = (s.kernel.proc p).threadCnt - 1 := by
    intro s1 hs1 r hr
    obtain ⟨s2, h2, hr⟩ := bind_eq_ok.1 hr
    obtain ⟨k2, hk2, h2⟩ := bind_eq_ok.1 h2
    cases h2
    cases hr
    have hcnt := freeproc_threadCnt hne hk2
    rw [hs1.threads, hs1.proc p hne] at hcnt
    exact hcnt
  obtain ⟨⟨copied, k1⟩, h1, h⟩ := bind_eq_ok.1 h
  have hb1 := cloneSpace_beside h1
  rw [hths] at hb1
  obtain _ | _ := copied
  · exact hfree _ hb1 _ h
  obtain ⟨⟨copied, k2⟩, h2, h⟩ := bind_eq_ok.1 h
  have hb2 : Beside np (k1.proc np).threads k1 k2 := by
    obtain ⟨vs, rfl⟩ := procCopyVma_setProc h2
    exact .setProc rfl
  rw [hb1.threads] at hb2
  cases copied with
  | false => exact hfree _ (hb1.trans hb2) _ h
  | true => cases h

/-- A failure without `CLONE_THREAD`, after there was a process, leaves its lock locked or
changes the count of the caller. -/
theorem cloneProcBooks_trace (hne : p ≠ np)
    (h : cloneProcBooks (.start k) p np a = .ok (false, s)) :
    s.held = [.proc] ∨ (s.kernel.proc p).threadCnt = (k.proc p).threadCnt - 1 := by
  obtain ⟨⟨o, s1⟩, h1, h⟩ := bind_eq_ok.1 h
  obtain ⟨k1, hk1, h1⟩ := bind_eq_ok.1 h1
  have hb1 : Beside np [] k k1 := allocproc_beside hk1
  cases htcb : a.tcb with
  | false =>
    simp only [allocThread, htcb, Bool.false_eq_true, if_false] at h1
    obtain ⟨s2, h2, h1⟩ := bind_eq_ok.1 h1
    obtain ⟨k2, -, h2⟩ := bind_eq_ok.1 h2
    obtain rfl := Except.ok.inj h2
    obtain ⟨rfl, rfl⟩ := Prod.mk.inj (Except.ok.inj h1)
    obtain ⟨-, rfl⟩ := Prod.mk.inj (Except.ok.inj h)
    exact .inl rfl
  | true =>
    simp only [allocThread, htcb, if_true] at h1
    obtain ⟨⟨t, s2⟩, h2, h1⟩ := bind_eq_ok.1 h1
    obtain ⟨⟨t', k2⟩, hk2, h2⟩ := bind_eq_ok.1 h2
    obtain ⟨rfl, rfl⟩ := Prod.mk.inj (Except.ok.inj h2)
    obtain ⟨rfl, rfl⟩ := Prod.mk.inj (Except.ok.inj h1)
    have hb2 : Beside np ((k1.proc np).threads ++ [t']) k1 k2 := procJoinThread_beside hk2
    rw [hb1.threads, List.nil_append] at hb2
    obtain ⟨-, h⟩ := ite_error_ok.1 h
    obtain ⟨⟨stored, k3⟩, hk3, h⟩ := bind_eq_ok.1 h
    have hproc3 : k3.proc = k2.proc := storeTids_proc hk3
    obtain _ | _ := stored
    · obtain ⟨s3, -, h⟩ := bind_eq_ok.1 h
      cases h
    have hb : Beside np [t'] k k3 := by
      have hstore : Beside np (k2.proc np).threads k2 k3 := .of_proc hproc3
      rw [hb2.threads] at hstore
      exact (hb1.trans hb2).trans hstore
    have hcnt := cloneCopies_count hne hb.threads h
    rw [hb.proc p hne] at hcnt
    exact .inr hcnt

/-- **When a call that fails leaves no trace**: if and only if it fails at its first
allocation. What it does to the kernel is `doClone`. -/
theorem noTrace_iff (hs : (k.proc p).state = .used)
    (hnp : ∀ np ∈ a.np, (k.proc np).state = .unused) :
    forget (cloneBooks (.start k) p a) = doClone k p a ∧
      ((∃ s, cloneBooks (.start k) p a = .ok (false, s) ∧ NoTrace p a k s) ↔
        if a.thread then a.tcb = false else a.np = none) := by
  refine ⟨cloneBooks_kernel (.start k) p a, ?_⟩
  have hstart : NoTrace p a k (.start k) := ⟨rfl, rfl, hnp, rfl, rfl, fun _ => rfl⟩
  rw [cloneBooks]
  split
  next =>
    constructor
    · rintro ⟨s, h, hno⟩
      refine Bool.eq_false_iff.2 fun htcb => ?_
      have hheld := cloneThreadBooks_held htcb h
      rw [hno.locks] at hheld
      cases hheld
    · intro htcb
      refine ⟨.start k, ?_, hstart⟩
      rw [cloneThreadBooks, allocThread, htcb]
      rfl
  next =>
    rcases hsome : a.np with _ | np
    · exact ⟨fun _ => rfl, fun _ => ⟨.start k, rfl, hstart⟩⟩
    refine ⟨?_, fun hnone => by cases hnone⟩
    rintro ⟨s, h, hno⟩
    have hne := ne_of_unused hs (hnp np hsome)
    obtain hheld | hcnt := cloneProcBooks_trace hne h
    · rw [hno.locks] at hheld
      cases hheld
    · rw [hno.caller] at hcnt
      omega

/-- A clone of the first process, with what it gets. -/
def cloneArgs (thread tcb : Bool) (ctid : Option ℕ) : CloneArgs :=
  ⟨thread, false, ctid, none, none, tcb, 1, 0⟩

theorem noTrace_noTcb : ∃ s, cloneBooks (.start smallStart) initproc (cloneArgs true false none) =
    .ok (false, s) ∧ NoTrace initproc (cloneArgs true false none) smallStart s := by
  have hs : (smallStart.proc initproc).state = .used := by decide +kernel
  exact (noTrace_iff hs (by simp [cloneArgs])).2.2 rfl

/-- **The address for the identifier is not mapped**: the lock of the thread stays locked, and
the thread is counted. -/
theorem clone_leaves_lock : ∃ s, cloneBooks (.start smallStart) initproc
    (cloneArgs true true (some (2 ^ 30))) = .ok (false, s) ∧ s.held = [.thread] ∧
    (s.kernel.proc initproc).threadCnt = 2 ∧ (smallStart.proc initproc).threadCnt = 1 ∧
    ¬ NoTrace initproc (cloneArgs true true (some (2 ^ 30))) smallStart s := by
  obtain ⟨⟨b, s⟩, hr, rfl, hheld, htwo⟩ : ∃ r ∈ (cloneBooks (.start smallStart) initproc
      (cloneArgs true true (some (2 ^ 30)))).toOption, r.1 = false ∧ r.2.held = [.thread] ∧
        (r.2.kernel.proc initproc).threadCnt = 2 := by
    decide +kernel
  have hcnt : (smallStart.proc initproc).threadCnt = 1 := by decide +kernel
  refine ⟨s, toOption_eq_some.1 hr, hheld, htwo, hcnt, fun hno => ?_⟩
  rw [hno.locks] at hheld
  cases hheld

end XVapor.Vm
