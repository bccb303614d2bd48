import XVapor.SignalMask

/-!
# Pending Signals

A signal of a thread is pending from `signal_send` until its handler has returned. Its bit in
`sig_pending.signal` is set all that time, so that it is not queued twice; it is on the list
until a frame for its handler is pushed; and `pending_cnt` is the length of the list.

`signal_handle` takes a signal with the default action off the list and leaves its bit set:
**the signal can never be sent again**. `sigreturn` clears the bit of the signal that it finds in
user memory, whatever it is. Where neither happens, the bookkeeping is right.

The frames that have been pushed are not in the state of the kernel: they are a history, kept
beside it.

## Main results

* `pendingOk_of_reach`: the bookkeeping is right in every run whose calls meet the condition.
-/

namespace XVapor.Signal

/-! ### The calls -/

/-- A thread, its actions, user memory, and the frames that have been pushed and not been
returned from, with their signals. -/
structure Pending where
  used : Bool
  tcb : Tcb
  acts : Actions
  mem : UserMem
  frames : List (Word × Word)

/-- What happens to the thread; `free` and `alloc` are the reuse of a `struct tcb`. -/
inductive Op
  | alloc
  | free
  | send (sig : Word) (page : Bool)
  | handle (sig : Word)
  | sigreturn
  | masks (blocked : Word) (acts : Actions)
  | user (regs : Trapframe) (mem : UserMem)

/-- The signal in the frame that `sigreturn` reads. -/
def frameSignal (t : Tcb) (m : UserMem) : Option Word :=
  (copyin m (t.trapframe .sp + BitVec.ofNat 64 ucOff).toNat Ucontext.size).map fun b =>
    (Ucontext.read b).sigprocessing

/-- The signals that have been taken off the list for a handler. -/
def delivered (acts : Actions) (t t' : Tcb) : List Word :=
  t.list.filter fun s => s ∉ t'.list ∧ (acts s).handler ≠ SIG_DFL

/-- The frames after a `sigreturn`. -/
def Pending.returned (s : Pending) : List (Word × Word) :=
  match frameSignal s.tcb s.mem with
  | none => s.frames
  | some sig => s.frames.erase (s.tcb.trapframe .sp, sig)

def Pending.step (s : Pending) : Op → Option Pending
  | .alloc =>
    if s.used then none
    else some { s with used := true, tcb := allocThread s.tcb, acts := fun _ => .default }
  | .free =>
    if s.used then some { s with used := false, tcb := freeThread s.tcb, frames := [] } else none
  | .send sig page =>
    if s.used then some { s with tcb := (signalSend s.tcb sig page).2 } else none
  | .handle sig =>
    if s.used then
      (signalHandle s.acts sig s.tcb s.mem).map fun (_, t, mem) =>
        { s with
          tcb := t, mem
          frames := s.frames ++ (delivered s.acts s.tcb t).map fun sig => (t.trapframe .sp, sig) }
    else none
  | .sigreturn =>
    if s.used then
      some { s with tcb := usertrapSigreturn s.tcb s.mem, frames := s.returned }
    else none
  | .masks blocked acts =>
    if s.used then some { s with tcb := { s.tcb with blocked }, acts } else none
  | .user regs mem =>
    if s.used then some { s with tcb := { s.tcb with trapframe := regs }, mem } else none

/-- The machine, from a `struct tcb` that has never been used. -/
def pendingMachine : Machine Pending Op where
  init s := s.used = false ∧ s.tcb.signal = 0 ∧ s.tcb.list = [] ∧ s.tcb.pendingCnt = 0 ∧
    s.frames = []
  step := Pending.step

/-! ### What is to hold -/

/-- The signals with a frame. -/
def Pending.handled (s : Pending) : List Word := s.frames.map Prod.snd

/-- **The bookkeeping is right.** -/
structure PendingOk (s : Pending) : Prop where
  count : s.tcb.pendingCnt = s.tcb.list.length
  once : s.tcb.list.Nodup
  bit : ∀ sig, validSignal sig →
    (sigIsMember s.tcb.signal sig = true ↔ sig ∈ s.tcb.list ∨ sig ∈ s.handled)

/-- The condition on a call: `signal_handle` meets no signal with the default action, and
`sigreturn` finds at the stack pointer a frame that has been pushed there, with its signal. -/
def Orderly (s : Pending) : Op → Prop
  | .handle sig => ∀ x ∈ s.tcb.list, (0 < sig.toInt → x = sig) →
      sigIsMember s.tcb.blocked x = false → (s.acts x).handler ≠ SIG_DFL
  | .sigreturn => ∃ sig, frameSignal s.tcb s.mem = some sig ∧
      (s.tcb.trapframe .sp, sig) ∈ s.frames
  | _ => True

/-- What a run keeps of a thread with frames for the signals `handled`: no signal is on the
list and in a frame, or in two frames. -/
structure Tracked (t : Tcb) (handled : List Word) : Prop where
  count : t.pendingCnt = t.list.length
  nodup : (t.list ++ handled).Nodup
  valid : ∀ sig ∈ t.list ++ handled, validSignal sig
  bit : ∀ sig, validSignal sig →
    (sigIsMember t.signal sig = true ↔ sig ∈ t.list ++ handled)

/-! ### The calls one by one -/

variable {s s' : Pending} {acts : Actions} {t t' : Tcb} {m m' : UserMem} {sig : Word} {b : Bool}

/-- A signal that is not pending is queued, if there is a page. -/
theorem signalSend_queued (hsig : validSignal sig) (hnot : sigIsMember t.signal sig = false) :
    (signalSend t sig true).1 = true ∧ (signalSend t sig true).2.list = t.list ++ [sig] := by
  rw [signalSend, if_neg (not_not_intro hsig), if_neg (by simp [hnot])]
  simp

theorem signalSend_cases (t : Tcb) (sig : Word) (page : Bool) :
    ((signalSend t sig page).2.list = t.list ∧ (signalSend t sig page).2.signal = t.signal ∧
      (signalSend t sig page).2.pendingCnt = t.pendingCnt) ∨
    (validSignal sig ∧ sigIsMember t.signal sig = false ∧
      (signalSend t sig page).2.list = t.list ++ [sig] ∧
      (signalSend t sig page).2.signal = sigAddSet t.signal sig ∧
      (signalSend t sig page).2.pendingCnt = t.pendingCnt + 1) := by
  by_cases hsig : validSignal sig
  · cases hmem : sigIsMember t.signal sig with
    | true =>
      rw [signalSend, if_neg (not_not_intro hsig), if_pos hmem]
      exact .inl ⟨rfl, rfl, rfl⟩
    | false =>
      rw [signalSend, if_neg (not_not_intro hsig), if_neg (by simp [hmem])]
      cases page with
      | false => exact .inl ⟨rfl, rfl, rfl⟩
      | true => exact .inr ⟨hsig, rfl, rfl, rfl, rfl⟩
  · rw [signalSend, if_pos hsig]
    exact .inl ⟨rfl, rfl, rfl⟩

variable {rest l l' : List Word}

/-- **`signal_handle` without default actions**: nothing leaves the list, or the signal `x`
with a handler. -/
theorem handleLoop_ok {kept : List Word}
    (hdfl : ∀ x ∈ rest, (0 < sig.toInt → x = sig) → sigIsMember t.blocked x = false →
      (acts x).handler ≠ SIG_DFL) (h : handleLoop acts sig kept rest t m = some (b, t', m')) :
    t'.signal = t.signal ∧
      ((t'.list = kept ++ rest ∧ t'.pendingCnt = t.pendingCnt) ∨
        ∃ x l l', rest = l ++ x :: l' ∧ t'.list = kept ++ (l ++ l') ∧
          t'.pendingCnt = t.pendingCnt - 1 ∧ (acts x).handler ≠ SIG_DFL) := by
  induction rest generalizing kept with
  | nil =>
    obtain ⟨-, rfl, -⟩ := by simpa [handleLoop] using h
    exact ⟨rfl, .inl ⟨by simp, rfl⟩⟩
  | cons x rest ih =>
    have hskip : handleLoop acts sig (kept ++ [x]) rest t m = some (b, t', m') →
        t'.signal = t.signal ∧
          ((t'.list = kept ++ x :: rest ∧ t'.pendingCnt = t.pendingCnt) ∨
            ∃ y l l', x :: rest = l ++ y :: l' ∧ t'.list = kept ++ (l ++ l') ∧
              t'.pendingCnt = t.pendingCnt - 1 ∧ (acts y).handler ≠ SIG_DFL) := by
      intro h
      obtain ⟨hsig, hcase⟩ := ih (fun y hy => hdfl y (List.mem_cons_of_mem _ hy)) h
      refine ⟨hsig, hcase.imp (fun hl => ⟨by simpa using hl.1, hl.2⟩) ?_⟩
      rintro ⟨y, l, l', rfl, hl, hcnt, hy⟩
      exact ⟨y, x :: l, l', rfl, by simpa using hl, hcnt, hy⟩
    rw [handleLoop] at h
    split at h
    · exact hskip h
    rename_i hother
    have hthis : 0 < sig.toInt → x = sig := fun hpos => by
      by_contra hne
      exact hother ⟨hpos, hne⟩
    obtain ⟨-, h⟩ := Option.ite_none_left_eq_some.1 h
    split at h
    · exact hskip h
    rename_i hopen
    have hx := hdfl x (by simp) hthis (by
      rw [← Bool.not_eq_true]
      exact fun hb => hopen (.inl hb))
    rw [if_neg hx] at h
    split at h
    · obtain ⟨-, rfl, -⟩ := by simpa using h
      exact ⟨rfl, .inl ⟨rfl, rfl⟩⟩
    obtain ⟨-, rfl, -⟩ := by simpa using h
    exact ⟨rfl, .inr ⟨x, [], rest, rfl, rfl, rfl, hx⟩⟩

/-- `sigreturn` clears the bit of the signal in the frame. -/
theorem usertrapSigreturn_pending (hf : frameSignal t m = some sig) :
    (usertrapSigreturn t m).list = t.list ∧ (usertrapSigreturn t m).pendingCnt = t.pendingCnt ∧
      (usertrapSigreturn t m).signal = sigDelSetMask t.signal sig := by
  obtain ⟨tf, sig', h, hsig⟩ := usertrapSigreturn_cases t m
  obtain ⟨b, hb, rfl⟩ := Option.map_eq_some_iff.1 hf
  rw [h, hsig b hb]
  exact ⟨rfl, rfl, rfl⟩

/-! ### Runs -/

variable {handled : List Word}

theorem Tracked.same (h : Tracked t handled) (hl : t'.list = t.list) (hs : t'.signal = t.signal)
    (hc : t'.pendingCnt = t.pendingCnt) : Tracked t' handled :=
  ⟨by rw [hc, hl, h.count], hl ▸ h.nodup, hl ▸ h.valid, hl ▸ hs ▸ h.bit⟩

theorem Tracked.send (h : Tracked t handled) (sig : Word) (page : Bool) :
    Tracked (signalSend t sig page).2 handled := by
  obtain ⟨hl, hs, hc⟩ | ⟨hsig, hnot, hl, hs, hc⟩ := signalSend_cases t sig page
  · exact h.same hl hs hc
  have hnew : sig ∉ t.list ++ handled := fun hmem => by
    rw [(h.bit sig hsig).2 hmem] at hnot
    cases hnot
  have hperm : ((t.list ++ [sig]) ++ handled).Perm (sig :: (t.list ++ handled)) := by
    rw [List.append_assoc]
    exact List.perm_middle
  refine ⟨?_, ?_, fun x hx => ?_, fun x hx => ?_⟩
  · rw [hc, hl, h.count, List.length_append, List.length_singleton, Nat.cast_add, Nat.cast_one]
  · rw [hl]
    exact hperm.nodup_iff.2 (List.nodup_cons.2 ⟨hnew, h.nodup⟩)
  · rw [hl] at hx
    obtain rfl | hx := List.mem_cons.1 (hperm.mem_iff.1 hx)
    · exact hsig
    · exact h.valid x hx
  · rw [hl, hs, sigIsMember_sigAddSet, Bool.or_eq_true, h.bit x hx, decide_eq_true_eq,
      hperm.mem_iff, List.mem_cons, or_comm]
    exact or_congr_left ⟨fun heq => sigBit_inj hx hsig heq, fun heq => heq ▸ rfl⟩

theorem delivered_eq {x : Word} (hnodup : t.list.Nodup)
    (hl : t.list = l ++ x :: l') (hl' : t'.list = l ++ l') (hx : (acts x).handler ≠ SIG_DFL) :
    delivered acts t t' = [x] := by
  rw [hl] at hnodup
  have hnot := (List.nodup_cons.1 (List.nodup_middle.1 hnodup)).1
  rw [delivered, hl, hl', List.filter_append, List.filter_cons_of_pos (by simpa [hx] using hnot)]
  have hnil : ∀ k : List Word, (∀ y ∈ k, y ∈ l ++ l') →
      k.filter (fun s => s ∉ l ++ l' ∧ (acts s).handler ≠ SIG_DFL) = [] := by
    intro k hk
    refine List.filter_eq_nil_iff.2 fun y hy => ?_
    simp only [hk y hy, not_true, false_and, decide_false, Bool.false_eq_true, not_false_iff]
  rw [hnil l fun y hy => List.mem_append_left _ hy, hnil l' fun y hy => List.mem_append_right _ hy]
  rfl

theorem delivered_nil (hl : t'.list = t.list) : delivered acts t t' = [] := by
  rw [delivered, hl]
  refine List.filter_eq_nil_iff.2 fun y hy => ?_
  simp [hy]

section

variable (h : Tracked t handled)
include h

theorem Tracked.perm {handled' : List Word}
    (hp : (t'.list ++ handled').Perm (t.list ++ handled)) (hset : t'.signal = t.signal)
    (hc : t'.pendingCnt = t'.list.length) : Tracked t' handled' :=
  ⟨hc, hp.nodup_iff.2 h.nodup, fun y hy => h.valid y (hp.mem_iff.1 hy),
    fun y hy => by rw [hset, h.bit y hy, hp.mem_iff]⟩

theorem Tracked.push {x : Word}
    (hl : t.list = l ++ x :: l') (hl' : t'.list = l ++ l') (hset : t'.signal = t.signal)
    (hc : t'.pendingCnt = t.pendingCnt - 1) : Tracked t' (x :: handled) := by
  refine h.perm ?_ hset ?_
  · have hmove : (l' ++ x :: handled).Perm (x :: l' ++ handled) := List.perm_middle
    rw [hl, hl', List.append_assoc, List.append_assoc]
    exact hmove.append_left l
  · have hcount := h.count
    have hlen := congrArg List.length hl
    have hlen' := congrArg List.length hl'
    simp only [List.length_append, List.length_cons] at hlen hlen'
    omega

theorem Tracked.handle
    (hok : ∀ x ∈ t.list, (0 < sig.toInt → x = sig) → sigIsMember t.blocked x = false →
      (acts x).handler ≠ SIG_DFL) (hh : signalHandle acts sig t m = some (b, t', m')) :
    Tracked t' (handled ++ delivered acts t t') := by
  have hcases : t'.signal = t.signal ∧
      ((t'.list = t.list ∧ t'.pendingCnt = t.pendingCnt) ∨
        ∃ x l l', t.list = l ++ x :: l' ∧ t'.list = l ++ l' ∧
          t'.pendingCnt = t.pendingCnt - 1 ∧ (acts x).handler ≠ SIG_DFL) := by
    rw [signalHandle] at hh
    split at hh
    · obtain ⟨-, rfl, -⟩ := by simpa using hh
      exact ⟨rfl, .inl ⟨rfl, rfl⟩⟩
    · simpa using handleLoop_ok hok hh
  obtain ⟨hset, ⟨hl, hc⟩ | ⟨x, l, l', hl, hl', hc, hx⟩⟩ := hcases
  · rw [delivered_nil hl, List.append_nil]
    exact h.same hl hset hc
  · rw [delivered_eq (List.nodup_append.1 h.nodup).1 hl hl' hx]
    have hpush := h.push hl hl' hset hc
    exact hpush.perm ((List.perm_append_singleton x handled).append_left _) rfl hpush.count

theorem Tracked.sigreturn
    (hperm : handled.Perm (sig :: rest)) (hl : t'.list = t.list)
    (hc : t'.pendingCnt = t.pendingCnt) (hset : t'.signal = sigDelSetMask t.signal sig) :
    Tracked t' rest := by
  have hall : (t.list ++ handled).Perm (sig :: (t.list ++ rest)) :=
    (hperm.append_left _).trans List.perm_middle
  have hsig : validSignal sig := h.valid sig (hall.mem_iff.2 (by simp))
  have hnodup := List.nodup_cons.1 (hall.nodup_iff.1 h.nodup)
  refine ⟨by rw [hc, hl, h.count], hl ▸ hnodup.2, fun x hx => ?_, fun x hx => ?_⟩
  · rw [hl] at hx
    exact h.valid x (hall.mem_iff.2 (List.mem_cons_of_mem _ hx))
  · rw [hl, hset, sigIsMember_sigDelSetMask, Bool.and_eq_true, h.bit x hx, hall.mem_iff,
      decide_eq_true_eq, List.mem_cons]
    constructor
    · rintro ⟨rfl | hx', hne⟩
      · exact absurd rfl hne
      · exact hx'
    · intro hx'
      refine ⟨.inr hx', fun heq => ?_⟩
      rw [sigBit_inj hx hsig heq] at hx'
      exact hnodup.1 hx'

end

theorem Tracked.of_empty (hl : t.list = []) (hset : t.signal = 0) (hc : t.pendingCnt = 0) :
    Tracked t [] := by
  refine ⟨by rw [hl, hc]; rfl, by rw [hl]; exact List.nodup_nil, fun x hx => ?_, fun x _ => ?_⟩
  · rw [hl] at hx
    cases hx
  · rw [hl, hset]
    simp

theorem Tracked.returned (h : Tracked s.tcb s.handled) (hok : Orderly s .sigreturn) :
    Tracked (usertrapSigreturn s.tcb s.mem) (s.returned.map Prod.snd) := by
  obtain ⟨sig, hf, hmem⟩ := hok
  obtain ⟨hl, hc, hset⟩ := usertrapSigreturn_pending hf
  have hperm : s.handled.Perm (sig :: s.returned.map Prod.snd) := by
    unfold Pending.returned
    rw [hf]
    exact (List.perm_cons_erase hmem).map Prod.snd
  exact h.sigreturn hperm hl hc hset

/-- What a run keeps, with what is known of a `struct tcb` that is not used. -/
def PendingInv (s : Pending) : Prop :=
  Tracked s.tcb s.handled ∧ (s.used = false → s.tcb.pendingCnt = 0 ∧ s.frames = [])

theorem PendingInv.step (h : PendingInv s) {op : Op} (hok : Orderly s op)
    (hs : s.step op = some s') : PendingInv s' := by
  obtain ⟨h, hfree⟩ := h
  cases op with
  | alloc =>
    simp only [Pending.step, Option.ite_none_left_eq_some, Option.some.injEq] at hs
    obtain ⟨hused, rfl⟩ := hs
    obtain ⟨hc, hf⟩ := hfree (by simpa using hused)
    refine ⟨?_, by simp⟩
    rw [Pending.handled]
    rw [hf]
    exact .of_empty rfl rfl hc
  | free =>
    obtain ⟨-, rfl⟩ := guard_eq_some.1 hs
    exact ⟨.of_empty rfl rfl rfl, fun _ => ⟨rfl, rfl⟩⟩
  | send sig page =>
    obtain ⟨hused, rfl⟩ := guard_eq_some.1 hs
    exact ⟨h.send sig page, by simp [hused]⟩
  | handle sig =>
    simp only [Pending.step, Option.ite_none_right_eq_some, Option.map_eq_some_iff] at hs
    obtain ⟨hused, ⟨b, t', m'⟩, hh, rfl⟩ := hs
    refine ⟨?_, by simp [hused]⟩
    have hdone := h.handle hok hh
    simpa [Pending.handled, Function.comp_def] using hdone
  | sigreturn =>
    obtain ⟨hused, rfl⟩ := guard_eq_some.1 hs
    have hdone := h.returned hok
    simp only [PendingInv, Pending.handled]
    exact ⟨hdone, by simp [hused]⟩
  | masks blocked acts | user regs mem =>
    obtain ⟨hused, rfl⟩ := guard_eq_some.1 hs
    exact ⟨h.same rfl rfl rfl, by simp [hused]⟩

/-- **The bookkeeping is right in every run whose calls meet the condition**, and a signal
that is neither on the list nor in a frame is queued when it is sent and there is a page. -/
theorem pendingOk_of_reach (h : pendingMachine.Reach Orderly s) :
    PendingOk s ∧ ∀ sig, validSignal sig → sig ∉ s.tcb.list → sig ∉ s.handled →
      (signalSend s.tcb sig true).1 = true ∧ sig ∈ (signalSend s.tcb sig true).2.list := by
  have hi : PendingInv s := by
    refine h.invariant (fun s hs => ?_) fun s a s' hi hok hs => hi.step hok hs
    obtain ⟨hused, hset, hl, hc, hf⟩ := hs
    refine ⟨?_, fun _ => ⟨hc, hf⟩⟩
    rw [Pending.handled, hf]
    exact .of_empty hl hset hc
  obtain ⟨htrack, -⟩ := hi
  have hbit : ∀ sig, validSignal sig →
      (sigIsMember s.tcb.signal sig = true ↔ sig ∈ s.tcb.list ∨ sig ∈ s.handled) :=
    fun sig hsig => by rw [htrack.bit sig hsig, List.mem_append]
  refine ⟨⟨htrack.count, (List.nodup_append.1 htrack.nodup).1, hbit⟩, fun sig hsig hl hf => ?_⟩
  have hnot : sigIsMember s.tcb.signal sig = false := by
    rw [← Bool.not_eq_true, hbit sig hsig]
    exact fun hor => hor.elim hl hf
  obtain ⟨hsent, hlist⟩ := signalSend_queued hsig hnot
  exact ⟨hsent, by rw [hlist]; simp⟩

/-! ### Runs of a thread -/

/-- A thread that has never been used, with no user memory. -/
def newThread : Pending :=
  ⟨false, ⟨fun _ => 8192, 0, 0, [], 0, 0, false⟩, fun _ => .default, .lowest, []⟩

/-- Two signals are sent, and the handler of the first one is entered. -/
theorem pendingOk_sent : ∃ s, s.tcb.list = [12] ∧ s.handled = [SIGCHLD] ∧ PendingOk s := by
  obtain ⟨s, hs, hlist, hhandled⟩ : ∃ s ∈ pendingMachine.exec newThread [.alloc,
      .masks 0 fun _ => ⟨4096, 0, 0⟩, .send SIGCHLD true, .send 12 true, .handle 0],
      s.tcb.list = [12] ∧ s.handled = [SIGCHLD] := by decide +kernel
  refine ⟨s, hlist, hhandled, (pendingOk_of_reach (Machine.Reach.exec_along
    (.init ⟨rfl, rfl, rfl, rfl, rfl⟩) ?_ hs)).1⟩
  refine ⟨trivial, ?_⟩
  rintro _ ⟨⟩
  refine ⟨trivial, ?_⟩
  rintro _ ⟨⟩
  refine ⟨trivial, ?_⟩
  rintro _ ⟨⟩
  refine ⟨trivial, ?_⟩
  rintro _ ⟨⟩
  exact ⟨fun _ _ _ _ => show (4096 : Word) ≠ SIG_DFL from by decide, fun _ _ => trivial⟩

/-- **A signal with the default action is lost**: after it has been sent and handled it is
neither on the list nor in a frame, its bit is set, and it is not queued when it is sent
again. -/
theorem default_signal_lost : ∃ s, pendingMachine.Reach Machine.anyStep s ∧
    s.tcb.list = [] ∧ s.handled = [] ∧ sigIsMember s.tcb.signal SIGCHLD = true ∧
    ¬ PendingOk s ∧ (signalSend s.tcb SIGCHLD true).1 = false := by
  have hrun : pendingMachine.exec newThread [.alloc, .send SIGCHLD true, .handle 0] = some _ := rfl
  refine ⟨_, Machine.reach_of_exec ⟨rfl, rfl, rfl, rfl, rfl⟩ hrun, rfl, rfl, by decide,
    fun h => ?_, by decide⟩
  have hbit := (h.bit SIGCHLD (by decide)).1 (by decide)
  exact hbit.elim (by nofun) (by nofun)

end XVapor.Signal
