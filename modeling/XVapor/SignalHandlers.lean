import XVapor.SignalNesting
import XVapor.SignalPending

/-!
# Signals while a Handler Runs

While the handler of a signal runs, the signals in `sa_mask` of its action and the signal
itself are meant to be held back. `setup_rt_frame` of `kernel/ipc/signal.c` saves `t->blocked`
in the frame and does not change it: neither `sa_mask` nor the signal is added. What holds a
signal back during its own handler is its bit in `sig_pending.signal`, which stays set until
`sigreturn`; and with that bit set `signal_send` drops the signal.

The machine of this module has the sends, `signal_handle` and `sigreturn` of one thread with
a fixed table of actions, and the frames that have been pushed with their actions.

## Main results

* `handlersMasked_of_reach`: **signals are held back and not dropped**, in every run in which the
  mask of a delivered action is already blocked and no signal is sent while its own handler
  runs.
-/

open XVapor.Vm (vpn PGSIZE)

namespace XVapor.Signal

variable {acts : Actions} {t t' : Tcb} {m m' : UserMem} {sig x : Word} {b : Bool}

/-! ### The signal that `signal_handle` turns to -/

/-- `signal_handle` passes over a signal that is not asked for, is blocked, or is ignored. -/
def Tcb.passes (acts : Actions) (sig : Word) (t : Tcb) (x : Word) : Bool :=
  (0 < sig.toInt ∧ x ≠ sig) ∨ sigIsMember t.blocked x = true ∨ (acts x).handler = SIG_IGN

/-- The first signal that it does not pass over. -/
def Tcb.next (acts : Actions) (sig : Word) (t : Tcb) : Option Word :=
  t.list.find? fun x => !t.passes acts sig x

theorem handleLoop_pass {kept l rest : List Word} (hl : ∀ x ∈ l, t.passes acts sig x = true)
    (hv : ∀ x ∈ l, validSignal x) :
    handleLoop acts sig kept (l ++ rest) t m = handleLoop acts sig (kept ++ l) rest t m := by
  induction l generalizing kept with
  | nil => simp
  | cons x l ih =>
    have hx := hl x (by simp)
    have hvx := hv x (by simp)
    have hrest : handleLoop acts sig (kept ++ [x]) (l ++ rest) t m =
        handleLoop acts sig (kept ++ x :: l) rest t m := by
      rw [ih (fun y hy => hl y (List.mem_cons_of_mem _ hy))
        fun y hy => hv y (List.mem_cons_of_mem _ hy), List.append_assoc, List.singleton_append]
    simp only [Tcb.passes, decide_eq_true_eq] at hx
    rw [List.cons_append, handleLoop]
    by_cases hother : 0 < sig.toInt ∧ x ≠ sig
    · rw [if_pos hother]
      exact hrest
    · rw [if_neg hother, if_neg (not_not_intro hvx), if_pos (hx.resolve_left hother)]
      exact hrest

theorem signalHandle_none (hv : ∀ x ∈ t.list, validSignal x) (hn : t.next acts sig = none) :
    signalHandle acts sig t m = some (true, t, m) := by
  have hall : ∀ x ∈ t.list, t.passes acts sig x = true := by
    simpa [Tcb.next] using hn
  have hloop : handleLoop acts sig [] (t.list ++ []) t m = handleLoop acts sig t.list [] t m :=
    handleLoop_pass hall hv
  rw [List.append_nil] at hloop
  rw [signalHandle, hloop, handleLoop, ite_self]

/-- **The signal that `signal_handle` turns to**, if its action is not the default: its frame is
set up, and it is taken off the list if that succeeds. -/
theorem signalHandle_next (hc : t.pendingCnt = t.list.length) (hv : ∀ x ∈ t.list, validSignal x)
    (hn : t.next acts sig = some x) (hd : (acts x).handler ≠ SIG_DFL) :
    ∃ l l', t.list = l ++ x :: l' ∧ t.passes acts sig x = false ∧
      signalHandle acts sig t m =
        match setupRtFrame (acts x) x t.blocked t.trapframe m with
        | (none, m) => some (false, t, m)
        | (some tf, m) => some (true, { t with
            trapframe := tf, pendingCnt := t.pendingCnt - 1, sigProcessing := x,
            list := l ++ l' }, m) := by
  obtain ⟨hx, l, l', hl, hpass⟩ := List.find?_eq_some_iff_append.1 hn
  have hx : t.passes acts sig x = false := by simpa using hx
  refine ⟨l, l', hl, hx, ?_⟩
  have hvx : validSignal x := hv x (by simp [hl])
  have hcnt : t.pendingCnt ≠ 0 := by
    rw [hc, hl, List.length_append, List.length_cons]
    omega
  have hno : ¬ (0 < sig.toInt ∧ x ≠ sig) ∧
      ¬ (sigIsMember t.blocked x = true ∨ (acts x).handler = SIG_IGN) := by
    simpa [Tcb.passes, not_or] using hx
  have hloop : handleLoop acts sig [] (l ++ x :: l') t m = handleLoop acts sig l (x :: l') t m :=
    handleLoop_pass (fun y hy => by simpa using hpass y hy) fun y hy => hv y (by simp [hl, hy])
  rw [signalHandle, if_neg hcnt, hl, hloop, handleLoop, if_neg hno.1,
    if_neg (not_not_intro hvx), if_neg hno.2, if_neg hd]
  exact hl ▸ rfl

/-! ### Copies that fail -/

variable {a : ℕ}

theorem copyout_outside {dst : ℕ} {bs : List UInt8}
    (ha : a < dst ∨ dst + bs.length ≤ a) : (copyout m dst bs).2.byte a = m.byte a := by
  induction bs generalizing m dst with
  | nil => rfl
  | cons c bs ih =>
    rw [List.length_cons] at ha
    rw [copyout]
    split
    · rw [ih (by omega)]
      exact Function.update_of_ne (by omega) _ _
    · rfl

variable {set signo : Word} {tf : Trapframe}

theorem signalFrameSetup_outside {rtf : Word} (hrtf : rtf.toNat + rtSigframeSize < 2 ^ 64)
    (ha : a < rtf.toNat ∨ rtf.toNat + rtSigframeSize ≤ a) :
    (signalFrameSetup set tf rtf signo m).2.byte a = m.byte a := by
  have hlen := Ucontext.length_bytes ⟨tf, set, signo⟩
  simp only [rtSigframeSize] at hrtf ha
  have huc : (copyout m (rtf + BitVec.ofNat 64 ucOff).toNat
      (Ucontext.bytes ⟨tf, set, signo⟩)).2.byte a = m.byte a := by
    refine copyout_outside ?_
    rw [toNat_add_off (by rw [ucOff]; omega), hlen]
    simp only [ucOff, Ucontext.size]
    omega
  unfold signalFrameSetup
  split
  next h1 => rwa [h1] at huc
  next m1 h1 =>
    rw [h1] at huc
    rw [copyout_outside, huc]
    rw [toNat_add_off (by rw [ucRiscvOff]; omega), List.length_replicate]
    simp only [ucRiscvOff, ucontextTSize]
    omega

variable {act : Sigaction}

/-- The part of the stack that is in use does not change. -/
theorem setupRtFrame_above (hfit : rtSigframeSize ≤ (tf .sp).toNat) (ha : (tf .sp).toNat ≤ a) :
    (setupRtFrame act signo set tf m).2.byte a = m.byte a := by
  have hframe := getSigframe_toNat hfit
  have hlt := (tf .sp).isLt
  have hout : (signalFrameSetup set tf (getSigframe tf) signo m).2.byte a = m.byte a :=
    signalFrameSetup_outside (by omega) (.inr (by omega))
  unfold setupRtFrame
  dsimp only
  split
  next h1 => rwa [h1] at hout
  next h1 => rwa [h1] at hout

/-! ### Runs -/

/-- A frame with what it saves, and the action of its signal. -/
structure Handler extends Saved where
  act : Sigaction

/-- A thread and its memory, with the handlers that run, the innermost first. -/
structure Handling where
  tcb : Tcb
  mem : UserMem
  stack : List Handler

/-- What happens to the thread. Between the calls the user runs. -/
inductive Move
  | send (sig : Word) (page : Bool)
  | handle (sig : Word)
  | sigreturn (satp sp trap hartid : Word)
  | user (regs : Trapframe) (mem : UserMem)

/-- The frames, without the actions. -/
def Handling.nest (s : Handling) : Nest := ⟨s.tcb, s.mem, s.stack.map Handler.toSaved⟩

/-- The handler that is entered for the signal `x`. -/
def Handling.enter (acts : Actions) (s : Handling) (x : Word) : Handler where
  frame := getSigframe s.tcb.trapframe
  regs := s.tcb.trapframe
  blocked := s.tcb.blocked
  signo := x
  act := acts x

def Handling.step (acts : Actions) (s : Handling) : Move → Option Handling
  | .send sig page => some { s with tcb := (signalSend s.tcb sig page).2 }
  | .handle sig =>
    (signalHandle acts sig s.tcb s.mem).map fun (_, t, mem) =>
      ⟨t, mem, (delivered acts s.tcb t).map (s.enter acts) ++ s.stack⟩
  | .sigreturn satp sp trap hartid =>
    (s.nest.sigreturn satp sp trap hartid).map fun n => ⟨n.tcb, n.mem, s.stack.tail⟩
  | .user regs mem =>
    if s.nest.Keeps { s.tcb with trapframe := regs } mem then
      some { s with tcb := { s.tcb with trapframe := regs }, mem }
    else none

/-- The machine with a table of actions, from any thread that runs no handler and whose pending
signals are those on its list. -/
def handlingMachine (acts : Actions) : Machine Handling Move where
  init s := s.stack = [] ∧ Tracked s.tcb []
  step := Handling.step acts

/-- The signals that a mask is to hold back are blocked already. -/
def Covers (blocked mask : Word) : Prop :=
  ∀ y, validSignal y → sigIsMember mask y = true →
    y = SIGKILL ∨ y = SIGSTOP ∨ sigIsMember blocked y = true

/-- The condition on a call. A send finds a page, and is not of a signal whose handler runs. When
`signal_handle` turns to a signal, its action is a handler whose mask is already blocked, and
the frame fits below the stack pointer. -/
def Covered (acts : Actions) (s : Handling) : Move → Prop
  | .send sig page => page = true ∧ ∀ f ∈ s.stack, f.signo ≠ sig
  | .handle sig => rtSigframeSize ≤ (s.tcb.trapframe .sp).toNat ∧
      ∀ x ∈ s.tcb.next acts sig, (acts x).handler ≠ SIG_DFL ∧ Covers s.tcb.blocked (acts x).mask
  | _ => True

/-- **Signals are held back while a handler runs, and are not dropped.** -/
structure HandlersMasked (acts : Actions) (s : Handling) : Prop where
  /-- A handler that is entered is that of no signal which a running handler holds back. -/
  masked : ∀ sig s' f, Covered acts s (.handle sig) → s.step acts (.handle sig) = some s' →
    s'.stack = f :: s.stack → ∀ g ∈ s.stack, f.signo ≠ g.signo ∧
      sigIsMember g.blocked f.signo = false ∧
      (sigIsMember g.act.mask f.signo = true → f.signo = SIGKILL ∨ f.signo = SIGSTOP)
  /-- A signal that is sent is on the list. -/
  queued : ∀ x s', validSignal x → Covered acts s (.send x true) →
    s.step acts (.send x true) = some s' → x ∈ s'.tcb.list
  /-- A signal on the list stays there until its handler is entered. -/
  kept : ∀ a s', Covered acts s a → s.step acts a = some s' → ∀ x ∈ s.tcb.list,
    x ∈ s'.tcb.list ∨ ∃ f, s'.stack = f :: s.stack ∧ f.signo = x
  /-- The handler of the first signal on the list that is not passed over is entered, if the
  frame can be written. -/
  entered : ∀ sig x, Covered acts s (.handle sig) → s.tcb.next acts sig = some x →
    (setupRtFrame (acts x) x s.tcb.blocked s.tcb.trapframe s.mem).1 ≠ none →
    ∃ s', s.step acts (.handle sig) = some s' ∧ s'.stack = s.enter acts x :: s.stack

variable {s s' : Handling}

/-- What a run keeps. -/
structure HandlingInv (s : Handling) : Prop where
  nested : Nested s.nest
  tracked : Tracked s.tcb (s.stack.map (·.signo))
  saved : ∀ f ∈ s.stack, f.blocked = s.tcb.blocked
  covers : ∀ f ∈ s.stack, Covers f.blocked f.act.mask

/-- **The handler of the next signal is entered**, if the frame can be written. -/
theorem Handling.step_enter (hc : s.tcb.pendingCnt = s.tcb.list.length)
    (hv : ∀ y ∈ s.tcb.list, validSignal y) (hnodup : s.tcb.list.Nodup)
    (hn : s.tcb.next acts sig = some x) (hd : (acts x).handler ≠ SIG_DFL)
    (hset : setupRtFrame (acts x) x s.tcb.blocked s.tcb.trapframe s.mem = (some tf, m)) :
    ∃ l l', s.tcb.list = l ++ x :: l' ∧
      s.step acts (.handle sig) = some ⟨{ s.tcb with
        trapframe := tf, pendingCnt := s.tcb.pendingCnt - 1, sigProcessing := x,
        list := l ++ l' }, m, s.enter acts x :: s.stack⟩ := by
  obtain ⟨l, l', hl, -, heq⟩ := signalHandle_next hc hv hn hd
  rw [hset] at heq
  refine ⟨l, l', hl, ?_⟩
  rw [Handling.step, heq]
  dsimp only [Option.map_some]
  rw [delivered_eq hnodup hl rfl hd]
  rfl

/-- **What `signal_handle` does under the condition**: nothing but to try to write a frame, or the
handler of the next signal is entered. -/
theorem Handling.handle_cases (hi : HandlingInv s) (hok : Covered acts s (.handle sig))
    (hs : s.step acts (.handle sig) = some s') :
    (∃ m, s' = { s with mem := m } ∧
      ∀ a, (s.tcb.trapframe .sp).toNat ≤ a → m.byte a = s.mem.byte a) ∨
    ∃ x l l' tf m, s.tcb.list = l ++ x :: l' ∧ s.tcb.passes acts sig x = false ∧
      Covers s.tcb.blocked (acts x).mask ∧
      setupRtFrame (acts x) x s.tcb.blocked s.tcb.trapframe s.mem = (some tf, m) ∧
      s' = ⟨{ s.tcb with
        trapframe := tf, pendingCnt := s.tcb.pendingCnt - 1, sigProcessing := x,
        list := l ++ l' }, m, s.enter acts x :: s.stack⟩ := by
  obtain ⟨hfit, hnext⟩ := hok
  have hv : ∀ x ∈ s.tcb.list, validSignal x :=
    fun x hx => hi.tracked.valid x (List.mem_append_left _ hx)
  simp only [Handling.step, Option.map_eq_some_iff] at hs
  obtain ⟨⟨b, t, mem⟩, hh, rfl⟩ := hs
  cases hn : s.tcb.next acts sig with
  | none =>
    rw [signalHandle_none hv hn] at hh
    simp only [Option.some.injEq, Prod.mk.injEq] at hh
    obtain ⟨-, rfl, rfl⟩ := hh
    refine .inl ⟨s.mem, ?_, fun _ _ => rfl⟩
    rw [delivered_nil rfl]
    rfl
  | some x =>
    obtain ⟨hd, hcov⟩ := hnext x hn
    obtain ⟨l, l', hl, hpass, heq⟩ := signalHandle_next hi.tracked.count hv hn hd
    rw [heq] at hh
    split at hh
    next m' hset =>
      simp only [Option.some.injEq, Prod.mk.injEq] at hh
      obtain ⟨-, rfl, rfl⟩ := hh
      refine .inl ⟨m', ?_, fun a ha => ?_⟩
      · rw [delivered_nil rfl]
        rfl
      · have hout : (setupRtFrame (acts x) x s.tcb.blocked s.tcb.trapframe s.mem).2.byte a =
            s.mem.byte a := setupRtFrame_above hfit ha
        rwa [hset] at hout
    next tf m' hset =>
      simp only [Option.some.injEq, Prod.mk.injEq] at hh
      obtain ⟨-, rfl, rfl⟩ := hh
      refine .inr ⟨x, l, l', tf, m', hl, hpass, hcov, hset, ?_⟩
      rw [delivered_eq (List.nodup_append.1 hi.tracked.nodup).1 hl rfl hd]
      rfl

/-- **The return from the innermost handler**, for the signals. -/
theorem Nested.sigreturn_tcb {n n' : Nest} {f : Saved} {rest : List Saved}
    {satp sp trap hartid : Word} (h : Nested n) (hst : n.stack = f :: rest)
    (hs : n.sigreturn satp sp trap hartid = some n') :
    n'.tcb.blocked = f.blocked ∧ n'.tcb.signal = sigDelSetMask n.tcb.signal f.signo ∧
      n'.tcb.list = n.tcb.list ∧ n'.tcb.pendingCnt = n.tcb.pendingCnt ∧ n'.stack = rest := by
  have hcond : n.tcb.trapframe .sp = f.frame ∧
      ∀ i < rtSigframeSize, ucRiscvOff ≤ i → n.mem.mapped (vpn (f.frame.toNat + i)) = true := by
    rw [Nest.sigreturn, hst] at hs
    exact (Option.ite_none_right_eq_some.1 hs).1
  obtain ⟨n1, h1, -, hb, hset, -, hrest⟩ :=
    h.sigreturn_eq hst hcond.1 hcond.2 satp sp trap hartid
  obtain rfl := Option.some.inj (h1.symm.trans hs)
  rw [Nest.sigreturn, hst] at hs
  obtain ⟨-, hs⟩ := Option.ite_none_right_eq_some.1 hs
  obtain ⟨tf, sig, hret, -⟩ := usertrapSigreturn_cases n.tcb n.mem
  have htcb := congrArg Nest.tcb (Option.some.inj hs)
  refine ⟨hb, hset, ?_, ?_, hrest⟩ <;> rw [← htcb, hret]

variable {m : UserMem}

theorem HandlingInv.keep (h : HandlingInv s) {t : Tcb}
    (hn : Nested { s.nest with tcb := t, mem := m }) (ht : Tracked t (s.stack.map (·.signo)))
    (hb : t.blocked = s.tcb.blocked) : HandlingInv ⟨t, m, s.stack⟩ :=
  ⟨hn, ht, fun f hf => (h.saved f hf).trans hb.symm, h.covers⟩

theorem HandlingInv.nested_of_above (h : HandlingInv s) {t : Tcb}
    (hsp : t.trapframe .sp = s.tcb.trapframe .sp)
    (hm : ∀ a, (s.tcb.trapframe .sp).toNat ≤ a → m.byte a = s.mem.byte a) :
    Nested { s.nest with tcb := t, mem := m } := by
  refine h.nested.user ⟨fun f hf => ?_, fun f hf i _ => ?_⟩
  · rw [hsp]
    exact h.nested.sp f (List.mem_of_mem_head? hf)
  · refine hm _ ?_
    have hle := h.nested.sp f hf
    exact hle.trans (Nat.le_add_right _ _)

theorem HandlingInv.step (h : HandlingInv s) {a : Move} (hok : Covered acts s a)
    (hs : s.step acts a = some s') : HandlingInv s' := by
  cases a with
  | send sig page =>
    cases hs
    exact h.keep (h.nested_of_above (by rw [(signalSend_frame _ _ _).2]) fun _ _ => rfl)
      (h.tracked.send sig page) (signalSend_frame _ _ _).1
  | handle sig =>
    obtain ⟨m, rfl, hm⟩ | ⟨x, l, l', tf, m, hl, hpass, hcov, hset, rfl⟩ :=
      Handling.handle_cases h hok hs
    · exact h.keep (h.nested_of_above rfl hm) h.tracked rfl
    · have hdel : s.nest.deliver (acts x) x =
          some ⟨{ s.tcb with trapframe := tf, sigProcessing := x }, m,
            (s.enter acts x).toSaved :: s.nest.stack⟩ := by
        simp only [Nest.deliver, Handling.nest, hset]
        rfl
      have hnest := h.nested.deliver (h.tracked.valid x (by simp [hl])) hok.1 hdel
      refine ⟨⟨hnest.placed, hnest.valid, hnest.holds, hnest.chain, hnest.sp⟩,
        h.tracked.push hl rfl rfl rfl, fun f hf => ?_, fun f hf => ?_⟩
      · obtain rfl | hf := List.mem_cons.1 hf
        · rfl
        · exact h.saved f hf
      · obtain rfl | hf := List.mem_cons.1 hf
        · exact hcov
        · exact h.covers f hf
  | sigreturn satp sp trap hartid =>
    obtain ⟨n, hn, rfl⟩ := Option.map_eq_some_iff.1 hs
    have hnest := h.nested.sigreturn hn
    rcases hst : s.stack with _ | ⟨f, rest⟩
    · simp [Nest.sigreturn, Handling.nest, hst] at hn
    have hf : f ∈ s.stack := by simp [hst]
    obtain ⟨hb, hset, hl, hc, hns⟩ := h.nested.sigreturn_tcb
      (f := f.toSaved) (by rw [Handling.nest, hst]; rfl) hn
    have htracked := h.tracked
    rw [hst, List.map_cons] at htracked
    refine ⟨?_, htracked.sigreturn (.refl _) hl hc hset, fun g hg => ?_, fun g hg => ?_⟩
    · have hst' : (rest.map Handler.toSaved) = n.stack := hns.symm
      rw [Handling.nest]
      rw [List.tail_cons, hst']
      exact hnest
    · rw [List.tail_cons] at hg
      rw [hb]
      have hgf := h.saved g (by simp [hst, hg])
      exact hgf.trans (h.saved f hf).symm
    · exact h.covers g (by rw [hst]; exact List.mem_cons_of_mem _ hg)
  | user regs mem =>
    obtain ⟨hk, rfl⟩ := guard_eq_some.1 hs
    exact h.keep (h.nested.user hk) (h.tracked.same rfl rfl rfl) rfl

/-! ### What follows -/

section

variable (h : HandlingInv s)
include h

theorem HandlingInv.masked {f g : Handler} (hok : Covered acts s (.handle sig))
    (hs : s.step acts (.handle sig) = some s') (hst : s'.stack = f :: s.stack)
    (hg : g ∈ s.stack) : f.signo ≠ g.signo ∧ sigIsMember g.blocked f.signo = false ∧
      (sigIsMember g.act.mask f.signo = true → f.signo = SIGKILL ∨ f.signo = SIGSTOP) := by
  obtain ⟨m, rfl, -⟩ | ⟨x, l, l', tf, m, hl, hpass, -, -, rfl⟩ := Handling.handle_cases h hok hs
  · exact absurd (congrArg List.length hst) (by simp)
  obtain rfl : s.enter acts x = f := (List.cons.inj hst).1
  have hx : x ∈ s.tcb.list := by simp [hl]
  have hvalid := h.tracked.valid x (List.mem_append_left _ hx)
  have hfree : sigIsMember s.tcb.blocked x = false := by
    simp only [Tcb.passes, decide_eq_false_iff_not, not_or] at hpass
    exact Bool.eq_false_iff.2 hpass.2.1
  have hblocked : sigIsMember g.blocked x = false := by rw [h.saved g hg, hfree]
  refine ⟨fun heq => ?_, hblocked, fun hmask => ?_⟩
  · -- a signal is not on the list and in a frame
    have hdisj := (List.nodup_append.1 h.tracked.nodup).2.2 x hx g.signo
      (List.mem_map_of_mem hg)
    exact hdisj heq
  · obtain hk | hk | hk := h.covers g hg x hvalid hmask
    · exact .inl hk
    · exact .inr hk
    · rw [hblocked] at hk
      cases hk

theorem HandlingInv.queued (hx : validSignal x)
    (hok : Covered acts s (.send x true)) : x ∈ (signalSend s.tcb x true).2.list := by
  rcases hbit : sigIsMember s.tcb.signal x with _ | _
  · rw [(signalSend_queued hx hbit).2]
    simp
  obtain hl | hf := List.mem_append.1 ((h.tracked.bit x hx).1 hbit)
  · rwa [signalSend, if_neg (not_not_intro hx), if_pos hbit]
  · obtain ⟨f, hf, hfx⟩ := List.mem_map.1 hf
    exact absurd hfx (hok.2 f hf)

theorem HandlingInv.kept {a : Move} (hok : Covered acts s a)
    (hs : s.step acts a = some s') (hx : x ∈ s.tcb.list) :
    x ∈ s'.tcb.list ∨ ∃ f, s'.stack = f :: s.stack ∧ f.signo = x := by
  cases a with
  | send sig page =>
    cases hs
    left
    obtain ⟨hl, -⟩ | ⟨-, -, hl, -⟩ := signalSend_cases s.tcb sig page
    · rwa [hl]
    · rw [hl]
      exact List.mem_append_left _ hx
  | handle sig =>
    obtain ⟨m, rfl, -⟩ | ⟨y, l, l', tf, m, hl, -, -, -, rfl⟩ := Handling.handle_cases h hok hs
    · exact .inl hx
    rw [hl, List.mem_append, List.mem_cons] at hx
    obtain hx | rfl | hx := hx
    · exact .inl (List.mem_append_left _ hx)
    · exact .inr ⟨_, rfl, rfl⟩
    · exact .inl (List.mem_append_right _ hx)
  | sigreturn satp sp trap hartid =>
    obtain ⟨n, hn, rfl⟩ := Option.map_eq_some_iff.1 hs
    left
    rcases hst : s.nest.stack with _ | ⟨f, rest⟩
    · simp [Nest.sigreturn, hst] at hn
    obtain ⟨-, -, hl, -⟩ := h.nested.sigreturn_tcb hst hn
    rwa [hl]
  | user regs mem =>
    obtain ⟨-, rfl⟩ := guard_eq_some.1 hs
    exact .inl hx

theorem HandlingInv.entered (hok : Covered acts s (.handle sig))
    (hn : s.tcb.next acts sig = some x)
    (hset : (setupRtFrame (acts x) x s.tcb.blocked s.tcb.trapframe s.mem).1 ≠ none) :
    ∃ s', s.step acts (.handle sig) = some s' ∧ s'.stack = s.enter acts x :: s.stack := by
  have hd := (hok.2 x hn).1
  cases hframe : setupRtFrame (acts x) x s.tcb.blocked s.tcb.trapframe s.mem with
  | mk o m =>
    rw [hframe] at hset
    obtain ⟨tf, rfl⟩ := Option.ne_none_iff_exists'.1 hset
    obtain ⟨l, l', -, hs⟩ := Handling.step_enter h.tracked.count
      (fun y hy => h.tracked.valid y (List.mem_append_left _ hy))
      (List.nodup_append.1 h.tracked.nodup).1 hn hd hframe
    exact ⟨_, hs, rfl⟩

end

/-- **Signals are held back while a handler runs, and are not dropped**, in every run in which
the mask of every action that is delivered is already blocked, no action that `signal_handle`
turns to is the default, every frame fits below the stack pointer, and every send finds a page
and is not of a signal whose handler runs. -/
theorem handlersMasked_of_reach (h : (handlingMachine acts).Reach (Covered acts) s) :
    HandlersMasked acts s := by
  have hi : HandlingInv s := by
    refine h.invariant (fun s hs => ?_) fun s a s' hi hok hs => hi.step hok hs
    obtain ⟨hnil, htracked⟩ := hs
    refine ⟨?_, by rw [hnil]; exact htracked, by simp [hnil], by simp [hnil]⟩
    have hstack : s.nest.stack = [] := by simp [Handling.nest, hnil]
    exact ⟨by simp [hstack], by simp [hstack], by simp [hstack], by simp [hstack],
      by simp [hstack]⟩
  refine ⟨fun sig s' f hok hs hst g hg => hi.masked hok hs hst hg, fun x s' hx hok hs => ?_,
    fun a s' hok hs x hx => hi.kept hok hs hx,
    fun sig x hok hn hset => hi.entered hok hn hset⟩
  cases hs
  exact hi.queued hx hok

/-! ### Runs of a thread -/

/-- A thread with two pages of memory and no signals. -/
def calmThread : Handling := ⟨(threadAt 8192).tcb, (threadAt 8192).mem, []⟩

theorem calmThread_init (acts : Actions) : (handlingMachine acts).init calmThread :=
  ⟨rfl, .of_empty rfl rfl rfl⟩

/-- Signal 10 has a handler whose mask has the signal 12; so has signal 12, with no mask. -/
def maskActs : Actions
  | 10 => ⟨4096, sigGenMask 12, 0⟩
  | 12 => ⟨4096, 0, 0⟩
  | _ => .default

theorem setupRtFrame_calm (hm : m.mapped = calmThread.mem.mapped)
    (huc : (getSigframe tf + BitVec.ofNat 64 ucOff).toNat + Ucontext.size ≤ 2 * PGSIZE)
    (hriscv : (getSigframe tf + BitVec.ofNat 64 ucRiscvOff).toNat + ucontextTSize ≤ 2 * PGSIZE) :
    ∃ m', setupRtFrame act signo set tf m =
      (some (handlerRegs act signo (getSigframe tf) tf), m') ∧ m'.mapped = calmThread.mem.mapped := by
  rw [← hm]
  exact setupRtFrame_of_mapped (fun i hi => hm ▸ threadAt_mapped 8192 huc hi)
    fun i hi => hm ▸ threadAt_mapped 8192 hriscv hi

/-- Signal 10 is sent, and its handler is entered: signal 12, which is in its mask, is blocked. -/
theorem handlersMasked_one : ∃ s s', (handlingMachine maskActs).exec
      { calmThread with tcb.blocked := sigGenMask 12 } [.send 10 true] = some s ∧
    s.step maskActs (.handle 0) = some s' ∧ s'.stack = [s.enter maskActs 10] := by
  have hreach : (handlingMachine maskActs).Reach (Covered maskActs) _ :=
    .step (a := .send 10 true) (.init (s := { calmThread with tcb.blocked := sigGenMask 12 })
      ⟨rfl, .of_empty rfl rfl rfl⟩) ⟨rfl, fun f hf => by cases hf⟩ rfl
  have hnext : Tcb.next maskActs 0 (signalSend { calmThread.tcb with blocked := sigGenMask 12 }
      10 true).2 = some 10 := by decide
  obtain ⟨m, hset, -⟩ : ∃ m, setupRtFrame (maskActs 10) 10 (sigGenMask 12)
      calmThread.tcb.trapframe calmThread.mem = (some _, m) ∧ _ :=
    setupRtFrame_calm rfl (by decide) (by decide)
  have hcovers : ∀ x ∈ Tcb.next maskActs 0 (signalSend { calmThread.tcb with blocked := sigGenMask 12 }
      10 true).2, (maskActs x).handler ≠ SIG_DFL ∧ Covers (sigGenMask 12) (maskActs x).mask := by
    intro x hx
    obtain rfl : 10 = x := Option.some.inj (hnext.symm.trans hx)
    exact ⟨by decide, fun y _ hy => .inr (.inr hy)⟩
  obtain ⟨s', hs', hst⟩ := (handlersMasked_of_reach hreach).entered 0 10 ⟨by decide, hcovers⟩ hnext
    (fun hnone => by cases (congrArg Prod.fst hset).symm.trans hnone)
  exact ⟨_, s', rfl, hs', hst⟩

/-- The handler of the only signal on the list is entered. -/
theorem reach_handle (h : (handlingMachine acts).Reach Machine.anyStep s)
    (hm : s.mem.mapped = calmThread.mem.mapped) (hl : s.tcb.list = [x])
    (hc : s.tcb.pendingCnt = 1) (hx : validSignal x) (hn : s.tcb.next acts 0 = some x)
    (hd : (acts x).handler ≠ SIG_DFL)
    (huc : (getSigframe s.tcb.trapframe + BitVec.ofNat 64 ucOff).toNat + Ucontext.size ≤
      2 * PGSIZE)
    (hriscv : (getSigframe s.tcb.trapframe + BitVec.ofNat 64 ucRiscvOff).toNat + ucontextTSize ≤
      2 * PGSIZE) :
    ∃ m, m.mapped = calmThread.mem.mapped ∧ (handlingMachine acts).Reach Machine.anyStep
      ⟨{ s.tcb with
        trapframe := handlerRegs (acts x) x (getSigframe s.tcb.trapframe) s.tcb.trapframe
        pendingCnt := 0, sigProcessing := x, list := [] }, m, s.enter acts x :: s.stack⟩ := by
  obtain ⟨m, hset, hmap⟩ := setupRtFrame_calm hm huc hriscv
  obtain ⟨l, l', hll, hs⟩ := Handling.step_enter (by rw [hc, hl]; rfl) (by simpa [hl] using hx)
    (by simp [hl]) hn hd hset
  obtain ⟨rfl, rfl⟩ : l = [] ∧ l' = [] := by simpa [hl, List.cons_eq_append_iff] using hll
  rw [hc] at hs
  exact ⟨m, hmap, h.step (a := .handle 0) trivial hs⟩

/-- **The mask is not applied, and a signal is dropped.** While the handler of signal 10 runs, the
handler of signal 12 is entered, although it is in the mask of the action; and signal 10, sent
again while its handler runs, is not queued. -/
theorem mask_not_applied :
    (∃ s f g, (handlingMachine maskActs).Reach Machine.anyStep s ∧ s.stack = [f, g] ∧
      f.signo = 12 ∧ g.signo = 10 ∧ sigIsMember g.act.mask f.signo = true) ∧
    ∃ s g, (handlingMachine maskActs).Reach Machine.anyStep s ∧ s.stack = [g] ∧ g.signo = 10 ∧
      s.tcb.list = [] ∧ signalSend s.tcb 10 true = (false, s.tcb) := by
  have hinit : (handlingMachine maskActs).Reach Machine.anyStep calmThread :=
    .init (calmThread_init maskActs)
  obtain ⟨m, hm, h10⟩ := reach_handle (x := 10) (hinit.step (a := .send 10 true) trivial rfl) rfl rfl
    rfl (by decide) (by decide) (by decide) (by decide) (by decide)
  constructor
  · obtain ⟨m', -, h12⟩ := reach_handle (x := 12) (h10.step (a := .send 12 true) trivial rfl) hm
      (by dsimp only; decide) (by dsimp only; decide) (by decide) (by dsimp only; decide) (by decide)
      (by dsimp only; decide) (by dsimp only; decide)
    have hmask : sigIsMember (maskActs 10).mask 12 = true := by decide
    exact ⟨_, _, _, h12, rfl, rfl, rfl, hmask⟩
  · refine ⟨_, _, h10, rfl, rfl, rfl, ?_⟩
    rw [signalSend, if_neg (not_not_intro (by decide)), if_pos (by dsimp only; decide)]

end XVapor.Signal
