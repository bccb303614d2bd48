import XVapor.Signal

/-!
# `SIGKILL` and `SIGSTOP`

The two signals are to be neither blocked nor caught. The kernel tries to keep their bits out
of the masks with `sig_del_set_mask`, and does it for `SIGKILL` only: the complement of the
macro binds to the first of the two masks. `do_sigaction` installs an action for either of
them, and `sigreturn` takes the mask from user memory as it is.

A mask gets the bit of `SIGSTOP` only if it is given with it, so **the two signals are safe
as long as the user gives no mask with one of them, and no action for one of them**.

## Main results

* `unblockable_of_reach`: in every run whose calls meet the condition the bits are clear and
  the actions are the default.
-/

namespace XVapor.Signal

open Function

variable {T H : Type} [DecidableEq T] [DecidableEq H]

/-! ### The threads -/

/-- The threads, the tables of actions they use, and user memory. -/
structure Threads (T H : Type) where
  tcb : T → Tcb
  sigs : T → H
  acts : H → Actions
  mem : UserMem

/-- A call of a thread, or what happens to it. The new thread of a `clone` gets the table of
the leader, or a new one. -/
inductive Call (T H : Type)
  | sigprocmask (how : How) (set : Option Word)
  | sigaction (signum : Word) (act : Option Sigaction)
  | sigreturn
  | clone (new leader : T) (fresh : Option H)
  | send (sig : Word) (page : Bool)
  | handle (sig : Word)
  | user (regs : Trapframe) (mem : UserMem)

/-- The thread gets another `struct tcb`. -/
def Threads.setTcb (s : Threads T H) (t : T) (u : Tcb) : Threads T H :=
  { s with tcb := update s.tcb t u }

/-- A table of actions is changed. -/
def Threads.setActs (s : Threads T H) (h : H) (acts : Actions) : Threads T H :=
  { s with acts := update s.acts h acts }

/-- `do_clone`, for the signals: `alloc_thread`, and then `CLONE_SIGHAND` or `sighandinit`. -/
def Threads.clone (s : Threads T H) (new leader : T) (fresh : Option H) : Threads T H :=
  let s := s.setTcb new (allocThread (s.tcb new))
  match fresh with
  | none => { s with sigs := update s.sigs new (s.sigs leader) }
  | some h =>
    ({ s with sigs := update s.sigs new h } : Threads T H).setActs h fun _ => .default

/-- The call of the thread `t`. -/
def Threads.call (s : Threads T H) (t : T) : Call T H → Option (Threads T H)
  | .sigprocmask how set =>
    some (s.setTcb t { s.tcb t with blocked := (doSigprocmask (s.tcb t).blocked how set).2 })
  | .sigaction signum act =>
    some (s.setActs (s.sigs t) (doSigaction (s.acts (s.sigs t)) signum act).2)
  | .sigreturn => some (s.setTcb t (usertrapSigreturn (s.tcb t) s.mem))
  | .clone new leader fresh => some (s.clone new leader fresh)
  | .send sig page => some (s.setTcb t (signalSend (s.tcb t) sig page).2)
  | .handle sig =>
    (signalHandle (s.acts (s.sigs t)) sig (s.tcb t) s.mem).map fun (_, u, m) =>
      { s.setTcb t u with mem := m }
  | .user regs mem => some { s.setTcb t { s.tcb t with trapframe := regs } with mem }

/-- The machine of the calls. In the beginning nothing is blocked and every action is the
default. -/
def maskMachine (T H : Type) [DecidableEq T] [DecidableEq H] :
    Machine (Threads T H) (T × Call T H) where
  init s := (∀ t, (s.tcb t).blocked = 0) ∧ ∀ h sig, s.acts h sig = .default
  step s a := s.call a.1 a.2

/-! ### What is to hold -/

/-- Neither of the two signals is in the mask. -/
def Clear (set : Word) : Prop :=
  sigIsMember set SIGKILL = false ∧ sigIsMember set SIGSTOP = false

instance (set : Word) : Decidable (Clear set) := inferInstanceAs (Decidable (_ ∧ _))

/-- `SIGKILL` and `SIGSTOP` are neither blocked nor caught. -/
structure Unblockable (s : Threads T H) : Prop where
  blocked : ∀ t, Clear (s.tcb t).blocked
  mask : ∀ h sig, Clear (s.acts h sig).mask
  kill : ∀ h, s.acts h SIGKILL = .default
  stop : ∀ h, s.acts h SIGSTOP = .default

/-- The mask in the frame that `sigreturn` reads. -/
def frameMask (t : Tcb) (m : UserMem) : Option Word :=
  (copyin m (t.trapframe .sp + BitVec.ofNat 64 ucOff).toNat Ucontext.size).map fun b =>
    (Ucontext.read b).sigmask

/-- The condition on a call: a mask that is given has no bit of the two signals, and an action
that is given is not for one of them. The bit of `SIGKILL` does no harm where the kernel
deletes it. -/
def Modest (s : Threads T H) (a : T × Call T H) : Prop :=
  match a.2 with
  | .sigprocmask how set => ∀ m ∈ set, how ≠ .unblock → sigIsMember m SIGSTOP = false
  | .sigaction signum act =>
    ∀ x ∈ act, signum ≠ SIGKILL ∧ signum ≠ SIGSTOP ∧ sigIsMember x.mask SIGSTOP = false
  | .sigreturn => ∀ m ∈ frameMask (s.tcb a.1) s.mem, Clear m
  | _ => True

/-! ### Masks -/

theorem clear_sigDelSetMaskKillStop {set : Word} :
    Clear (sigDelSetMaskKillStop set) ↔ sigIsMember set SIGSTOP = false := by
  have hkill : (~~~ sigGenMask SIGKILL ||| sigGenMask SIGSTOP : Word).getLsbD (sigBit SIGKILL) =
      false := by decide
  have hstop : (~~~ sigGenMask SIGKILL ||| sigGenMask SIGSTOP : Word).getLsbD (sigBit SIGSTOP) =
      true := by decide
  simp [Clear, sigIsMember, sigDelSetMaskKillStop, BitVec.getLsbD_and, hkill, hstop]

theorem doSigprocmask_clear {blocked : Word} {how : How} {set : Option Word} (h : Clear blocked)
    (hset : ∀ m ∈ set, how ≠ .unblock → sigIsMember m SIGSTOP = false) :
    Clear (doSigprocmask blocked how set).2 := by
  have hstop := h.2
  obtain _ | m := set
  · exact clear_sigDelSetMaskKillStop.2 hstop
  cases how with
  | block =>
    refine clear_sigDelSetMaskKillStop.2 ?_
    have hm := hset m rfl (by simp)
    simp only [sigIsMember, BitVec.getLsbD_or, Bool.or_eq_false_iff] at hm hstop ⊢
    exact ⟨hstop, hm⟩
  | unblock =>
    refine clear_sigDelSetMaskKillStop.2 ?_
    simp only [sigIsMember, BitVec.getLsbD_and, Bool.and_eq_false_iff] at hstop ⊢
    exact .inl hstop
  | setmask => exact clear_sigDelSetMaskKillStop.2 (hset m rfl (by simp))
  | invalid => exact h

/-- **What `sigreturn` does**: the mask and the signal are those of the frame, if it is mapped. -/
theorem usertrapSigreturn_cases (t : Tcb) (m : UserMem) : ∃ tf sig, usertrapSigreturn t m = { t with
      trapframe := tf, blocked := (frameMask t m).getD t.blocked, sigProcessing := sig,
      signal := sigDelSetMask t.signal sig } ∧
    ∀ b, copyin m (t.trapframe .sp + BitVec.ofNat 64 ucOff).toNat Ucontext.size = some b →
      sig = (Ucontext.read b).sigprocessing := by
  rw [usertrapSigreturn_eq]
  unfold signalFrameRestore frameMask
  obtain _ | b := copyin m (t.trapframe .sp + BitVec.ofNat 64 ucOff).toNat Ucontext.size
  · exact ⟨_, _, rfl, by simp⟩
  dsimp only
  obtain _ | b' := copyin m (t.trapframe .sp + BitVec.ofNat 64 ucRiscvOff).toNat ucontextTSize
  · exact ⟨_, _, rfl, by rintro _ ⟨⟩; rfl⟩
  dsimp only
  split <;> exact ⟨_, _, rfl, by rintro _ ⟨⟩; rfl⟩

variable {acts : Actions} {sig : Word} {t t' : Tcb} {m m' : UserMem}

theorem handleLoop_blocked {kept rest : List Word}
    {b : Bool} (h : handleLoop acts sig kept rest t m = some (b, t', m')) :
    t'.blocked = t.blocked := by
  induction rest generalizing kept t with
  | nil =>
    obtain ⟨-, rfl, -⟩ := by simpa [handleLoop] using h
    rfl
  | cons s rest ih =>
    rw [handleLoop] at h
    split at h
    · exact ih h
    obtain ⟨-, h⟩ := Option.ite_none_left_eq_some.1 h
    split at h
    · exact ih h
    split at h
    · rw [ih h, signalDefault]
      split <;> rfl
    split at h
    · obtain ⟨-, rfl, -⟩ := by simpa using h
      rfl
    obtain ⟨-, rfl, -⟩ := by simpa using h
    rfl

theorem signalHandle_blocked {b : Bool}
    (h : signalHandle acts sig t m = some (b, t', m')) : t'.blocked = t.blocked := by
  rw [signalHandle] at h
  split at h
  · obtain ⟨-, rfl, -⟩ := by simpa using h
    rfl
  · exact handleLoop_blocked h

theorem signalSend_frame (t : Tcb) (sig : Word) (page : Bool) :
    (signalSend t sig page).2.blocked = t.blocked ∧
      (signalSend t sig page).2.trapframe = t.trapframe := by
  rw [signalSend]
  split
  · exact ⟨rfl, rfl⟩
  · split
    · exact ⟨rfl, rfl⟩
    · split <;> exact ⟨rfl, rfl⟩

/-! ### Runs -/

variable {s s' : Threads T H} {t : T}

section

variable (h : Unblockable s)
include h

omit [DecidableEq H] in
theorem Unblockable.setTcb {u : Tcb} (hu : Clear u.blocked) :
    Unblockable (s.setTcb t u) := by
  refine ⟨fun t' => ?_, h.mask, h.kill, h.stop⟩
  obtain rfl | ht := eq_or_ne t' t
  · simpa [Threads.setTcb] using hu
  · simpa [Threads.setTcb, ht] using h.blocked t'

omit [DecidableEq T] in
theorem Unblockable.setActs (k : H)
    (hmask : ∀ sig, Clear (acts sig).mask) (hkill : acts SIGKILL = .default)
    (hstop : acts SIGSTOP = .default) : Unblockable (s.setActs k acts) := by
  have hcases : ∀ h', (s.setActs k acts).acts h' = acts ∨
      (s.setActs k acts).acts h' = s.acts h' := by
    intro h'
    by_cases hk : h' = k
    · exact .inl (hk ▸ update_self _ _ _)
    · exact .inr (update_of_ne hk _ _)
  refine ⟨h.blocked, fun h' sig => ?_, fun h' => ?_, fun h' => ?_⟩
  · obtain heq | heq := hcases h'
    · rw [heq]
      exact hmask sig
    · rw [heq]
      exact h.mask h' sig
  · obtain heq | heq := hcases h'
    · rw [heq, hkill]
    · rw [heq, h.kill]
  · obtain heq | heq := hcases h'
    · rw [heq, hstop]
    · rw [heq, h.stop]

omit [DecidableEq T] in
theorem Unblockable.sigaction {signum : Word} {act : Option Sigaction}
    (hact : ∀ x ∈ act, signum ≠ SIGKILL ∧ signum ≠ SIGSTOP ∧ sigIsMember x.mask SIGSTOP = false) :
    Unblockable (s.setActs (s.sigs t) (doSigaction (s.acts (s.sigs t)) signum act).2) := by
  have hsame : Unblockable (s.setActs (s.sigs t) (s.acts (s.sigs t))) :=
    h.setActs _ (h.mask _) (h.kill _) (h.stop _)
  unfold doSigaction
  split
  · exact hsame
  obtain _ | x := act
  · exact hsame
  obtain ⟨hk, hs, hm⟩ := hact x rfl
  refine h.setActs _ (fun sig => ?_) ?_ ?_
  · by_cases hsig : sig = signum
    · rw [hsig]
      simpa using clear_sigDelSetMaskKillStop.2 hm
    · simpa [hsig] using h.mask _ sig
  · simpa [update_of_ne hk.symm] using h.kill _
  · simpa [update_of_ne hs.symm] using h.stop _

theorem Unblockable.call {c : Call T H} (hok : Modest s (t, c))
    (hs : s.call t c = some s') : Unblockable s' := by
  cases c with
  | sigprocmask how set =>
    cases hs
    exact h.setTcb (doSigprocmask_clear (h.blocked t) hok)
  | sigaction signum act =>
    cases hs
    exact h.sigaction hok
  | sigreturn =>
    cases hs
    refine h.setTcb ?_
    obtain ⟨tf, sig, hret, -⟩ := usertrapSigreturn_cases (s.tcb t) s.mem
    rw [hret]
    cases hf : frameMask (s.tcb t) s.mem with
    | none => exact h.blocked t
    | some m => exact hok m hf
  | clone new leader fresh =>
    cases hs
    have hnew := h.setTcb (t := new) (u := allocThread (s.tcb new)) (by decide : Clear 0)
    obtain _ | k := fresh
    · exact ⟨hnew.blocked, hnew.mask, hnew.kill, hnew.stop⟩
    have hsigs : Unblockable { s.setTcb new (allocThread (s.tcb new)) with
        sigs := update s.sigs new k } :=
      ⟨hnew.blocked, hnew.mask, hnew.kill, hnew.stop⟩
    exact hsigs.setActs k (fun _ => by decide) rfl rfl
  | send sig page =>
    cases hs
    refine h.setTcb ?_
    rw [(signalSend_frame _ _ _).1]
    exact h.blocked t
  | handle sig =>
    obtain ⟨⟨b, u, m⟩, hu, rfl⟩ := Option.map_eq_some_iff.1 hs
    have hset := h.setTcb (t := t) (u := u) (by
      rw [signalHandle_blocked hu]
      exact h.blocked t)
    exact ⟨hset.blocked, hset.mask, hset.kill, hset.stop⟩
  | user regs mem =>
    cases hs
    have hset := h.setTcb (t := t) (u := { s.tcb t with trapframe := regs }) (h.blocked t)
    exact ⟨hset.blocked, hset.mask, hset.kill, hset.stop⟩

end

/-- **`SIGKILL` and `SIGSTOP` are neither blocked nor caught** in any run whose calls meet the
condition. -/
theorem unblockable_of_reach (h : (maskMachine T H).Reach Modest s) : Unblockable s := by
  refine h.invariant (fun s hs => ?_) fun s a s' hi hok hs => hi.call hok hs
  refine ⟨fun t => ?_, fun k sig => ?_, fun k => hs.2 k _, fun k => hs.2 k _⟩
  · rw [hs.1]
    decide
  · rw [hs.2]
    decide

/-! ### Runs of one thread -/

/-- One thread at the beginning. -/
def oneThread : Threads Unit Unit where
  tcb _ := ⟨fun _ => 0, 0, 0, [], 0, 0, false⟩
  sigs _ := ()
  acts _ _ := .default
  mem := .lowest

/-- Blocking every signal but `SIGSTOP` leaves the two signals clear. -/
theorem unblockable_blockAll : Unblockable (oneThread.setTcb () { oneThread.tcb () with
    blocked := (doSigprocmask 0 .setmask (some (~~~ sigGenMask SIGSTOP))).2 }) :=
  unblockable_of_reach (.step (a := ((), .sigprocmask .setmask (some (~~~ sigGenMask SIGSTOP))))
    (.init ⟨fun _ => rfl, fun _ _ => rfl⟩)
    (by intro m hm _; cases hm; decide) rfl)

/-- **`SIGSTOP` can be blocked**: after `rt_sigprocmask` with its bit it is in the mask. -/
theorem sigstop_blocked : ∃ s, (maskMachine Unit Unit).Reach Machine.anyStep s ∧
    sigIsMember (s.tcb ()).blocked SIGSTOP = true :=
  ⟨_, .step (a := ((), .sigprocmask .block (some (sigGenMask SIGSTOP))))
    (.init (s := oneThread) ⟨fun _ => rfl, fun _ _ => rfl⟩) trivial rfl, by decide⟩

end XVapor.Signal
