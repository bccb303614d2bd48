import XVapor.SignalMask

/-!
# Nested Handlers

A handler is entered through a frame on the stack of the user, and `sigreturn` takes the
registers and the mask back from it. Handlers are nested: while one runs, a frame for another
is pushed below. Each frame survives the deeper ones because it lies above the stack pointer
they are pushed at, so that **every `sigreturn` restores what the matching delivery has
interrupted**.

This needs that the frame fits below the stack pointer. `get_sigframe` subtracts modulo
`2 ^ 64`: for a stack pointer below the size of a frame the address wraps around, and the parts
of the frame that are copied can still lie in the lowest page.

The frames with what they save are a history beside the state of the kernel.

## Main results

* `nested_of_reach`: the frames lie where they should, and `sigreturn` restores what was
  interrupted.
-/

namespace XVapor.Signal

open Vm (PGSIZE MAXVA vpn wordBytes field)

/-! ### Words and bytes -/

theorem length_wordBytes (x : ℕ) : (wordBytes x).length = 8 := by simp [wordBytes]

theorem ofNat_foldr_wordBytes (w : Word) :
    BitVec.ofNat 64 ((wordBytes w.toNat).foldr (fun x acc => x.toNat + 256 * acc) 0) = w := by
  refine BitVec.eq_of_toNat_eq ?_
  simp only [wordBytes, List.range, List.range.loop, List.map_cons, List.map_nil, List.foldr_cons,
    List.foldr_nil, UInt8.toNat_ofNat', BitVec.toNat_ofNat]
  omega

variable {i n : ℕ}

theorem wordAt_flatMap {ws : List Word} {w : Word} (h : ws[i]? = some w) :
    wordAt (ws.flatMap fun w => wordBytes w.toNat) i = w := by
  induction ws generalizing i with
  | nil => cases h
  | cons x ws ih =>
    have hlen := length_wordBytes x.toNat
    rw [List.flatMap_cons]
    cases i with
    | zero =>
      obtain rfl := Option.some.inj h
      rw [wordAt, field, slice, Nat.mul_zero, List.drop_zero, List.take_left' hlen]
      exact ofNat_foldr_wordBytes x
    | succ i =>
      have hdrop : (wordBytes x.toNat ++ ws.flatMap fun w => wordBytes w.toNat).drop
          (8 * (i + 1)) = (ws.flatMap fun w => wordBytes w.toNat).drop (8 * i) := by
        rw [Nat.mul_succ, Nat.add_comm, ← List.drop_drop, List.drop_left' hlen]
      rw [wordAt, field, slice, hdrop]
      exact ih h

/-- **What is read from a frame is what was written to it.** -/
theorem Ucontext.read_bytes (uc : Ucontext) : Ucontext.read uc.bytes = uc := by
  have hreg : (fun r => wordAt uc.bytes (Reg.all.idxOf r)) = uc.tf :=
    funext fun r => wordAt_flatMap (by cases r <;> rfl)
  have hmask : wordAt uc.bytes 36 = uc.sigmask := wordAt_flatMap rfl
  have hsig : wordAt uc.bytes 37 = uc.sigprocessing := wordAt_flatMap rfl
  rw [Ucontext.read, hreg, hmask, hsig]

theorem Ucontext.length_bytes (uc : Ucontext) : uc.bytes.length = Ucontext.size := by
  simp [Ucontext.bytes, Ucontext.words, Reg.all, length_wordBytes, Ucontext.size]

/-! ### User memory -/

variable {m m' : UserMem} {a dst : ℕ} {bs : List UInt8}

/-- The bytes at an address. -/
def UserMem.Holds (m : UserMem) (a : ℕ) (bs : List UInt8) : Prop :=
  ∀ i < bs.length, bs[i]? = some (m.byte (a + i))

theorem UserMem.Holds.mono (h : m.Holds a bs)
    (hsame : ∀ i < bs.length, m'.byte (a + i) = m.byte (a + i)) : m'.Holds a bs :=
  fun i hi => by rw [h i hi, hsame i hi]

/-- **`copyout` that succeeds**: the bytes are there, and nothing else has changed. -/
theorem copyout_ok (h : copyout m dst bs = (true, m')) :
    m'.mapped = m.mapped ∧ m'.Holds dst bs ∧
      ∀ a, (a < dst ∨ dst + bs.length ≤ a) → m'.byte a = m.byte a := by
  induction bs generalizing m dst with
  | nil =>
    obtain rfl := (Prod.mk.inj h).2
    exact ⟨rfl, fun i hi => absurd hi (by simp), fun _ _ => rfl⟩
  | cons b bs ih =>
    rw [copyout] at h
    split at h
    next =>
      obtain ⟨hmap, hhold, hrest⟩ := ih h
      refine ⟨hmap, fun i hi => ?_, fun a ha => ?_⟩
      · cases i with
        | zero =>
          rw [hrest _ (.inl (by omega)), Nat.add_zero]
          simp
        | succ i =>
          have hi' := hhold i (by simpa using hi)
          rw [Nat.add_assoc, Nat.add_comm 1] at hi'
          simpa using hi'
      · rw [List.length_cons] at ha
        rw [hrest a (by omega)]
        exact Function.update_of_ne (by omega) _ _
    next => cases (Prod.mk.inj h).1

theorem copyout_of_mapped (h : ∀ i < bs.length, m.mapped (vpn (dst + i)) = true) :
    ∃ m', copyout m dst bs = (true, m') := by
  induction bs generalizing m dst with
  | nil => exact ⟨m, rfl⟩
  | cons b bs ih =>
    have h0 : m.mapped (vpn dst) = true := h 0 (by simp)
    rw [copyout, if_pos h0]
    refine ih fun i hi => ?_
    rw [Nat.add_assoc, Nat.add_comm 1]
    exact h (i + 1) (by simpa using hi)

theorem copyin_eq (hmap : ∀ i < bs.length, m.mapped (vpn (a + i)) = true) (h : m.Holds a bs) :
    copyin m a bs.length = some bs := by
  rw [copyin, if_pos hmap]
  refine congrArg some (List.ext_getElem? fun i => ?_)
  by_cases hi : i < bs.length
  · rw [h i hi]
    simp [hi]
  · simp [Nat.le_of_not_lt hi]

/-! ### Frames -/

attribute [local irreducible] copyin

/-- What the frame at `f` holds: the saved context, and zeros for the other one. -/
structure UserMem.Frame (m : UserMem) (f : ℕ) (uc : Ucontext) : Prop where
  uc : m.Holds (f + ucOff) uc.bytes
  riscv : m.Holds (f + ucRiscvOff) (List.replicate ucontextTSize 0)

variable {uc : Ucontext}

theorem UserMem.Frame.mono {f : ℕ} (h : m.Frame f uc)
    (hsame : ∀ i < rtSigframeSize, m'.byte (f + i) = m.byte (f + i)) : m'.Frame f uc := by
  refine ⟨h.uc.mono fun i hi => ?_, h.riscv.mono fun i hi => ?_⟩
  · rw [uc.length_bytes] at hi
    rw [Nat.add_assoc]
    exact hsame _ (by simp only [Ucontext.size, ucOff, rtSigframeSize] at hi ⊢; omega)
  · rw [List.length_replicate] at hi
    rw [Nat.add_assoc]
    exact hsame _ (by simp only [ucontextTSize, ucRiscvOff, rtSigframeSize] at hi ⊢; omega)

variable {rtf set signo : Word}

theorem toNat_add_off (h : rtf.toNat + n < 2 ^ 64) :
    (rtf + BitVec.ofNat 64 n).toNat = rtf.toNat + n := by
  rw [BitVec.toNat_add, BitVec.toNat_ofNat]
  omega

variable {tf : Trapframe}

/-- **A frame is set up**: nothing outside of it changes. -/
theorem signalFrameSetup_ok (hrtf : rtf.toNat + rtSigframeSize < 2 ^ 64)
    (h : signalFrameSetup set tf rtf signo m = (true, m')) :
    m'.mapped = m.mapped ∧ m'.Frame rtf.toNat ⟨tf, set, signo⟩ ∧
      ∀ a, (a < rtf.toNat ∨ rtf.toNat + rtSigframeSize ≤ a) → m'.byte a = m.byte a := by
  have hlen := Ucontext.length_bytes ⟨tf, set, signo⟩
  simp only [rtSigframeSize] at hrtf
  rw [signalFrameSetup, toNat_add_off (by rw [ucOff]; omega),
    toNat_add_off (by rw [ucRiscvOff]; omega)] at h
  split at h
  · cases (Prod.mk.inj h).1
  rename_i m1 h1
  obtain ⟨hmap1, huc, hrest1⟩ := copyout_ok h1
  obtain ⟨hmap2, hzero, hrest2⟩ := copyout_ok h
  rw [hlen] at hrest1
  rw [List.length_replicate] at hrest2
  simp only [ucOff, ucRiscvOff, Ucontext.size, ucontextTSize, rtSigframeSize] at *
  refine ⟨hmap2.trans hmap1, ⟨huc.mono fun i _ => hrest2 _ (by omega), hzero⟩,
    fun a ha => ?_⟩
  rw [hrest2 a (by omega), hrest1 a (by omega)]

variable {act : Sigaction}

/-- **A frame is set up** if the two parts of it that are written are mapped. -/
theorem setupRtFrame_of_mapped (huc : ∀ i < Ucontext.size,
      m.mapped (vpn ((getSigframe tf + BitVec.ofNat 64 ucOff).toNat + i)) = true)
    (hriscv : ∀ i < ucontextTSize,
      m.mapped (vpn ((getSigframe tf + BitVec.ofNat 64 ucRiscvOff).toNat + i)) = true) :
    ∃ m', setupRtFrame act signo set tf m =
      (some (handlerRegs act signo (getSigframe tf) tf), m') ∧ m'.mapped = m.mapped := by
  obtain ⟨m1, h1⟩ : ∃ m1, copyout m (getSigframe tf + BitVec.ofNat 64 ucOff).toNat
      (Ucontext.bytes ⟨tf, set, signo⟩) = (true, m1) :=
    copyout_of_mapped (by rwa [Ucontext.length_bytes])
  have hmap1 := (copyout_ok h1).1
  obtain ⟨m2, h2⟩ : ∃ m2, copyout m1 (getSigframe tf + BitVec.ofNat 64 ucRiscvOff).toNat
      (List.replicate ucontextTSize 0) = (true, m2) :=
    copyout_of_mapped (by rw [List.length_replicate, hmap1]; exact hriscv)
  refine ⟨m2, ?_, (copyout_ok h2).1.trans hmap1⟩
  simp only [setupRtFrame, signalFrameSetup, h1, h2]

theorem getSigframe_toNat (h : rtSigframeSize ≤ (tf .sp).toNat) :
    (getSigframe tf).toNat = ((tf .sp).toNat - rtSigframeSize) / 16 * 16 := by
  have hmask : ∀ x : Word, x &&& ~~~ 15#64 = (x >>> 4) <<< 4 := by
    intro x
    refine BitVec.eq_of_getLsbD_eq fun i hi => ?_
    have hbits : ∀ i < 64, (~~~ 15#64).getLsbD i = decide (4 ≤ i) := by decide
    rw [BitVec.getLsbD_and, hbits i hi, BitVec.getLsbD_shiftLeft, BitVec.getLsbD_ushiftRight]
    by_cases h4 : 4 ≤ i
    · simp [hi, h4]
    · simp [h4, Nat.lt_of_not_le h4]
  rw [getSigframe, hmask, BitVec.toNat_shiftLeft, BitVec.toNat_ushiftRight, BitVec.toNat_sub,
    BitVec.toNat_ofNat, Nat.shiftLeft_eq, Nat.shiftRight_eq_div_pow]
  simp only [rtSigframeSize] at *
  omega

variable {t : Tcb}

/-- Both contexts of a frame are read, and the second one has no program counter. -/
theorem signalFrameRestore_eq {b b' : List UInt8}
    (h : copyin m (rtf + BitVec.ofNat 64 ucOff).toNat Ucontext.size = some b)
    (h' : copyin m (rtf + BitVec.ofNat 64 ucRiscvOff).toNat ucontextTSize = some b')
    (hpc : wordAt b' (gregsOff / 8) = 0) :
    (signalFrameRestore t rtf m).2 = { t with
      blocked := (Ucontext.read b).sigmask
      trapframe := (Ucontext.read b).tf
      sigProcessing := (Ucontext.read b).sigprocessing } := by
  unfold signalFrameRestore
  rw [h]
  rw [h']
  dsimp only
  rw [if_pos hpc]

/-- **`sigreturn` from a frame.** -/
theorem usertrapSigreturn_frame (h : m.Frame (t.trapframe .sp).toNat uc)
    (hsp : (t.trapframe .sp).toNat + rtSigframeSize < 2 ^ 64)
    (hmap : ∀ i < rtSigframeSize, ucRiscvOff ≤ i →
      m.mapped (vpn ((t.trapframe .sp).toNat + i)) = true) :
    (usertrapSigreturn t m).trapframe = uc.tf ∧ (usertrapSigreturn t m).blocked = uc.sigmask ∧
      (usertrapSigreturn t m).signal = sigDelSetMask t.signal uc.sigprocessing := by
  have hlen := uc.length_bytes
  have huc : copyin m ((t.trapframe .sp).toNat + ucOff) Ucontext.size = some uc.bytes := by
    rw [← hlen]
    refine copyin_eq (fun i hi => ?_) h.uc
    rw [Nat.add_assoc]
    simp only [hlen, Ucontext.size] at hi
    exact hmap _ (by simp only [ucOff, rtSigframeSize]; omega)
      (by simp only [ucOff, ucRiscvOff]; omega)
  have hriscv : copyin m ((t.trapframe .sp).toNat + ucRiscvOff) ucontextTSize =
      some (List.replicate ucontextTSize 0) := by
    have hcopy := copyin_eq (fun i hi => ?_) h.riscv
    · rwa [List.length_replicate] at hcopy
    · rw [List.length_replicate] at hi
      rw [Nat.add_assoc]
      simp only [ucontextTSize] at hi
      exact hmap _ (by simp only [ucRiscvOff, rtSigframeSize]; omega) (Nat.le_add_right _ _)
  have hpc : wordAt (List.replicate ucontextTSize 0) (gregsOff / 8) = 0 := by decide +kernel
  simp only [rtSigframeSize] at hsp
  rw [← toNat_add_off (by rw [ucOff]; omega)] at huc
  rw [← toNat_add_off (by rw [ucRiscvOff]; omega)] at hriscv
  rw [usertrapSigreturn_eq, signalFrameRestore_eq huc hriscv hpc, Ucontext.read_bytes]
  exact ⟨rfl, rfl, rfl⟩

/-! ### Runs -/

/-- A frame with what it saves: the registers and the mask just before the delivery of the
signal. -/
structure Saved where
  frame : Word
  regs : Trapframe
  blocked : Word
  signo : Word

/-- A thread in user memory, with the frames of its handlers, the innermost first. -/
structure Nest where
  tcb : Tcb
  mem : UserMem
  stack : List Saved

/-- What happens to the thread. Between the deliveries and the returns the user runs, and
other parts of the kernel do. -/
inductive Event
  | user (tcb : Tcb) (mem : UserMem)
  | deliver (act : Sigaction) (signo : Word)
  | sigreturn (satp sp trap hartid : Word)

/-- The user keeps to the rules: the stack pointer is not above that of the entry of the
handler, and no frame is modified. -/
def Nest.Keeps (s : Nest) (t : Tcb) (m : UserMem) : Prop :=
  (∀ f ∈ s.stack.head?, (t.trapframe .sp).toNat ≤ f.frame.toNat) ∧
    ∀ f ∈ s.stack, ∀ i < rtSigframeSize, m.byte (f.frame.toNat + i) = s.mem.byte (f.frame.toNat + i)

instance (s : Nest) (t : Tcb) (m : UserMem) : Decidable (s.Keeps t m) :=
  inferInstanceAs (Decidable (_ ∧ _))

/-- The delivery of a signal to a handler, as in `signal_handle`. -/
def Nest.deliver (s : Nest) (act : Sigaction) (signo : Word) : Option Nest :=
  match setupRtFrame act signo s.tcb.blocked s.tcb.trapframe s.mem with
  | (none, _) => none
  | (some tf, mem) => some
    ⟨{ s.tcb with trapframe := tf, sigProcessing := signo }, mem,
      ⟨getSigframe s.tcb.trapframe, s.tcb.trapframe, s.tcb.blocked, signo⟩ :: s.stack⟩

/-- The return from the innermost handler, to the user. -/
def Nest.sigreturn (s : Nest) (satp sp trap hartid : Word) : Option Nest :=
  match s.stack with
  | [] => none
  | f :: rest =>
    if s.tcb.trapframe .sp = f.frame ∧
        ∀ i < rtSigframeSize, ucRiscvOff ≤ i → s.mem.mapped (vpn (f.frame.toNat + i)) = true then
      let t := usertrapSigreturn s.tcb s.mem
      some ⟨{ t with trapframe := usertrapret satp sp trap hartid t.trapframe }, s.mem, rest⟩
    else none

/-- The machine, from any thread that runs no handler. -/
def nestMachine : Machine Nest Event where
  init s := s.stack = []
  step s
    | .user tcb mem => if s.Keeps tcb mem then some { s with tcb, mem } else none
    | .deliver act signo => if validSignal signo then s.deliver act signo else none
    | .sigreturn satp sp trap hartid => s.sigreturn satp sp trap hartid

/-- The frame fits below the stack pointer. -/
def Fitting (s : Nest) : Event → Prop
  | .deliver _ _ => rtSigframeSize ≤ (s.tcb.trapframe .sp).toNat
  | _ => True

/-- A frame in its place: aligned, and below what it has interrupted. -/
structure Saved.Placed (f : Saved) : Prop where
  aligned : f.frame.toNat % 16 = 0
  below : f.frame.toNat + rtSigframeSize ≤ (f.regs .sp).toNat

/-- What a run keeps. -/
structure Nested (s : Nest) : Prop where
  placed : ∀ f ∈ s.stack, f.Placed
  valid : ∀ f ∈ s.stack, validSignal f.signo
  holds : ∀ f ∈ s.stack, s.mem.Frame f.frame.toNat ⟨f.regs, f.blocked, f.signo⟩
  chain : s.stack.Pairwise fun f g => (f.regs .sp).toNat ≤ g.frame.toNat
  sp : ∀ f ∈ s.stack, (s.tcb.trapframe .sp).toNat ≤ f.frame.toNat

variable {s s' : Nest}

theorem Nest.deliver_ok (hs : s.deliver act signo = some s') :
    signalFrameSetup s.tcb.blocked s.tcb.trapframe (getSigframe s.tcb.trapframe) signo s.mem =
        (true, s'.mem) ∧
      s'.tcb.trapframe .sp = getSigframe s.tcb.trapframe ∧
      s'.stack =
        ⟨getSigframe s.tcb.trapframe, s.tcb.trapframe, s.tcb.blocked, signo⟩ :: s.stack := by
  rw [Nest.deliver, setupRtFrame] at hs
  cases hset : signalFrameSetup s.tcb.blocked s.tcb.trapframe (getSigframe s.tcb.trapframe) signo
      s.mem with
  | mk ok m1 =>
    rw [hset] at hs
    obtain _ | _ := ok
    · cases hs
    cases hs
    exact ⟨rfl, rfl, rfl⟩

theorem step_deliver (hs : nestMachine.step s (.deliver act signo) = some s') :
    validSignal signo ∧ s.deliver act signo = some s' :=
  Option.ite_none_right_eq_some.1 hs

theorem Nested.user (h : Nested s) (hk : s.Keeps t m) :
    Nested { s with tcb := t, mem := m } := by
  refine ⟨h.placed, h.valid, fun f hf => (h.holds f hf).mono (hk.2 f hf), h.chain, fun f hf => ?_⟩
  -- the innermost frame is the lowest
  rcases hst : s.stack with _ | ⟨g, rest⟩
  · simp [hst] at hf
  have hg := hk.1 g (by simp [hst])
  rw [hst] at hf
  obtain rfl | hf := List.mem_cons.1 hf
  · exact hg
  have hchain := h.chain
  rw [hst] at hchain
  have hgf := (List.pairwise_cons.1 hchain).1 f hf
  have hplace := (h.placed g (by simp [hst])).below
  dsimp only
  omega

theorem Nested.deliver (h : Nested s) (hsig : validSignal signo)
    (hfit : rtSigframeSize ≤ (s.tcb.trapframe .sp).toNat) (hs : s.deliver act signo = some s') :
    Nested s' := by
  have hframe := getSigframe_toNat hfit
  have hbelow : (getSigframe s.tcb.trapframe).toNat + rtSigframeSize ≤
      (s.tcb.trapframe .sp).toNat := by omega
  obtain ⟨hset, hsp', hst⟩ := Nest.deliver_ok hs
  obtain ⟨-, hnew, hrest⟩ := signalFrameSetup_ok (by omega) hset
  have hmem : ∀ f ∈ s'.stack, f = ⟨getSigframe s.tcb.trapframe, s.tcb.trapframe, s.tcb.blocked,
      signo⟩ ∨ f ∈ s.stack := fun f hf => List.mem_cons.1 (hst ▸ hf)
  refine ⟨fun f hf => ?_, fun f hf => ?_, fun f hf => ?_, hst ▸ List.pairwise_cons.2 ⟨h.sp, h.chain⟩,
    fun f hf => ?_⟩
  · obtain rfl | hf := hmem f hf
    · exact ⟨by dsimp only; omega, hbelow⟩
    · exact h.placed f hf
  · obtain rfl | hf := hmem f hf
    · exact hsig
    · exact h.valid f hf
  · obtain rfl | hf := hmem f hf
    · exact hnew
    · -- an older frame lies above the stack pointer
      refine (h.holds f hf).mono fun i _ => hrest _ (.inr ?_)
      have hsp := h.sp f hf
      omega
  · rw [hsp']
    obtain rfl | hf := hmem f hf
    · exact Nat.le_refl _
    · have hsp := h.sp f hf
      omega

/-- **The return from the innermost handler.** -/
theorem Nested.sigreturn_eq (h : Nested s) {f : Saved} {rest : List Saved}
    (hst : s.stack = f :: rest) (hsp : s.tcb.trapframe .sp = f.frame)
    (hmap : ∀ i < rtSigframeSize, ucRiscvOff ≤ i →
      s.mem.mapped (vpn (f.frame.toNat + i)) = true) (satp sp trap hartid : Word) :
    ∃ s', s.sigreturn satp sp trap hartid = some s' ∧
      s'.tcb.trapframe = usertrapret satp sp trap hartid f.regs ∧
      s'.tcb.blocked = f.blocked ∧ s'.tcb.signal = sigDelSetMask s.tcb.signal f.signo ∧
      s'.mem = s.mem ∧ s'.stack = rest := by
  have hmem : f ∈ s.stack := by simp [hst]
  have hplace := (h.placed f hmem).below
  have hframe := h.holds f hmem
  rw [← hsp] at hframe hplace hmap
  obtain ⟨htf, hblocked, hset⟩ := usertrapSigreturn_frame hframe (by omega) hmap
  rw [Nest.sigreturn, hst]
  dsimp only
  rw [if_pos ⟨hsp, by rwa [hsp] at hmap⟩]
  exact ⟨_, rfl, congrArg (usertrapret satp sp trap hartid) htf, hblocked, hset, rfl, rfl⟩

theorem Nested.sigreturn (h : Nested s) {satp sp trap hartid : Word}
    (hs : s.sigreturn satp sp trap hartid = some s') : Nested s' := by
  rcases hst : s.stack with _ | ⟨f, rest⟩
  · simp [Nest.sigreturn, hst] at hs
  have hcond : s.tcb.trapframe .sp = f.frame ∧
      ∀ i < rtSigframeSize, ucRiscvOff ≤ i →
        s.mem.mapped (vpn (f.frame.toNat + i)) = true := by
    rw [Nest.sigreturn, hst] at hs
    exact (Option.ite_none_right_eq_some.1 hs).1
  obtain ⟨s1, h1, htf, -, -, hm, hrest⟩ :=
    h.sigreturn_eq hst hcond.1 hcond.2 satp sp trap hartid
  obtain rfl := Option.some.inj (h1.symm.trans hs)
  have hsub : ∀ g ∈ s1.stack, g ∈ s.stack := fun g hg => by
    rw [hst]
    exact List.mem_cons_of_mem _ (hrest ▸ hg)
  have hchain := h.chain
  rw [hst] at hchain
  refine ⟨fun g hg => h.placed g (hsub g hg), fun g hg => h.valid g (hsub g hg),
    fun g hg => hm ▸ h.holds g (hsub g hg), hrest ▸ (List.pairwise_cons.1 hchain).2,
    fun g hg => ?_⟩
  rw [htf]
  exact (List.pairwise_cons.1 hchain).1 g (hrest ▸ hg)

/-- **Nested delivery.** In every run in which the frames fit below the stack pointer, the
frames are aligned, disjoint and below what they have interrupted; and the return from the
innermost handler, if its frame is still mapped, restores the registers of the user and the
mask of the matching delivery and clears the bit of its signal and no other. -/
theorem nested_of_reach (h : nestMachine.Reach Fitting s) :
    (∀ f ∈ s.stack, f.Placed) ∧
    (s.stack.Pairwise fun f g => f.frame.toNat + rtSigframeSize ≤ g.frame.toNat) ∧
    ∀ f rest, s.stack = f :: rest → s.tcb.trapframe .sp = f.frame →
      (∀ i < rtSigframeSize, ucRiscvOff ≤ i → s.mem.mapped (vpn (f.frame.toNat + i)) = true) →
      ∀ satp sp trap hartid, ∃ s', nestMachine.step s (.sigreturn satp sp trap hartid) = some s' ∧
        s'.stack = rest ∧ (∀ r : Reg, r.IsUser → s'.tcb.trapframe r = f.regs r) ∧
        s'.tcb.blocked = f.blocked ∧
        ∀ sig, validSignal sig → (sigIsMember s'.tcb.signal sig = true ↔
          sigIsMember s.tcb.signal sig = true ∧ sig ≠ f.signo) := by
  have hi : Nested s := by
    refine h.invariant (fun s hs => ?_) fun s a s' hi hok hs => ?_
    · have hnil : s.stack = [] := hs
      exact ⟨by simp [hnil], by simp [hnil], by simp [hnil], by simp [hnil], by simp [hnil]⟩
    · cases a with
      | user t m =>
        obtain ⟨hk, rfl⟩ := guard_eq_some.1 hs
        exact hi.user hk
      | deliver act signo =>
        obtain ⟨hsig, hs⟩ := step_deliver hs
        exact hi.deliver hsig hok hs
      | sigreturn satp sp trap hartid => exact hi.sigreturn hs
  refine ⟨hi.placed, hi.chain.imp_of_mem fun {f g} hf _ hfg => ?_, ?_⟩
  · have hbelow := (hi.placed f hf).below
    omega
  · intro f rest hst hsp hmap satp sp trap hartid
    obtain ⟨s', hs', htf, hblocked, hset, -, hrest⟩ :=
      hi.sigreturn_eq hst hsp hmap satp sp trap hartid
    have hvalid := hi.valid f (by simp [hst])
    refine ⟨s', hs', hrest, fun r hr => ?_, hblocked, fun sig hsig => ?_⟩
    · rw [htf]
      obtain ⟨h1, h2, h3, h₄⟩ := hr
      cases r <;> first | rfl | exact absurd rfl ‹_›
    · rw [hset, sigIsMember_sigDelSetMask, Bool.and_eq_true, decide_eq_true_eq]
      exact and_congr_right fun _ =>
        not_congr ⟨fun heq => sigBit_inj hsig hvalid heq, fun heq => heq ▸ rfl⟩

/-! ### Runs of a thread -/

/-- A thread whose stack pointer is `sp`, with two pages of memory. -/
def threadAt (sp : Word) : Nest :=
  ⟨⟨fun r => if r = .sp then sp else 0, 0, 0, [], 0, 0, false⟩, .lowest, []⟩

theorem threadAt_mapped (sp : Word) {a : ℕ} (ha : a + n ≤ 2 * PGSIZE) (hi : i < n) :
    (threadAt sp).mem.mapped (vpn (a + i)) = true :=
  decide_eq_true (Nat.div_lt_of_lt_mul (by omega))

/-- A signal is delivered to a thread with these pages. -/
theorem exists_deliver (hm : s.mem.mapped = (threadAt 0).mem.mapped)
    (huc : (getSigframe s.tcb.trapframe + BitVec.ofNat 64 ucOff).toNat + Ucontext.size ≤ 2 * PGSIZE)
    (hriscv : (getSigframe s.tcb.trapframe + BitVec.ofNat 64 ucRiscvOff).toNat + ucontextTSize ≤
      2 * PGSIZE) :
    ∃ s', nestMachine.step s (.deliver ⟨4096, 0, 0⟩ 10) = some s' ∧
      s'.mem.mapped = s.mem.mapped ∧ s'.tcb.trapframe .sp = getSigframe s.tcb.trapframe ∧
      s'.stack = ⟨getSigframe s.tcb.trapframe, s.tcb.trapframe, s.tcb.blocked, 10⟩ :: s.stack := by
  have hvalid : validSignal 10 := by decide
  obtain ⟨m, hset, hmap⟩ : ∃ m, setupRtFrame ⟨4096, 0, 0⟩ 10 s.tcb.blocked s.tcb.trapframe s.mem =
      (some _, m) ∧ _ :=
    setupRtFrame_of_mapped (fun i hi => hm ▸ threadAt_mapped 0 huc hi)
      fun i hi => hm ▸ threadAt_mapped 0 hriscv hi
  simp only [nestMachine, if_pos hvalid, Nest.deliver, hset]
  exact ⟨_, rfl, hmap, rfl, rfl⟩

/-- A handler is entered while another one runs, and returned from. -/
theorem nested_one : ∃ s s' : Nest, ∃ f g, s.stack = [f, g] ∧
    nestMachine.step s (.sigreturn 0 0 0 0) = some s' ∧ s'.stack = [g] ∧
    ∀ r : Reg, r.IsUser → s'.tcb.trapframe r = f.regs r := by
  obtain ⟨s1, hs1, hm1, hsp1, hst1⟩ := exists_deliver (s := threadAt 8192) rfl (by decide) (by decide)
  obtain ⟨s, hs, hm, hsp, hst⟩ := exists_deliver hm1 (by rw [getSigframe, hsp1]; decide)
    (by rw [getSigframe, hsp1]; decide)
  have hreach1 : nestMachine.Reach Fitting s1 :=
    .step (.init (s := threadAt 8192) rfl) (by rw [Fitting]; decide) hs1
  have hreach := hreach1.step (by rw [Fitting, hsp1]; decide) hs
  obtain ⟨-, -, hret⟩ := nested_of_reach hreach
  have hmapped : ∀ i < rtSigframeSize, ucRiscvOff ≤ i →
      s.mem.mapped (vpn ((getSigframe s1.tcb.trapframe).toNat + i)) = true := by
    rw [hm, hm1, getSigframe, hsp1]
    decide +kernel
  obtain ⟨s', hs', hst', hregs, -⟩ := hret _ _ hst hsp hmapped 0 0 0 0
  exact ⟨s, s', _, _, hst.trans (congrArg _ hst1), hs', hst'.trans hst1, hregs⟩

/-- **A frame that is not below the stack pointer**: the address wraps around, and the copies
succeed in the lowest page. -/
theorem frame_wraps : ∃ s, nestMachine.Reach Machine.anyStep s ∧ ∃ f ∈ s.stack,
    (f.regs .sp).toNat = 1376 ∧ f.frame.toNat = 2 ^ 64 - 16 ∧ ¬ f.Placed := by
  obtain ⟨s, hs, -, -, hst⟩ := exists_deliver (s := threadAt 1376) rfl (by decide) (by decide)
  refine ⟨s, .step (.init (s := threadAt 1376) rfl) trivial hs, _, hst ▸ List.mem_cons_self,
    by decide, by decide, fun h => ?_⟩
  exact absurd h.below (by decide)

end XVapor.Signal
