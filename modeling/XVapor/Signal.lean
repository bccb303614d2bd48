import XVapor.Execve

/-!
# Signals

Signals of a thread (`ipc/signal.c`, `ipc/syssig.c`, `include/signal.h`): sending, the pending
set with its list and its count, the delivery to a handler through a frame on the stack of the
user, the return from it, and the calls that set masks and actions.

A signal number is a `sig_t`, that is, an unsigned number of 64 bits; an `int` is extended to
it. User memory is a partial function from addresses to bytes: `walkaddr` knows a page below
`MAXVA` or not, and no two addresses share a byte. What is copied to a frame is a number of
words of eight bytes, so `struct ucontext` is a list of words. The macro
`sig_del_set_mask(set, mask)` is `set.sig &= (~mask)`, without parentheses around `mask`:
for the mask of two signals it is another operation than for that of one, and it has a
definition of its own here.
-/

namespace XVapor.Signal

open Function
open Vm (PGSIZE MAXVA vpn wordBytes field)

/-- A word of a register or of a signal set. -/
abbrev Word := BitVec 64

/-! ### Signal sets -/

def SIGIOT : Word := 6
def SIGKILL : Word := 9
def SIGTERM : Word := 15
def SIGCHLD : Word := 17
def SIGSTOP : Word := 19

/-- `valid_signal`. -/
def validSignal (sig : Word) : Prop := 1 ≤ sig.toNat ∧ sig.toNat ≤ 64

instance (sig : Word) : Decidable (validSignal sig) :=
  inferInstanceAs (Decidable (_ ∧ _))

/-- The bit of a signal. The hardware takes the distance of a shift modulo 64. -/
def sigBit (sig : Word) : ℕ := (sig - 1).toNat % 64

/-- `sig_gen_mask`. -/
def sigGenMask (sig : Word) : Word := BitVec.twoPow 64 (sigBit sig)

/-- `sig_is_member`. -/
def sigIsMember (set sig : Word) : Bool := set.getLsbD (sigBit sig)

/-- `sig_add_set`. -/
def sigAddSet (set sig : Word) : Word := set ||| sigGenMask sig

/-- `sig_del_set_mask` of the mask of one signal. -/
def sigDelSetMask (set sig : Word) : Word := set &&& ~~~ sigGenMask sig

/-- `sig_del_set_mask` of `sig_gen_mask(SIGKILL) | sig_gen_mask(SIGSTOP)`: only the first of
the two masks is complemented. -/
def sigDelSetMaskKillStop (set : Word) : Word :=
  set &&& (~~~ sigGenMask SIGKILL ||| sigGenMask SIGSTOP)

theorem sigBit_lt (sig : Word) : sigBit sig < 64 := Nat.mod_lt _ (by decide)

theorem sigBit_eq {sig : Word} (h : validSignal sig) : sigBit sig = sig.toNat - 1 := by
  have h1 := h.1
  have h2 := h.2
  have hle : (1#64 : Word) ≤ sig := BitVec.le_def.2 (by simpa using h1)
  change (sig - 1#64).toNat % 64 = _
  rw [BitVec.toNat_sub_of_le hle]
  simp only [BitVec.toNat_ofNat]
  omega

theorem sigBit_inj {sig sig' : Word} (h : validSignal sig) (h' : validSignal sig')
    (heq : sigBit sig = sigBit sig') : sig = sig' := by
  rw [sigBit_eq h, sigBit_eq h'] at heq
  have h1 := h.1
  have h2 := h'.1
  exact BitVec.eq_of_toNat_eq (by omega)

theorem sigGenMask_getLsbD (sig : Word) (i : ℕ) :
    (sigGenMask sig).getLsbD i = decide (i = sigBit sig) := by
  have hlt := sigBit_lt sig
  rw [sigGenMask, BitVec.getLsbD_twoPow, decide_eq_true hlt, Bool.true_and]
  exact decide_eq_decide.2 eq_comm

@[simp]
theorem sigIsMember_zero (sig : Word) : sigIsMember 0#64 sig = false := BitVec.getLsbD_zero

theorem sigIsMember_sigAddSet (set sig sig' : Word) :
    sigIsMember (sigAddSet set sig) sig' =
      (sigIsMember set sig' || decide (sigBit sig' = sigBit sig)) := by
  rw [sigIsMember, sigAddSet, BitVec.getLsbD_or, sigGenMask_getLsbD, sigIsMember]

theorem sigIsMember_sigDelSetMask (set sig sig' : Word) :
    sigIsMember (sigDelSetMask set sig) sig' =
      (sigIsMember set sig' && decide (sigBit sig' ≠ sigBit sig)) := by
  rw [sigIsMember, sigDelSetMask, BitVec.getLsbD_and, BitVec.getLsbD_not, sigGenMask_getLsbD,
    decide_eq_true (sigBit_lt sig'), Bool.true_and, sigIsMember, decide_not]

/-! ### Registers and user memory -/

/-- The fields of `struct trapframe`, in order. -/
inductive Reg
  | kernelSatp | kernelSp | kernelTrap | epc | kernelHartid
  | ra | sp | gp | tp | t0 | t1 | t2 | s0 | s1
  | a0 | a1 | a2 | a3 | a4 | a5 | a6 | a7
  | s2 | s3 | s4 | s5 | s6 | s7 | s8 | s9 | s10 | s11
  | t3 | t4 | t5 | t6
  deriving DecidableEq, Repr

/-- All of them. -/
def Reg.all : List Reg :=
  [.kernelSatp, .kernelSp, .kernelTrap, .epc, .kernelHartid,
    .ra, .sp, .gp, .tp, .t0, .t1, .t2, .s0, .s1,
    .a0, .a1, .a2, .a3, .a4, .a5, .a6, .a7,
    .s2, .s3, .s4, .s5, .s6, .s7, .s8, .s9, .s10, .s11, .t3, .t4, .t5, .t6]

/-- A register of the user; `epc` is the program counter. -/
def Reg.IsUser (r : Reg) : Prop :=
  r ≠ .kernelSatp ∧ r ≠ .kernelSp ∧ r ≠ .kernelTrap ∧ r ≠ .kernelHartid

/-- A `struct trapframe`. -/
abbrev Trapframe := Reg → Word

/-- User memory: the bytes, and the pages that `walkaddr` finds. -/
structure UserMem where
  byte : ℕ → UInt8
  mapped : ℕ → Bool
  bound : ∀ v, mapped v = true → v < vpn MAXVA

theorem lt_of_lowest (v : ℕ) (hv : decide (v < 2) = true) : v < vpn MAXVA :=
  (of_decide_eq_true hv).trans (by decide)

/-- The two lowest pages are mapped. -/
def UserMem.lowest : UserMem := ⟨fun _ => 0, fun v => v < 2, lt_of_lowest⟩

/-- `copyout`: it writes up to the first page that is not mapped. -/
def copyout (m : UserMem) (dst : ℕ) : List UInt8 → Bool × UserMem
  | [] => (true, m)
  | b :: bs =>
    if m.mapped (vpn dst) then
      copyout { m with byte := update m.byte dst b } (dst + 1) bs
    else (false, m)

/-- `copyin`. -/
def copyin (m : UserMem) (src n : ℕ) : Option (List UInt8) :=
  if ∀ i < n, m.mapped (vpn (src + i)) = true then
    some ((List.range n).map fun i => m.byte (src + i))
  else none

/-! ### Signal frames -/

/-- `struct ucontext`. -/
structure Ucontext where
  tf : Trapframe
  sigmask : Word
  sigprocessing : Word

def Ucontext.words (uc : Ucontext) : List Word :=
  Reg.all.map uc.tf ++ [uc.sigmask, uc.sigprocessing]

def Ucontext.bytes (uc : Ucontext) : List UInt8 :=
  uc.words.flatMap fun w => wordBytes w.toNat

def Ucontext.size : ℕ := 304

/-- The word with the number `i` of some bytes. -/
def wordAt (b : List UInt8) (i : ℕ) : Word := BitVec.ofNat 64 (field b (8 * i) 8)

def Ucontext.read (b : List UInt8) : Ucontext :=
  ⟨fun r => wordAt b (Reg.all.idxOf r), wordAt b 36, wordAt b 37⟩

/-- The offsets of `uc_riscv` and `uc` in a `struct rt_sigframe`, and its size. -/
def ucRiscvOff : ℕ := 128
def ucOff : ℕ := 1088
def rtSigframeSize : ℕ := 1392

/-- The size of a `ucontext_t`, and the offset of `uc_mcontext.__gregs[0]` in it. -/
def ucontextTSize : ℕ := 960
def gregsOff : ℕ := 176

/-- A `struct sigaction`; the restorer is not read. -/
structure Sigaction where
  handler : Word
  mask : Word
  flags : BitVec 32
  deriving DecidableEq, Repr

def SIG_DFL : Word := 0
def SIG_IGN : Word := 1
def SA_SIGINFO : BitVec 32 := 4

/-- The page of a `struct sighand` comes from `kalloc` and is zero. -/
def Sigaction.default : Sigaction := ⟨SIG_DFL, 0, 0⟩

/-- `SIGRETURN`, as an address. -/
def SIGRETURN : Word := BitVec.ofNat 64 Vm.SIGRETURN

/-- `get_sigframe`. -/
def getSigframe (tf : Trapframe) : Word := (tf .sp - BitVec.ofNat 64 rtSigframeSize) &&& ~~~ 15#64

/-- `signal_frame_setup`. -/
def signalFrameSetup (set : Word) (tf : Trapframe) (rtf : Word) (signo : Word) (m : UserMem) :
    Bool × UserMem :=
  match copyout m (rtf + BitVec.ofNat 64 ucOff).toNat (Ucontext.bytes ⟨tf, set, signo⟩) with
  | (false, m) => (false, m)
  | (true, m) =>
    copyout m (rtf + BitVec.ofNat 64 ucRiscvOff).toNat (List.replicate ucontextTSize 0)

/-- The registers with which a handler is entered. -/
def handlerRegs (act : Sigaction) (signo frame : Word) (tf : Trapframe) : Trapframe
  | .ra => SIGRETURN
  | .sp => frame
  | .epc => act.handler
  | .a0 => signo
  | .a1 => if act.flags &&& SA_SIGINFO ≠ 0 then frame else 0
  | .a2 => if act.flags &&& SA_SIGINFO ≠ 0 then frame + BitVec.ofNat 64 ucOff else 0
  | r => tf r

/-- `setup_rt_frame`. -/
def setupRtFrame (act : Sigaction) (signo set : Word) (tf : Trapframe) (m : UserMem) :
    Option Trapframe × UserMem :=
  let frame := getSigframe tf
  match signalFrameSetup set tf frame signo m with
  | (false, m) => (none, m)
  | (true, m) => (some (handlerRegs act signo frame tf), m)

/-! ### Threads -/

/-- The fields of a `struct tcb` that the signals use. `signal` and `list` are those of
`sig_pending`. -/
structure Tcb where
  trapframe : Trapframe
  blocked : Word
  signal : Word
  list : List Word
  pendingCnt : ℤ
  sigProcessing : Word
  killed : Bool

/-- The actions of a `struct sighand`. -/
abbrev Actions := Word → Sigaction

/-- `signal_send`. `page` says whether `kalloc` finds a page. -/
def signalSend (t : Tcb) (sig : Word) (page : Bool) : Bool × Tcb :=
  if ¬ validSignal sig then (false, t)
  else if sigIsMember t.signal sig then (false, t)
  else
    let t := { t with killed := t.killed || sig = SIGKILL || sig = SIGSTOP || sig = SIGTERM }
    if page = false then (false, t)
    else (true, { t with
      list := t.list ++ [sig], signal := sigAddSet t.signal sig, pendingCnt := t.pendingCnt + 1 })

/-- `signal_default`. -/
def signalDefault (t : Tcb) (sig : Word) : Tcb :=
  if sig = SIGKILL ∨ sig = SIGIOT then { t with killed := true } else t

/-- The loop of `signal_handle` over the list; `kept` are the signals before that stay on it.
A signal that is not valid panics. -/
def handleLoop (acts : Actions) (sig : Word) :
    List Word → List Word → Tcb → UserMem → Option (Bool × Tcb × UserMem)
  | kept, [], t, m => some (true, { t with list := kept }, m)
  | kept, s :: rest, t, m =>
    if 0 < sig.toInt ∧ s ≠ sig then handleLoop acts sig (kept ++ [s]) rest t m
    else if ¬ validSignal s then none
    else if sigIsMember t.blocked s = true ∨ (acts s).handler = SIG_IGN then
      handleLoop acts sig (kept ++ [s]) rest t m
    else if (acts s).handler = SIG_DFL then
      handleLoop acts sig kept rest
        { signalDefault t s with pendingCnt := t.pendingCnt - 1 } m
    else
      match setupRtFrame (acts s) s t.blocked t.trapframe m with
      | (none, m) => some (false, { t with list := kept ++ s :: rest }, m)
      | (some tf, m) => some (true, { t with
          trapframe := tf, pendingCnt := t.pendingCnt - 1, sigProcessing := s,
          list := kept ++ rest }, m)

/-- `signal_handle`, for the signal `sig` or, if that is not positive, for all. -/
def signalHandle (acts : Actions) (sig : Word) (t : Tcb) (m : UserMem) :
    Option (Bool × Tcb × UserMem) :=
  if t.pendingCnt = 0 then some (true, t, m) else handleLoop acts sig [] t.list t m

/-- `signal_frame_restore`. If only the second copy fails, the first has had its effect. -/
def signalFrameRestore (t : Tcb) (rtf : Word) (m : UserMem) : Bool × Tcb :=
  match copyin m (rtf + BitVec.ofNat 64 ucOff).toNat Ucontext.size with
  | none => (false, t)
  | some b =>
    let uc := Ucontext.read b
    let t := { t with blocked := uc.sigmask, trapframe := uc.tf, sigProcessing := uc.sigprocessing }
    match copyin m (rtf + BitVec.ofNat 64 ucRiscvOff).toNat ucontextTSize with
    | none => (false, t)
    | some b =>
      let pc := wordAt b (gregsOff / 8)
      (true, if pc = 0 then t else { t with trapframe := update t.trapframe .epc pc })

/-- The signal of the handler that has returned is no longer pending. -/
def Tcb.doneProcessing (t : Tcb) : Tcb :=
  { t with signal := sigDelSetMask t.signal t.sigProcessing }

/-- `sys_sigreturn`, with the value that it returns. -/
def sysSigreturn (t : Tcb) (m : UserMem) : Word × Tcb :=
  let t := (signalFrameRestore t (t.trapframe .sp) m).2.doneProcessing
  (t.trapframe .a0, t)

/-- `usertrap` of the system call `sigreturn`: `syscall` stores the value in `a0`. -/
def usertrapSigreturn (t : Tcb) (m : UserMem) : Tcb :=
  let tf := update t.trapframe .epc (t.trapframe .epc + 4)
  let (a0, t) := sysSigreturn { t with trapframe := tf } m
  { t with trapframe := update t.trapframe .a0 a0 }

/-- The value that `syscall` stores is already there, and the program counter is replaced. -/
theorem usertrapSigreturn_eq (t : Tcb) (m : UserMem) :
    usertrapSigreturn t m = (signalFrameRestore
      { t with trapframe := update t.trapframe .epc (t.trapframe .epc + 4) }
      (t.trapframe .sp) m).2.doneProcessing := by
  have hsp : update t.trapframe .epc (t.trapframe .epc + 4) .sp = t.trapframe .sp :=
    update_of_ne (by nofun) _ _
  simp only [usertrapSigreturn, sysSigreturn, update_eq_self, hsp]

/-- `usertrapret`, for the trap frame: the values of the kernel that the next trap needs. -/
def usertrapret (satp sp trap hartid : Word) (tf : Trapframe) : Trapframe
  | .kernelSatp => satp
  | .kernelSp => sp
  | .kernelTrap => trap
  | .kernelHartid => hartid
  | r => tf r

/-- `signal_queue_flush`. -/
def signalQueueFlush (t : Tcb) : Tcb := { t with signal := 0, list := [] }

/-- `free_thread`, for the signals. -/
def freeThread (t : Tcb) : Tcb :=
  signalQueueFlush { t with killed := false, pendingCnt := 0, sigProcessing := 0 }

/-- `alloc_thread`, for the signals, with `sigpending_init`. -/
def allocThread (t : Tcb) : Tcb := { t with blocked := 0, signal := 0, list := [], killed := false }

/-! ### Masks and actions -/

/-- `do_sigaction` on the actions of the thread. It does not look whether the signal is
`SIGKILL` or `SIGSTOP`. -/
def doSigaction (acts : Actions) (signum : Word) (act : Option Sigaction) : Bool × Actions :=
  if ¬ validSignal signum then (false, acts)
  else match act with
    | none => (true, acts)
    | some act =>
      (true, update acts signum { act with mask := sigDelSetMaskKillStop act.mask })

/-- The values of `how`. -/
inductive How
  | block
  | unblock
  | setmask
  | invalid
  deriving DecidableEq, Repr

/-- `do_sigprocmask` on the mask of the thread. -/
def doSigprocmask (blocked : Word) (how : How) (set : Option Word) : Bool × Word :=
  match set with
  | none => (true, sigDelSetMaskKillStop blocked)
  | some set =>
    match how with
    | .block => (true, sigDelSetMaskKillStop (blocked ||| set))
    | .unblock => (true, sigDelSetMaskKillStop (blocked &&& ~~~ set))
    | .setmask => (true, sigDelSetMaskKillStop set)
    | .invalid => (false, blocked)

end XVapor.Signal
