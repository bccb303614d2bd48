import XVapor.PageFault
import XVapor.Residue
import XVapor.SignalNesting
import XVapor.StackCopies
import XVapor.WorkingDirectory

/-!
# What the Calls Tell of Kernel Memory

Five calls give bytes of variables and arrays of the kernel to the user: `execve` the auxiliary
vector on the initial stack, `sigaction` the old action, `sigtimedwait` the information about the
signal, `sysinfo` its structure, and `getcwd` the array of the working directory. Each copies the
whole variable. What has not been assigned is what the memory held before:

* `execve` assigns thirteen of the thirty-three pairs of `aux`;
* `sys_sigaction` copies from `&oldact_addr` instead of `&oldact`, so only the first eight of the
  bytes are of the variable, and the others are what is behind it on the stack;
* `signal_info_init` assigns two of the fields of a `siginfo_t`, and the sender puts the whole of it
  into the queue; if the bit of the signal is set but its entry is not in the queue, `signal_handle`
  assigns nothing;
* `sys_sysinfo` does not assign `loads`, `totalhigh`, `freehigh`, `mem_unit` and the padding;
* `sys_getcwd` copies the array behind the string, which is zero in every run.

A state has both, what the calls are to report and what the memory held. **Two states agree** if
they differ in the latter only: in the stack of the thread, in what the senders of the signals left
in the queue, in the array behind the string of the working directory, and in all pages that are
not mapped for the user.

The frame of a handler, which `signal_handle` may put on the stack of the user, is not part of the
information about the signal. In a call of `sigtimedwait` that sleeps, other threads change the
signals: `woken` is the moment when the sleep is over, if it ever is.

## Main results

* `disclosure_iff`: in every state, **a call stores the same in all states that agree with it if and
  only if its copy does not reach the first byte that is not assigned**. `getcwd` always does.
-/

namespace XVapor.Disclosure

open Files (ProcId)
open Signal
open Vm (Space Table Store Kernel Elfhdr PGSIZE MAX_AT wordBytes intBytes field Reaches storesOf
  StackStart stackStart initialStack auxAt copyoutStores)

/-! ### The variables -/

/-- The pairs of the auxiliary vector that `execve` adds with `ADD_AUXV`. -/
def auxWords (elf : Elfhdr) (proghBase interpBase sp : ℕ) : List ℕ :=
  [6, PGSIZE, 3, elf.phoff + proghBase, 4, elf.phentsize, 5, elf.phnum,
    7, interpBase, 9, elf.entry, 11, 0, 12, 0, 13, 0, 14, 0, 23, 0, 25, sp, 0, 0]

/-- `aux`, an array of `MAX_AT * 2` numbers. -/
def auxBuffer (elf : Elfhdr) (proghBase interpBase sp : ℕ) : Buffer UInt8 :=
  (Buffer.fresh (8 * (MAX_AT * 2))).put 0 ((auxWords elf proghBase interpBase sp).flatMap wordBytes)

/-- The memory from `&oldact_addr` on, as far as a `struct sigaction` is long. -/
def oldactBuffer (oldact : ℕ) : Buffer UInt8 := (Buffer.fresh 32).put 0 (wordBytes oldact)

/-- What the kernel counts. -/
structure Counters where
  uptime : ℕ
  totalram : ℕ
  freeram : ℕ
  procs : ℕ

/-- `info`, a `struct sysinfo`. -/
def sysinfoBuffer (c : Counters) : Buffer UInt8 :=
  (Buffer.fresh 112).puts
    [(0, wordBytes c.uptime),
     (32, wordBytes c.totalram),
     (40, wordBytes c.freeram),
     (48, wordBytes 0),
     (56, wordBytes 0),
     (64, wordBytes 0),
     (72, wordBytes 0),
     (80, (wordBytes c.procs).take 2)]

/-- The values of `opt` for which `signal_info_init` does not panic. -/
inductive SigCode
  | user
  | kernel
  deriving DecidableEq, Repr

/-- `SI_USER` and `SI_KERNEL`. -/
def SigCode.bits : SigCode → BitVec 32
  | .user => 0
  | .kernel => 0x80

/-- `signal_info_init`. -/
def signalInfoInit (sig : Word) (opt : SigCode) (info : Buffer UInt8) : Buffer UInt8 :=
  info.puts [(0, intBytes (sig.setWidth 32)), (4, intBytes opt.bits)]

/-- The size of a `siginfo_t`. -/
def SI_MAX_SIZE : ℕ := 128

/-- An entry of the queue of pending signals: its `info` is a variable of the sender, and `old` is
what the stack of the sender held there. -/
structure Sigqueue where
  sig : Word
  code : SigCode
  old : ℕ → UInt8

/-- What is assigned of the variable `siginfo` of `do_sigtimedwait`: it has been copied from an
entry, or nothing is. -/
def siginfoBuffer : Option Sigqueue → Buffer UInt8
  | some q => signalInfoInit q.sig q.code (.fresh SI_MAX_SIZE)
  | none => .fresh SI_MAX_SIZE

/-- Its content, on a stack that held `stack`. -/
def siginfo (stack : ℕ → UInt8) (q : Option Sigqueue) : List UInt8 :=
  (siginfoBuffer q).over (q.elim stack Sigqueue.old)

/-! ### States -/

/-- The state of a thread and of the kernel at a moment. `list` of the thread is that of the
queue. -/
structure Moment where
  k : Kernel
  acts : Actions
  tcb : Signal.Tcb
  queue : List Sigqueue

def Moment.thread (m : Moment) : Signal.Tcb := { m.tcb with list := m.queue.map Sigqueue.sig }

/-- The memory of the process. -/
def Moment.space (m : Moment) (p : ProcId) : Option Space :=
  (m.k.table p).map fun T => ⟨m.k.mem, T⟩

/-- The state in which the process `p` makes a call, and the moment when the call wakes up if it
sleeps. `path` is `cinfo.path`, and `stack` is what is on the kernel's stack at the place of the
variable that the call copies. -/
structure State where
  p : ProcId
  now : Moment
  woken : Option Moment
  counters : Counters
  path : List UInt8
  stack : ℕ → UInt8

/-- A state of a run: the array of the working directory is one that occurs. -/
def State.Possible (s : State) : Prop := Cwd.IsPath s.path

/-- An entry on a stack that held `old`. -/
def Sigqueue.withOld (old : ℕ → UInt8) (q : Sigqueue) : Sigqueue := { q with old }

/-- What is reported of an entry. -/
def Sigqueue.bare : Sigqueue → Sigqueue := Sigqueue.withOld fun _ => 0

/-- Two moments that agree on what is reported. -/
structure Moment.Agrees (p : ProcId) (m m' : Moment) : Prop where
  kernel : m.k.bare = m'.k.bare
  user : (m.space p).map Space.userMem = (m'.space p).map Space.userMem
  acts : m.acts = m'.acts
  tcb : m.tcb = m'.tcb
  queue : m.queue.map Sigqueue.bare = m'.queue.map Sigqueue.bare

/-- **Two states that agree on what is reported.** -/
structure State.Agrees (s t : State) : Prop where
  p : s.p = t.p
  now : s.now.Agrees s.p t.now
  woken : Option.Rel (Moment.Agrees s.p) s.woken t.woken
  counters : s.counters = t.counters
  cwd : Cwd.cstr s.path = Cwd.cstr t.path

/-! ### The calls -/

/-- The calls, with their arguments. -/
inductive Call
  | execve (path : String) (argv envp : List (List UInt8))
  | sigaction (signum : Word) (act oldact : ℕ)
  | sigtimedwait (set info timeout : ℕ)
  | sysinfo (addr : ℕ)
  | getcwd (addr : ℕ) (size : ℤ)

/-- `sig_first_member`. -/
def sigFirstMember (set : Word) : Word :=
  BitVec.ofNat 64 (((List.range 64).find? fun i => sigIsMember set (BitVec.ofNat 64 (i + 1))).getD 64
    + 1)

/-- The entry that the loop of `signal_handle` copies to `retinfo`: the last that it comes to. -/
def retinfo (acts : Actions) (blocked sig : Word) :
    List Sigqueue → Option Sigqueue → Option Sigqueue
  | [], r => r
  | q :: rest, r =>
    if 0 < sig.toInt ∧ q.sig ≠ sig then retinfo acts blocked sig rest r
    else if sigIsMember blocked q.sig = true ∨ (acts q.sig).handler = SIG_IGN then
      retinfo acts blocked sig rest (some q)
    else if (acts q.sig).handler = SIG_DFL then retinfo acts blocked sig rest (some q)
    else some q

/-- `signal_handle` for one signal, if it succeeds: the entry that is copied to `retinfo`. -/
def Moment.handled (m : Moment) (S : Space) (sig : Word) : Option (Option Sigqueue) :=
  match signalHandle m.acts sig m.thread S.userMem with
  | some (true, _, _) =>
    some (if m.tcb.pendingCnt = 0 then none else retinfo m.acts m.tcb.blocked sig m.queue none)
  | _ => none

/-- `do_sigtimedwait`, if it comes to its end: the memory of the process then, and the entry. -/
def doSigtimedwait (p : ProcId) (set : Word) (now : Moment) (woken : Option Moment) :
    Option (Space × Option Sigqueue) :=
  if set = 0 then none
  else
    let sig := sigFirstMember set
    (if sigIsMember now.tcb.signal sig then some now else woken).bind fun m =>
      if sigIsMember m.tcb.signal sig then
        (m.space p).bind fun S => (m.handled S sig).map fun q => (S, q)
      else none

/-- `sys_sigtimedwait` up to the end of `do_sigtimedwait`, which follows the pointer to the set also
if that is null. -/
def State.waited (s : State) (set timeout : ℕ) : Option (Space × Option Sigqueue) :=
  (s.now.space s.p).bind fun S =>
    if timeout ≠ 0 ∧ copyin S.userMem timeout 16 = none then none
    else if set = 0 then none
    else (copyin S.userMem set 8).bind fun b => doSigtimedwait s.p (wordAt b 0) s.now s.woken

/-- `act` of `sys_sigaction`. -/
def readSigaction (b : List UInt8) : Sigaction :=
  ⟨wordAt b 0, wordAt b 1, BitVec.ofNat 32 (field b 16 4)⟩

/-- Whether `sys_sigaction` comes to the copy of the old action. -/
def Moment.oldactCopied (m : Moment) (S : Space) (signum : Word) (act oldact : ℕ) : Bool :=
  if act ≠ 0 then
    match copyin S.userMem act 32 with
    | none => false
    | some b => (doSigaction m.acts signum (some (readSigaction b))).1 && oldact ≠ 0
  else (doSigaction m.acts signum none).1 && oldact ≠ 0

/-- The copy of `sys_sigtimedwait`. A number of the signal that is negative is an error. -/
def siginfoCopies (info : ℕ) (b : List UInt8) : List (ℕ × List UInt8) :=
  if (BitVec.ofNat 32 (field b 0 4)).toInt < 0 ∨ info = 0 then [] else [(info, b)]

/-- The copies that a call makes, and the space that it makes them in. -/
def Call.copies (s : State) : Call → Option (Space × List (ℕ × List UInt8))
  | .execve path argv envp =>
    match stackStart s.now.k path with
    | .ok (some y) => some (y.S, (initialStack y.S y.sz (y.sz - 63 * PGSIZE)
        (fun sp => (auxBuffer y.elf y.proghBase y.interpBase sp).over s.stack) argv envp).copies)
    | _ => none
  | .sigaction signum act oldact => (s.now.space s.p).map fun S =>
    (S, if s.now.oldactCopied S signum act oldact then [(oldact, (oldactBuffer oldact).over s.stack)]
      else [])
  | .sigtimedwait set info timeout => (s.waited set timeout).map fun x =>
    (x.1, siginfoCopies info (siginfo s.stack x.2))
  | .sysinfo addr => (s.now.space s.p).map fun S =>
    (S, [(addr, (sysinfoBuffer s.counters).over s.stack)])
  | .getcwd addr size => (s.now.space s.p).map fun S => (S, Cwd.sysGetcwd s.path addr size)

/-- **What a call stores in the memory of the user.** -/
def State.stores (s : State) (c : Call) : List Store :=
  (c.copies s).elim [] fun x => storesOf x.1 x.2

/-! ### Where bytes that are not assigned are copied -/

/-- The copy of a variable of which not all is assigned: its space, its address, and the first byte
that is not. -/
def Call.exposed (s : State) : Call → Option (Space × ℕ × ℕ)
  | .execve path argv envp =>
    match stackStart s.now.k path with
    | .ok (some y) => (auxAt y.S y.sz (y.sz - 63 * PGSIZE) (8 * (MAX_AT * 2)) argv envp).map fun x =>
      (y.S, x.2, 208)
    | _ => none
  | .sigaction signum act oldact => (s.now.space s.p).bind fun S =>
    if s.now.oldactCopied S signum act oldact then some (S, oldact, 8) else none
  | .sigtimedwait set info timeout => (s.waited set timeout).bind fun x =>
    if info = 0 then none else some (x.1, info, if x.2.isSome then 8 else 0)
  | .sysinfo addr => (s.now.space s.p).map fun S => (S, addr, 8)
  | .getcwd _ _ => none

/-- The copy does not reach the first byte that is not assigned. -/
def Call.Silent (s : State) (c : Call) : Prop :=
  ∀ S a k, c.exposed s = some (S, a, k) → ¬ Reaches S a k

/-! ### Bytes that are not assigned -/

variable {S S' : Space} {a k i : ℕ} {b : Buffer UInt8} {old old' : ℕ → UInt8}

theorem length_flatMap_wordBytes (ws : List ℕ) : (ws.flatMap wordBytes).length = 8 * ws.length := by
  induction ws with
  | nil => rfl
  | cons w ws ih =>
    rw [List.flatMap_cons, List.length_append, length_wordBytes, ih, List.length_cons]
    omega

theorem length_auxWords (elf : Elfhdr) (proghBase interpBase sp : ℕ) :
    ((auxWords elf proghBase interpBase sp).flatMap wordBytes).length = 208 :=
  length_flatMap_wordBytes _

/-- **The bytes of `aux` that are not assigned.** -/
theorem auxBuffer_stale (elf : Elfhdr) (proghBase interpBase sp : ℕ) :
    (auxBuffer elf proghBase interpBase sp).Stale i ↔ 208 ≤ i ∧ i < 528 := by
  rw [auxBuffer, Buffer.stale_put (by rw [length_auxWords, Buffer.length_fresh]; decide),
    Buffer.stale_fresh, length_auxWords]
  simp only [MAX_AT]
  omega

/-- **The bytes behind `oldact_addr`.** -/
theorem oldactBuffer_stale (oldact : ℕ) : (oldactBuffer oldact).Stale i ↔ 8 ≤ i ∧ i < 32 := by
  rw [oldactBuffer, Buffer.stale_put (by rw [length_wordBytes, Buffer.length_fresh]; decide),
    Buffer.stale_fresh, length_wordBytes]
  omega

/-- **The bytes of a `siginfo_t` that are not assigned**, in an entry and without one. -/
theorem siginfo_stale (q : Option Sigqueue) :
    (siginfoBuffer q).Stale i ↔ (if q.isSome then 8 else 0) ≤ i ∧ i < 128 := by
  obtain _ | q := q
  · rw [siginfoBuffer, Buffer.stale_fresh, SI_MAX_SIZE]
    simp
  rw [siginfoBuffer, signalInfoInit, Buffer.stale_puts (by simp [Vm.intBytes_length, SI_MAX_SIZE]),
    Buffer.stale_fresh, SI_MAX_SIZE]
  simp [Vm.intBytes_length]
  omega

/-- **The bytes of a `struct sysinfo` that are not assigned.** -/
theorem sysinfoBuffer_stale (c : Counters) :
    (sysinfoBuffer c).Stale i ↔ (8 ≤ i ∧ i < 32) ∨ (82 ≤ i ∧ i < 112) := by
  rw [sysinfoBuffer, Buffer.stale_puts (by simp [length_wordBytes]), Buffer.stale_fresh]
  simp [length_wordBytes]
  omega

/-! ### One copy -/

theorem storesOf_single (S : Space) (a : ℕ) (d : List UInt8) :
    storesOf S [(a, d)] = (copyoutStores S a d).2 := List.flatMap_singleton _ _

/-- **A copy of a variable** stores the same for every content that its memory may have held, if and
only if it does not reach the first byte that is not assigned. -/
theorem copyoutStores_over_iff (old : ℕ → UInt8) {P : ℕ → Prop} (hb : ∀ {i}, b.Stale i ↔ P i)
    (hk : P k) (hfirst : ∀ i, P i → k ≤ i) :
    (∀ old', (copyoutStores S a (b.over old')).2 = (copyoutStores S a (b.over old)).2) ↔
      ¬ Reaches S a k := by
  have : Nontrivial UInt8 := ⟨0, 1, by decide⟩
  rw [← Buffer.stale_first_iff (fun i j hji hr => hr.of_le hji) (hb.2 hk)
      fun i hi h => absurd (hfirst i (hb.1 h)) (not_le.2 hi),
    ← Buffer.over_same_iff old]
  refine forall_congr' fun old' => ?_
  rw [Vm.copyoutStores_same_iff (by rw [Buffer.length_over, Buffer.length_over]),
    Buffer.length_over]

/-! ### States that agree -/

variable {s t : State} {p : ProcId} {m m' : Moment} {q : Sigqueue}

/-- A moment in which the stacks of the senders held `old`. -/
def Moment.withOld (old : ℕ → UInt8) (m : Moment) : Moment :=
  { m with queue := m.queue.map (Sigqueue.withOld old) }

/-- A state in which all stacks held `old`. -/
def State.withOld (old : ℕ → UInt8) (s : State) : State :=
  { s with now := s.now.withOld old, woken := s.woken.map (Moment.withOld old), stack := old }

theorem Moment.agrees_withOld (old : ℕ → UInt8) (p : ProcId) (m : Moment) :
    m.Agrees p (m.withOld old) where
  kernel := rfl
  user := rfl
  acts := rfl
  tcb := rfl
  queue := by
    rw [Moment.withOld, List.map_map]
    rfl

theorem State.agrees_withOld (old : ℕ → UInt8) (s : State) : s.Agrees (s.withOld old) where
  p := rfl
  now := s.now.agrees_withOld old s.p
  woken := by
    rw [State.withOld]
    cases s.woken with
    | none => exact .none
    | some m => exact .some (m.agrees_withOld old s.p)
  counters := rfl
  cwd := rfl

theorem Moment.Agrees.space_cases (h : m.Agrees p m') :
    (m.space p = none ∧ m'.space p = none) ∨ ∃ S S', m.space p = some S ∧ m'.space p = some S' ∧
      S.tbl = S'.tbl ∧ S.userMem = S'.userMem := by
  have htable : m.k.table p = m'.k.table p := by
    have hk : m.k.bare.table p = m'.k.bare.table p := by rw [h.kernel]
    exact hk
  have huser := h.user
  rw [Moment.space, Moment.space, htable] at huser ⊢
  rcases hT : m'.k.table p with _ | T
  · exact .inl ⟨rfl, rfl⟩
  rw [hT] at huser
  exact .inr ⟨_, _, rfl, rfl, rfl, Option.some.inj huser⟩

theorem retinfo_map (acts : Actions) (blocked sig : Word) {f : Sigqueue → Sigqueue}
    (hf : ∀ q, (f q).sig = q.sig) (l : List Sigqueue) (r : Option Sigqueue) :
    retinfo acts blocked sig (l.map f) (r.map f) = (retinfo acts blocked sig l r).map f := by
  induction l generalizing r with
  | nil => rfl
  | cons q l ih =>
    rw [List.map_cons, retinfo, retinfo, hf, ← Option.map_some, ih, ih]
    split
    · rfl
    split
    · rfl
    · split <;> rfl

variable {r : Option Sigqueue}

theorem retinfo_spec {acts : Actions} {blocked sig : Word} {l : List Sigqueue}
    (h : retinfo acts blocked sig l r = some q) :
    r = some q ∨ (q ∈ l ∧ (0 < sig.toInt → q.sig = sig)) := by
  induction l generalizing r with
  | nil => exact .inl h
  | cons x l ih =>
    have hrest : ∀ {r}, retinfo acts blocked sig l r = some q →
        r = some q ∨ (q ∈ x :: l ∧ (0 < sig.toInt → q.sig = sig)) := fun hr =>
      (ih hr).imp_right fun hq => ⟨List.mem_cons_of_mem x hq.1, hq.2⟩
    rw [retinfo] at h
    split at h
    · exact hrest h
    rename_i hx
    have hsome : some x = some q → q ∈ x :: l ∧ (0 < sig.toInt → q.sig = sig) := by
      intro heq
      cases heq
      refine ⟨List.mem_cons_self .., fun hsig => ?_⟩
      by_contra hne
      exact hx ⟨hsig, hne⟩
    split at h
    · exact .inr ((hrest h).elim hsome id)
    split at h
    · exact .inr ((hrest h).elim hsome id)
    · exact .inr (hsome h)

theorem sigFirstMember_bounds (set : Word) :
    0 < (sigFirstMember set).toInt ∧ (sigFirstMember set).toNat ≤ 65 := by
  have hle : ((List.range 64).find? fun i => sigIsMember set (BitVec.ofNat 64 (i + 1))).getD 64 ≤
      64 := by
    cases hf : (List.range 64).find? fun i => sigIsMember set (BitVec.ofNat 64 (i + 1)) with
    | none => rfl
    | some i => exact (List.mem_range.1 (List.mem_of_find?_eq_some hf)).le
  rw [sigFirstMember, BitVec.toInt_eq_toNat_cond, BitVec.toNat_ofNat]
  generalize ((List.range 64).find? fun i => sigIsMember set (BitVec.ofNat 64 (i + 1))).getD 64 = n
    at hle ⊢
  rw [Nat.mod_eq_of_lt (by omega), if_pos (by omega)]
  omega

theorem Moment.Agrees.handled (h : m.Agrees p m') (hS : S.userMem = S'.userMem) (sig : Word) :
    (m.handled S sig).map (Option.map Sigqueue.bare) =
      (m'.handled S' sig).map (Option.map Sigqueue.bare) := by
  have hbare : ∀ q : Sigqueue, (Sigqueue.bare q).sig = q.sig := fun _ => rfl
  have hlist : ∀ l : List Sigqueue, l.map Sigqueue.sig = (l.map Sigqueue.bare).map Sigqueue.sig := by
    intro l
    rw [List.map_map]
    rfl
  have hthread : m.thread = m'.thread := by
    rw [Moment.thread, Moment.thread, hlist, hlist m'.queue, h.queue, h.tcb]
  rw [Moment.handled, Moment.handled, hthread, hS, h.acts, h.tcb]
  split
  · split
    · rfl
    refine congrArg some ?_
    rw [← retinfo_map _ _ _ hbare, ← retinfo_map _ _ _ hbare, h.queue]
  · rfl

/-- What is reported of the end of `do_sigtimedwait`. -/
def reported (x : Space × Option Sigqueue) : Table × Option Sigqueue :=
  (x.1.tbl, x.2.map Sigqueue.bare)

theorem doSigtimedwait_agrees {woken woken' : Option Moment} (h : m.Agrees p m')
    (hw : Option.Rel (Moment.Agrees p) woken woken') (set : Word) :
    (doSigtimedwait p set m woken).map reported = (doSigtimedwait p set m' woken').map reported := by
  rw [doSigtimedwait, doSigtimedwait]
  split
  · rfl
  dsimp only
  generalize sigFirstMember set = sig
  -- the moment in which the call goes on
  have hsel : Option.Rel (Moment.Agrees p) (if sigIsMember m.tcb.signal sig then some m else woken)
      (if sigIsMember m'.tcb.signal sig then some m' else woken') := by
    rw [h.tcb]
    split
    · exact .some h
    · exact hw
  generalize (if sigIsMember m.tcb.signal sig then some m else woken) = x at hsel ⊢
  generalize (if sigIsMember m'.tcb.signal sig then some m' else woken') = x' at hsel ⊢
  cases hsel with
  | none => rfl
  | @some n n' hn =>
    simp only [Option.bind_some, hn.tcb]
    split
    next =>
      rcases hn.space_cases with ⟨hS, hS'⟩ | ⟨S, S', hS, hS', htbl, huser⟩
      · rw [hS, hS']
        rfl
      have hrep : ∀ (S : Space) (o : Option (Option Sigqueue)),
          (o.map fun q => (S, q)).map reported =
            (o.map (Option.map Sigqueue.bare)).map fun q => (S.tbl, q) := by
        intro S o
        cases o <;> rfl
      rw [hS, hS', Option.bind_some, Option.bind_some, hrep, hrep, hn.handled huser sig, htbl]
    next => rfl

theorem State.Agrees.waited (h : s.Agrees t) (set timeout : ℕ) :
    (s.waited set timeout).map reported = (t.waited set timeout).map reported := by
  rw [State.waited, State.waited, ← h.p]
  rcases h.now.space_cases with ⟨hS, hS'⟩ | ⟨S, S', hS, hS', -, huser⟩
  · rw [hS, hS']
    rfl
  simp only [hS, hS', Option.bind_some, huser]
  split
  · rfl
  split
  · rfl
  cases copyin S'.userMem set 8 with
  | none => rfl
  | some b => exact doSigtimedwait_agrees h.now h.woken _

theorem siginfoBuffer_eq {r' : Option Sigqueue} (h : r.map Sigqueue.bare = r'.map Sigqueue.bare) :
    siginfoBuffer r = siginfoBuffer r' := by
  have hbare : ∀ r, siginfoBuffer (r.map Sigqueue.bare) = siginfoBuffer r := by
    intro r
    cases r <;> rfl
  rw [← hbare r, h, hbare]

variable {set timeout info : ℕ}

theorem State.Agrees.waited_some (h : s.Agrees t)
    (hw : s.waited set timeout = some (S, r)) : ∃ S' r', t.waited set timeout = some (S', r') ∧
      S.tbl = S'.tbl ∧ r.map Sigqueue.bare = r'.map Sigqueue.bare := by
  have hrep := h.waited set timeout
  rw [hw, Option.map_some] at hrep
  obtain ⟨⟨S', r'⟩, ht, heq⟩ := Option.map_eq_some_iff.1 hrep.symm
  obtain ⟨htbl, hr⟩ := Prod.mk.inj heq
  exact ⟨S', r', ht, htbl.symm, hr.symm⟩

/-- The entries that a call of `sigtimedwait` may find. -/
def State.Queued (s : State) (q : Sigqueue) : Prop :=
  q ∈ s.now.queue ∨ ∃ m ∈ s.woken, q ∈ m.queue

theorem State.waited_entry (h : s.waited set timeout = some (S, some q)) :
    s.Queued q ∧ q.sig.toNat ≤ 65 := by
  rw [State.waited, Option.bind_eq_some_iff] at h
  obtain ⟨S0, -, h⟩ := h
  obtain ⟨-, h⟩ := Option.ite_none_left_eq_some.1 h
  obtain ⟨-, h⟩ := Option.ite_none_left_eq_some.1 h
  obtain ⟨b, -, h⟩ := Option.bind_eq_some_iff.1 h
  rw [doSigtimedwait] at h
  obtain ⟨-, h⟩ := Option.ite_none_left_eq_some.1 h
  obtain ⟨hpos, hle⟩ := sigFirstMember_bounds (wordAt b 0)
  obtain ⟨m, hm, h⟩ := Option.bind_eq_some_iff.1 h
  split at h
  next =>
    obtain ⟨S1, -, h⟩ := Option.bind_eq_some_iff.1 h
    obtain ⟨r, hr, h⟩ := Option.map_eq_some_iff.1 h
    obtain ⟨-, rfl⟩ := Prod.mk.inj h
    have hq : q ∈ m.queue ∧ q.sig.toNat ≤ 65 := by
      rw [Moment.handled] at hr
      split at hr
      next =>
        have hr := Option.some.inj hr
        split at hr
        · cases hr
        rcases retinfo_spec hr with hnone | ⟨hmem, hsig⟩
        · cases hnone
        · exact ⟨hmem, hsig hpos ▸ hle⟩
      next => cases hr
    refine ⟨?_, hq.2⟩
    split at hm
    · exact .inl (Option.some.inj hm ▸ hq.1)
    · exact .inr ⟨m, hm, hq.1⟩
  next => cases h

theorem State.queued_withOld (h : (s.withOld old).Queued q) : q.old = old := by
  have hmap : ∀ {l : List Sigqueue}, q ∈ l.map (Sigqueue.withOld old) → q.old = old := by
    intro l hq
    obtain ⟨q', -, rfl⟩ := List.mem_map.1 hq
    rfl
  rcases h with hq | ⟨m, hm, hq⟩
  · exact hmap hq
  · obtain ⟨m', -, rfl⟩ := Option.map_eq_some_iff.1 hm
    exact hmap hq

/-! ### The number of the signal -/

theorem ofNat_foldr_intBytes (x : BitVec 32) :
    BitVec.ofNat 32 ((intBytes x).foldr (fun c acc => c.toNat + 256 * acc) 0) = x := by
  refine BitVec.eq_of_toNat_eq ?_
  simp only [intBytes, List.range, List.range.loop, List.map_cons, List.map_nil, List.foldr_cons,
    List.foldr_nil, UInt8.toNat_ofNat', BitVec.toNat_ofNat]
  omega

theorem siginfo_signo (stack : ℕ → UInt8) (q : Sigqueue) :
    BitVec.ofNat 32 (field (siginfo stack (some q)) 0 4) = q.sig.setWidth 32 := by
  have hbytes : slice (siginfo stack (some q)) 0 4 = intBytes (q.sig.setWidth 32) := by
    have hlen := Vm.intBytes_length (q.sig.setWidth 32)
    refine List.ext_getElem? fun i => ?_
    rw [slice, List.drop_zero]
    by_cases hi : i < 4
    · rw [List.getElem?_take_of_lt hi]
      simp only [siginfo, siginfoBuffer, signalInfoInit, Buffer.puts, List.foldl_cons, List.foldl_nil]
      rw [Buffer.getElem?_over_put (by simp [hlen, SI_MAX_SIZE]), if_neg (by omega),
        Buffer.getElem?_over_put (Nat.zero_le _), if_pos (by omega), Nat.sub_zero]
    · rw [List.getElem?_eq_none (by simp; omega), List.getElem?_eq_none (by omega)]
  rw [field, hbytes, ofNat_foldr_intBytes]

theorem siginfoCopies_entry (stack : ℕ → UInt8) (info : ℕ) (h : q.sig.toNat ≤ 65) :
    siginfoCopies info (siginfo stack (some q)) =
      if info = 0 then [] else [(info, siginfo stack (some q))] := by
  have hpos : ¬ (q.sig.setWidth 32).toInt < 0 := by
    rw [BitVec.toInt_eq_toNat_cond, BitVec.toNat_setWidth, Nat.mod_eq_of_lt (by omega),
      if_pos (by omega)]
    omega
  rw [siginfoCopies, siginfo_signo]
  simp only [hpos, false_or]

/-- Without an entry the number of the signal is what the stack held. -/
theorem siginfoCopies_none {stack : ℕ → UInt8} (hinfo : info ≠ 0)
    (h : stack 3 = 0) : siginfoCopies info (siginfo stack none) = [(info, siginfo stack none)] := by
  have hbytes : slice (siginfo stack none) 0 4 = [stack 0, stack 1, stack 2, 0] := by
    rw [siginfo, siginfoBuffer, Option.elim_none, Buffer.over_fresh, slice, List.drop_zero,
      ← List.map_take, List.take_range, ← h]
    rfl
  have hpos : ¬ (BitVec.ofNat 32 (field (siginfo stack none) 0 4)).toInt < 0 := by
    have h₀ := (stack 0).toNat_lt
    have h1 := (stack 1).toNat_lt
    have h2 := (stack 2).toNat_lt
    rw [field, hbytes, BitVec.toInt_eq_toNat_cond, BitVec.toNat_ofNat]
    simp only [List.foldr_cons, List.foldr_nil, UInt8.toNat_zero]
    rw [Nat.mod_eq_of_lt (by omega), if_pos (by omega)]
    omega
  rw [siginfoCopies, if_neg (not_or.2 ⟨hpos, hinfo⟩)]

/-! ### A call that depends on what the memory held -/

variable {path : String} {argv envp : List (List UInt8)}

theorem stores_execve {y : StackStart}
    (hy : stackStart s.now.k path = .ok (some y)) : s.stores (.execve path argv envp) =
      storesOf y.S (initialStack y.S y.sz (y.sz - 63 * PGSIZE)
        (fun sp => (auxBuffer y.elf y.proghBase y.interpBase sp).over s.stack) argv envp).copies := by
  simp only [State.stores, Call.copies, hy, Option.elim_some]

/-- Two stacks of the same image, on memory that held something else. -/
theorem execve_same_iff (y : StackStart) (argv envp : List (List UInt8)) (old old' : ℕ → UInt8) :
    storesOf y.S (initialStack y.S y.sz (y.sz - 63 * PGSIZE)
        (fun sp => (auxBuffer y.elf y.proghBase y.interpBase sp).over old') argv envp).copies =
      storesOf y.S (initialStack y.S y.sz (y.sz - 63 * PGSIZE)
        (fun sp => (auxBuffer y.elf y.proghBase y.interpBase sp).over old) argv envp).copies ↔
    ∀ sp a, auxAt y.S y.sz (y.sz - 63 * PGSIZE) (8 * (MAX_AT * 2)) argv envp = some (sp, a) →
      (copyoutStores y.S a ((auxBuffer y.elf y.proghBase y.interpBase sp).over old')).2 =
        (copyoutStores y.S a ((auxBuffer y.elf y.proghBase y.interpBase sp).over old)).2 := by
  have hlen : ∀ (old : ℕ → UInt8) (sp : ℕ),
      ((auxBuffer y.elf y.proghBase y.interpBase sp).over old).length = 8 * (MAX_AT * 2) := by
    intro old sp
    rw [Buffer.length_over, auxBuffer, Buffer.length_put, length_auxWords, Buffer.length_fresh]
    decide
  exact Vm.initialStack_same_iff (hlen old') (hlen old)

theorem stores_sigtimedwait
    (hw : s.waited set timeout = some (S, r)) : s.stores (.sigtimedwait set info timeout) =
      storesOf S (siginfoCopies info (siginfo s.stack r)) := by
  simp only [State.stores, Call.copies, hw, Option.map_some, Option.elim_some]

theorem stores_entry (hw : s.waited set timeout = some (S, some q)) :
    s.stores (.sigtimedwait set info timeout) = if info = 0 then []
      else (copyoutStores S info ((siginfoBuffer (some q)).over q.old)).2 := by
  rw [stores_sigtimedwait hw, siginfoCopies_entry _ _ (State.waited_entry hw).2]
  split
  · rfl
  · exact storesOf_single ..

/-- **The information about a signal** is the same for all contents of the memory only if the copy
does not reach what is not assigned. -/
theorem silent_sigtimedwait (hinfo : info ≠ 0)
    (hw : s.waited set timeout = some (S, r)) (h : ∀ old,
      (s.withOld old).stores (.sigtimedwait set info timeout) =
        s.stores (.sigtimedwait set info timeout)) :
    ¬ Reaches S info (if r.isSome then 8 else 0) := by
  cases r with
  | some q =>
    refine (copyoutStores_over_iff q.old (siginfo_stale (some q)) (by simp) fun _ h => h.1).1
      fun old' => ?_
    obtain ⟨S', r', ht, htbl, hr⟩ := (s.agrees_withOld old').waited_some hw
    obtain _ | q' := r'
    · cases hr
    have hold := h old'
    rw [stores_entry hw, stores_entry ht, if_neg hinfo, if_neg hinfo,
      State.queued_withOld (State.waited_entry ht).1, ← siginfoBuffer_eq hr,
      ← Vm.copyoutStores_tbl htbl] at hold
    exact hold
  | none =>
    intro hreach
    -- two stacks that hold a number that is not negative
    have hstores : ∀ old : ℕ → UInt8, old 3 = 0 →
        (copyoutStores S info (siginfo old none)).2 =
          s.stores (.sigtimedwait set info timeout) := by
      intro old hold
      obtain ⟨S', r', ht, htbl, hr⟩ := (s.agrees_withOld old).waited_some hw
      cases r' with
      | some q' => cases hr
      | none =>
        have hst : (s.withOld old).stack = old := rfl
        rw [← h old, stores_sigtimedwait ht, hst, siginfoCopies_none hinfo hold, storesOf_single,
          Vm.copyoutStores_tbl htbl]
    have hsame := (hstores (fun _ => 0) rfl).trans
      (hstores (fun i => if i = 0 then 1 else 0) rfl).symm
    rw [siginfo, siginfo, Vm.copyoutStores_same_iff (by simp)] at hsame
    have h0 := hsame 0 (by rw [Buffer.length_over, siginfoBuffer, Buffer.length_fresh]; decide) hreach
    rw [Buffer.over_of_stale ((siginfo_stale none).2 (by decide)),
      Buffer.over_of_stale ((siginfo_stale none).2 (by decide))] at h0
    exact absurd (Option.some.inj h0) (by decide)

/-- **A call that stores the same for all contents of the memory** is silent. -/
theorem silent_of_withOld {c : Call} (h : ∀ old, (s.withOld old).stores c = s.stores c) :
    c.Silent s := by
  intro S a k hexp
  cases c with
  | execve path argv envp =>
    rw [Call.exposed] at hexp
    split at hexp
    next y hy =>
      obtain ⟨⟨sp, a'⟩, haux, heq⟩ := Option.map_eq_some_iff.1 hexp
      cases heq
      refine (copyoutStores_over_iff s.stack (auxBuffer_stale y.elf y.proghBase y.interpBase sp)
        (by omega) fun _ h => h.1).1 fun old' => ?_
      have hold := h old'
      rw [stores_execve hy, stores_execve (s := s.withOld old') hy] at hold
      exact (execve_same_iff y argv envp s.stack old').1 hold sp a' haux
    next => cases hexp
  | sigaction signum act oldact =>
    obtain ⟨S0, hS, hexp⟩ := Option.bind_eq_some_iff.1 hexp
    split at hexp
    next hcopied =>
      cases hexp
      refine (copyoutStores_over_iff s.stack (oldactBuffer_stale a) (by omega) fun _ h => h.1).1
        fun old' => ?_
      have hold := h old'
      have hS' : (s.withOld old').now.space (s.withOld old').p = some S := hS
      have hcopied' : (s.withOld old').now.oldactCopied S signum act a = true := hcopied
      simp only [State.stores, Call.copies, hS, hS', hcopied, hcopied', if_true, Option.map_some,
        Option.elim_some, storesOf_single] at hold
      exact hold
    next => cases hexp
  | sigtimedwait set info timeout =>
    obtain ⟨⟨S0, r⟩, hw, hexp⟩ := Option.bind_eq_some_iff.1 hexp
    split at hexp
    · cases hexp
    rename_i hinfo
    cases hexp
    exact silent_sigtimedwait hinfo hw h
  | sysinfo addr =>
    obtain ⟨S0, hS, hexp⟩ := Option.map_eq_some_iff.1 hexp
    cases hexp
    refine (copyoutStores_over_iff s.stack (sysinfoBuffer_stale s.counters) (by omega)
      (by omega)).1 fun old' => ?_
    have hold := h old'
    have hS' : (s.withOld old').now.space (s.withOld old').p = some S := hS
    simp only [State.stores, Call.copies, hS, hS', Option.map_some, Option.elim_some,
      storesOf_single] at hold
    exact hold
  | getcwd addr size => cases hexp

/-! ### A call that does not -/

theorem reaches_tbl (h : S.tbl = S'.tbl) : Reaches S a i ↔ Reaches S' a i := by
  obtain ⟨m, T⟩ := S
  obtain ⟨m', T'⟩ := S'
  obtain rfl : T = T' := h
  exact ⟨Vm.Reaches.mem, Vm.Reaches.mem⟩

theorem copyoutStores_unreached (h : ¬ Reaches S a 0) (d : List UInt8) :
    (copyoutStores S a d).2 = [] := by
  have hpages := (Vm.stores_pages_iff (S := S) (d := d) (P := fun _ => False)).2
    fun i _ hr => h (hr.of_le (Nat.zero_le i))
  exact List.eq_nil_iff_forall_not_mem.2 hpages

theorem stores_execve_none
    (h : ∀ y, stackStart s.now.k path ≠ .ok (some y)) : s.stores (.execve path argv envp) = [] := by
  rw [State.stores, Call.copies]
  split
  next y hy => exact absurd hy (h y)
  next => rfl

theorem stores_of_silent_execve (h : s.Agrees t) (hs : (Call.execve path argv envp).Silent s) :
    t.stores (.execve path argv envp) = s.stores (.execve path argv envp) := by
  by_cases hy : ∃ y, stackStart s.now.k path = .ok (some y)
  · obtain ⟨y, hy⟩ := hy
    obtain ⟨S', hy', hS⟩ := Vm.stackStart_some h.now.kernel hy
    have htbl : S'.tbl = y.S.tbl := by
      have hbare : S'.bare.tbl = y.S.bare.tbl := by rw [hS]
      exact hbare
    rw [stores_execve hy, stores_execve hy', Vm.initialStack_tbl htbl, Vm.storesOf_tbl htbl,
      execve_same_iff y argv envp s.stack t.stack]
    intro sp a haux
    have hexp : (Call.execve path argv envp).exposed s = some (y.S, a, 208) := by
      simp only [Call.exposed, hy, haux, Option.map_some]
    exact (copyoutStores_over_iff _ (auxBuffer_stale ..) (by omega) fun _ h => h.1).2
      (hs y.S a 208 hexp) t.stack
  · have hno : ∀ y, stackStart s.now.k path ≠ .ok (some y) := fun y hyy => hy ⟨y, hyy⟩
    rw [stores_execve_none hno, stores_execve_none]
    intro y hyy
    obtain ⟨S', hyy', -⟩ := Vm.stackStart_some h.now.kernel.symm hyy
    exact hno _ hyy'

theorem stores_of_silent_sigtimedwait (h : s.Agrees t)
    (hs : (Call.sigtimedwait set info timeout).Silent s) :
    t.stores (.sigtimedwait set info timeout) = s.stores (.sigtimedwait set info timeout) := by
  cases hw : s.waited set timeout with
  | none =>
    have ht : t.waited set timeout = none := by
      have hrep := h.waited set timeout
      rw [hw] at hrep
      exact Option.map_eq_none_iff.1 hrep.symm
    simp only [State.stores, Call.copies, hw, ht, Option.map_none]
  | some x =>
    obtain ⟨S, r⟩ := x
    obtain ⟨S', r', ht, htbl, hr⟩ := h.waited_some hw
    have hexp : info ≠ 0 → (Call.sigtimedwait set info timeout).exposed s =
        some (S, info, if r.isSome then 8 else 0) := by
      intro hinfo
      simp only [Call.exposed, hw, Option.bind_some, if_neg hinfo]
    cases r with
    | none =>
      cases r' with
      | some q' => cases hr
      | none =>
        -- nothing is reached, whatever the number of the signal is
        have hnil : ∀ (S' : Space) (b : List UInt8), S.tbl = S'.tbl →
            storesOf S' (siginfoCopies info b) = [] := by
          intro S' b htbl
          rw [siginfoCopies]
          split
          · rfl
          rename_i hno
          have hun := hs S info 0 (hexp fun h0 => hno (.inr h0))
          rw [storesOf_single, copyoutStores_unreached fun hr => hun ((reaches_tbl htbl).2 hr)]
        rw [stores_sigtimedwait hw, stores_sigtimedwait ht, hnil S _ rfl, hnil S' _ htbl]
    | some q =>
      obtain _ | q' := r'
      · cases hr
      rw [stores_entry hw, stores_entry ht, ← siginfoBuffer_eq hr,
        ← Vm.copyoutStores_tbl htbl]
      split
      · rfl
      rename_i hinfo
      exact (copyoutStores_over_iff _ (siginfo_stale (some q)) (by simp) fun _ h => h.1).2
        (hs S info 8 (hexp hinfo)) q'.old

/-- **A call that is silent stores the same in all states that agree.** -/
theorem stores_of_silent {c : Call} (hs : c.Silent s) (hp : s.Possible) (hp' : t.Possible)
    (h : s.Agrees t) : t.stores c = s.stores c := by
  cases c with
  | execve path argv envp => exact stores_of_silent_execve h hs
  | sigaction signum act oldact =>
    rw [State.stores, State.stores, Call.copies, Call.copies, ← h.p]
    rcases h.now.space_cases with ⟨hS, hS'⟩ | ⟨S, S', hS, hS', htbl, huser⟩
    · rw [hS, hS', Option.map_none, Option.map_none]
    have hcopied : t.now.oldactCopied S' signum act oldact =
        s.now.oldactCopied S signum act oldact := by
      rw [Moment.oldactCopied, Moment.oldactCopied, huser, h.now.acts]
    rw [hS, hS', Option.map_some, Option.map_some, Option.elim_some, Option.elim_some, hcopied]
    split
    next hc =>
      rw [storesOf_single, storesOf_single, ← Vm.copyoutStores_tbl htbl]
      refine (copyoutStores_over_iff _ (oldactBuffer_stale _) (by omega) fun _ h => h.1).2
        (hs S oldact 8 ?_) t.stack
      rw [Call.exposed, hS, Option.bind_some, if_pos hc]
    next => rfl
  | sigtimedwait set info timeout => exact stores_of_silent_sigtimedwait h hs
  | sysinfo addr =>
    rw [State.stores, State.stores, Call.copies, Call.copies, ← h.p, ← h.counters]
    rcases h.now.space_cases with ⟨hS, hS'⟩ | ⟨S, S', hS, hS', htbl, -⟩
    · rw [hS, hS', Option.map_none, Option.map_none]
    rw [hS, hS', Option.map_some, Option.map_some, Option.elim_some, Option.elim_some,
      storesOf_single, storesOf_single, ← Vm.copyoutStores_tbl htbl]
    refine (copyoutStores_over_iff _ (sysinfoBuffer_stale _) (by omega) (by omega)).2
      (hs S addr 8 ?_) t.stack
    rw [Call.exposed, hS, Option.map_some]
  | getcwd addr size =>
    have hpath : s.path = t.path := by rw [hp.eq_padded, hp'.eq_padded, h.cwd]
    rw [State.stores, State.stores, Call.copies, Call.copies, ← h.p, ← hpath]
    rcases h.now.space_cases with ⟨hS, hS'⟩ | ⟨S, S', hS, hS', htbl, -⟩
    · rw [hS, hS']
    · rw [hS, hS', Option.map_some, Option.map_some, Option.elim_some, Option.elim_some,
        ← Vm.storesOf_tbl htbl]

/-- **When a call tells nothing of kernel memory.** In every state of a run: a call stores the same
in all states that agree with it, if and only if its copy does not reach the first byte that has not
been assigned. -/
theorem disclosure_iff (hp : s.Possible) (c : Call) :
    (∀ t : State, t.Possible → s.Agrees t → t.stores c = s.stores c) ↔ c.Silent s := by
  constructor
  · intro h
    exact silent_of_withOld fun old => h (s.withOld old) hp (s.agrees_withOld old)
  · intro hs t hp' h
    exact stores_of_silent hs hp hp' h

/-! ### The first process -/

instance (S : Space) (a i : ℕ) : Decidable (Reaches S a i) :=
  inferInstanceAs (Decidable (∀ j ≤ i, _))

instance (s : State) (c : Call) : Decidable (c.Silent s) :=
  match h : c.exposed s with
  | none => .isTrue fun _ _ _ hexp => nomatch h.symm.trans hexp
  | some x => decidable_of_iff (¬ Reaches x.1 x.2.1 x.2.2) ⟨fun hr S a k hexp => by
      obtain rfl := Option.some.inj (h.symm.trans hexp)
      exact hr, fun hs => hs x.1 x.2.1 x.2.2 h⟩

/-- The first process has stored the set of the signal 10 at the address 512, and the signal has
been sent to it. All stacks held zeros. -/
def firstState : State where
  p := Vm.initproc
  now :=
    { k := (Vm.userStore Vm.smallStart Vm.initproc 513 2).toOption.getD Vm.smallStart
      acts := fun _ => Sigaction.default
      tcb := ⟨fun _ => 0, 0, sigGenMask 10, [10], 1, 0, false⟩
      queue := [⟨10, .user, fun _ => 0⟩] }
  woken := none
  counters := ⟨60, 1638400, 1400832, 1⟩
  path := Cwd.padded Cwd.rootPath
  stack := fun _ => 0

theorem firstState_possible : firstState.Possible :=
  ⟨Cwd.Paths.start, ⟨0, by decide⟩, .init rfl, rfl⟩

/-- The whole array of the working directory, and a structure at an address that is not mapped. -/
theorem firstState_silent : firstState.Possible ∧ ∀ c ∈ [Call.getcwd 64 256, .sysinfo (2 ^ 30)],
    ∀ t : State, t.Possible → firstState.Agrees t → t.stores c = firstState.stores c := by
  have hsilent : ∀ c ∈ [Call.getcwd 64 256, .sysinfo (2 ^ 30)], c.Silent firstState := by
    decide +kernel
  exact ⟨firstState_possible, fun c hc => (disclosure_iff firstState_possible c).2 (hsilent c hc)⟩

/-- **Four of the calls tell what the kernel's memory held.** -/
theorem disclosure : firstState.Possible ∧
    ∀ c ∈ [Call.execve "/a" [] [], .sigaction 10 0 64, .sigtimedwait 512 1024 0, .sysinfo 64],
      ∃ t : State, t.Possible ∧ firstState.Agrees t ∧ t.stores c ≠ firstState.stores c := by
  have hloud : ∀ c ∈ [Call.execve "/a" [] [], .sigaction 10 0 64, .sigtimedwait 512 1024 0,
      .sysinfo 64], ¬ c.Silent firstState := by decide +kernel
  refine ⟨firstState_possible, fun c hc => ?_⟩
  by_contra hall
  refine hloud c hc (silent_of_withOld fun old => ?_)
  by_contra hne
  exact hall ⟨firstState.withOld old, firstState_possible, firstState.agrees_withOld old, hne⟩

end XVapor.Disclosure
