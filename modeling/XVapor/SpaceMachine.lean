import XVapor.ExecveSpec

/-!
# The Machine of Address Spaces

The calls of `AddressSpace` and `Execve` made one after the other by the threads of the
processes, from the state that `userinit` leaves. A call that panics has no next state.

`Careful` is the guard under which **the invariant of the address spaces holds along every
run**: the lengths of mappings are not negative and stay below the watermark, no mapping over
a trap frame is unmapped, `do_clone` cannot fail halfway and does not share a page table, and
the leader of several threads does not call `exit_group`.
-/

namespace XVapor.Vm

open Files (NPROC ProcId ProcState)

/-! ### Calls -/

def MAP_ANONYMOUS : BitVec 32 := 0x20
def KSTACK_PAGE : ℕ := 64
def NTHREADS_PER_PROC : ℕ := 4
def NTHREADS : ℕ := NPROC * NTHREADS_PER_PROC
def BRKTOP : ℕ := TRAMPOLINE - (NTHREADS + 1 + 1) * (KSTACK_PAGE + 1) * PGSIZE

/-- A call of a user program. That of `mmap` has the file of its descriptor, if any, and
whether there is memory for a `vma_struct`; that of `wait` the child it has found, and the
status of that child. -/
inductive Call
  | mmap (length prot flags : BitVec 32) (fp : Option ℕ) (page : Bool)
  | munmap (addr : ℕ) (len : BitVec 32)
  | sbrk (n : BitVec 32)
  | brk (addr : ℕ)
  | load (va : ℕ)
  | store (va : ℕ) (b : UInt8)
  | clone (c : CloneArgs)
  | execve (path : String) (argv envp : List (List UInt8))
  | exit
  | exitGroup
  | wait (q : ProcId) (addr : ℕ) (status : BitVec 32)
  deriving DecidableEq

/-- A call by the thread `t` of the process `p`. -/
structure Act where
  p : ProcId
  t : Tcb
  call : Call
  deriving DecidableEq

/-- `sys_brk`. The difference is passed as an `int`. -/
def sysBrk (k : Kernel) (p : ProcId) (addr : ℕ) : Except Panic (Bool × Kernel) :=
  if MAXVA ≤ addr ∨ BRKTOP ≤ addr then .ok (false, k)
  else if addr = 0 then .ok (true, k)
  else if (k.proc p).sz < addr then
    growproc k p (Int.bmod (addr - (k.proc p).sz) (2 ^ 32))
  else .ok (true, k)

/-- The kernel after the call. -/
def perform (k : Kernel) (a : Act) : Except Panic Kernel :=
  match a.call with
  | .mmap length prot flags fp page => .ok (doMmap k a.p length.toInt prot flags fp page).2
  | .munmap addr len => (doMunmap k a.p addr len.toInt).map Prod.snd
  | .sbrk n => (growproc k a.p n.toInt).map Prod.snd
  | .brk addr => (sysBrk k a.p addr).map Prod.snd
  | .load va => (userLoad k a.p va).map Prod.snd
  | .store va b => userStore k a.p va b
  | .clone c => (doClone k a.p c).map Prod.snd
  | .execve path argv envp => (execve k a.p a.t path argv envp).map Prod.snd
  | .exit => threadExit k a.p a.t
  | .exitGroup => exitGroup k a.p a.t
  | .wait q addr status => (reap k a.p q addr status).map Prod.snd

/-- What the call takes from the rest of the kernel is there: an unused process for
`do_clone`, a zombie child for `wait`, and a file unless the mapping is anonymous. -/
def Call.supplied (k : Kernel) (p : ProcId) : Call → Bool
  | .mmap _ _ flags fp _ => fp.isNone == (flags &&& MAP_ANONYMOUS != 0)
  | .clone c => c.np.all fun np => (k.proc np).state = .unused
  | .wait q _ _ => (k.proc q).state = .zombie ∧ (k.proc q).parent = some p
  | _ => true

/-- The thread can make the call. -/
def Act.enabled (k : Kernel) (a : Act) : Bool :=
  (k.proc a.p).state = .used ∧ a.t ∈ (k.proc a.p).threads ∧ a.call.supplied k a.p = true

/-- **The machine**: `userinit`, and then any calls of the threads there are. -/
def spaceMachine : Machine Kernel Act where
  init k := ∃ k0, Boot k0 ∧ userinit k0 = .ok k
  step k a := if a.enabled k then (perform k a).toOption else none

variable {k k' : Kernel} {a : Act} {p q : ProcId}

theorem mem_spaceMachine_step :
    spaceMachine.step k a = some k' ↔ a.enabled k = true ∧ perform k a = .ok k' := by
  simp only [spaceMachine]
  cases perform k a with
  | ok k1 | error e => cases a.enabled k <;> simp [Except.toOption]

theorem Act.enabled_iff : a.enabled k = true ↔
    (k.proc a.p).state = .used ∧ a.t ∈ (k.proc a.p).threads ∧ a.call.supplied k a.p = true := by
  simp [Act.enabled]

/-! ### Careful runs -/

/-- The guard. -/
def Careful (k : Kernel) (a : Act) : Prop :=
  match a.call with
  | .mmap length _ _ _ _ => 0 ≤ length.toInt ∧ length.toInt ≤ (k.proc a.p).maxVma
  | .munmap addr len => ∀ r ∈ findVma addr (k.proc a.p).vmas,
      0 ≤ len.toInt ∧ ∀ t ∈ (k.proc a.p).threads, ¬ r.2.1.Holds (slot t.tidx)
  | .clone c => CarefulClone k a.p c
  | .exitGroup => (k.proc a.p).leader = some a.t.tidx → (k.proc a.p).threads.length = 1
  | _ => True

instance (w : Vma) (v : ℕ) : Decidable (w.Holds v) := inferInstanceAs (Decidable (_ ∧ _))

instance (k : Kernel) (p : ProcId) (c : CloneArgs) : Decidable (CarefulClone k p c) :=
  inferInstanceAs (Decidable (if c.thread then _ else _))

instance : ∀ (k : Kernel) (a : Act), Decidable (Careful k a)
  | _, ⟨_, _, .mmap _ _ _ _ _⟩ => inferInstanceAs (Decidable (_ ∧ _))
  | k, ⟨p, _, .munmap addr _⟩ =>
    inferInstanceAs (Decidable (∀ r ∈ findVma addr (k.proc p).vmas, _))
  | k, ⟨p, _, .clone c⟩ => inferInstanceAs (Decidable (CarefulClone k p c))
  | _, ⟨_, _, .exitGroup⟩ => inferInstanceAs (Decidable (_ → _))
  | _, ⟨_, _, .sbrk _⟩ => .isTrue trivial
  | _, ⟨_, _, .brk _⟩ => .isTrue trivial
  | _, ⟨_, _, .load _⟩ => .isTrue trivial
  | _, ⟨_, _, .store _ _⟩ => .isTrue trivial
  | _, ⟨_, _, .execve _ _ _⟩ => .isTrue trivial
  | _, ⟨_, _, .exit⟩ => .isTrue trivial
  | _, ⟨_, _, .wait _ _ _⟩ => .isTrue trivial

/-- What a careful call does to the process it changes. -/
inductive Change (k : Kernel) (a : Act) (k' : Kernel) : ProcId → Prop
  | retains : Retains a.p k k' → Change k a k' a.p
  | gone {q : ProcId} : (k'.proc q).state ≠ .used → Change k a k' q
  | mmap {length prot flags : BitVec 32} {fp : Option ℕ} {page : Bool} :
      a.call = .mmap length prot flags fp page →
      (doMmap k a.p length.toInt prot flags fp page).2 = k' →
      (k'.proc a.p).threads = (k.proc a.p).threads → Change k a k' a.p
  | munmap {addr : ℕ} {len : BitVec 32} {b : Bool} : a.call = .munmap addr len →
      doMunmap k a.p addr len.toInt = .ok (b, k') →
      (k'.proc a.p).threads = (k.proc a.p).threads → Change k a k' a.p
  | thread {c : CloneArgs} : a.call = .clone c → c.thread = true → k'.maps a.p = k.maps a.p →
      (∀ t ∈ (k'.proc a.p).threads,
        t ∈ (k.proc a.p).threads ∨ t.tidx = (k.proc a.p).threadIdx) → Change k a k' a.p
  | child {c : CloneArgs} {q : ProcId} : a.call = .clone c → c.thread = false →
      k'.maps q = (MMAP_MAX_ADDR_START, (k.proc a.p).vmas) →
      (∀ t ∈ (k'.proc q).threads, t.tidx = 0) → Change k a k' q

theorem map_snd_eq_ok {β : Type} {r : Except Panic (β × Kernel)} (h : r.map Prod.snd = .ok k') :
    ∃ b, r = .ok (b, k') := by
  cases r with
  | ok x =>
    cases h
    exact ⟨x.1, rfl⟩
  | error e => cases h

theorem int32_lt (x : BitVec 32) : x.toInt < 2 ^ 32 := by
  have := BitVec.toInt_lt (x := x)
  omega

theorem Retains.of_sz {sz : ℕ} (h : k'.proc p = { k.proc p with sz }) : Retains p k k' :=
  ⟨by rw [Kernel.maps, h]; rfl, by rw [h]; exact List.Subset.refl _⟩

variable {addr : ℕ}

theorem doMunmap_threads {len : ℤ} {b : Bool} (h : doMunmap k p addr len = .ok (b, k')) :
    (k'.proc p).threads = (k.proc p).threads := by
  rw [doMunmap] at h
  split at h
  · cases h
    rfl
  obtain ⟨S, -, h⟩ := bind_eq_ok.1 h
  obtain ⟨S1, -, h⟩ := bind_eq_ok.1 h
  cases h
  rw [Kernel.setProc_self]

theorem sysBrk_inv {b : Bool} (hk : Inv k) (hs : (k.proc p).state = .used)
    (h : sysBrk k p addr = .ok (b, k')) :
    Inv k' ∧ Apart p k k' ∧ ∃ sz, k'.proc p = { k.proc p with sz } := by
  have hsame : Inv k ∧ Apart p k k ∧ ∃ sz, k.proc p = { k.proc p with sz } :=
    ⟨hk, .refl p k, _, rfl⟩
  rw [sysBrk] at h
  split_ifs at h
  · cases h
    exact hsame
  · cases h
    exact hsame
  · exact growproc_inv hk hs h
  · cases h
    exact hsame

/-- **A careful call** keeps the invariant, and changes one process. -/
theorem perform_change (hk : Inv k) (he : a.enabled k = true) (hc : Careful k a)
    (h : perform k a = .ok k') : Inv k' ∧ ∃ q, Apart q k k' ∧ Change k a k' q := by
  obtain ⟨hs, ht, hsup⟩ := Act.enabled_iff.1 he
  obtain ⟨p, t, call⟩ := a
  cases call with
  | mmap length prot flags fp page =>
    cases h
    obtain ⟨hinv, hapart⟩ := doMmap_inv hk hs hc.1 hc.2
      (Prod.mk.eta (p := doMmap k p length.toInt prot flags fp page)).symm
    refine ⟨hinv, p, hapart, .mmap rfl rfl ?_⟩
    simp only [doMmap]
    split_ifs <;> simp
  | munmap addr len =>
    obtain ⟨b, hb⟩ := map_snd_eq_ok h
    have hret : (k'.proc p).threads = (k.proc p).threads := doMunmap_threads hb
    cases hfind : findVma addr (k.proc p).vmas with
    | none =>
      rw [doMunmap, hfind] at hb
      cases hb
      exact ⟨hk, p, .refl p k, .retains (.refl p k)⟩
    | some r =>
      obtain ⟨hinv, hapart⟩ := doMunmap_inv hk hs (hc r hfind).1 (int32_lt len)
        (fun before w after hw => (hc _ hw).2) hb
      exact ⟨hinv, p, hapart, .munmap rfl hb hret⟩
  | sbrk n =>
    obtain ⟨b, hb⟩ := map_snd_eq_ok h
    obtain ⟨hinv, hapart, sz, hsz⟩ := growproc_inv hk hs hb
    exact ⟨hinv, p, hapart, .retains (.of_sz hsz)⟩
  | brk addr =>
    obtain ⟨b, hb⟩ := map_snd_eq_ok h
    obtain ⟨hinv, hapart, sz, hsz⟩ := sysBrk_inv hk hs hb
    exact ⟨hinv, p, hapart, .retains (.of_sz hsz)⟩
  | load va =>
    obtain ⟨b, hb⟩ := map_snd_eq_ok h
    obtain ⟨hinv, hapart, hproc⟩ := access_inv hk hs (userLoad_ok hb).1
    exact ⟨hinv, p, hapart, .retains (.of_proc (by rw [hproc]))⟩
  | store va b =>
    obtain ⟨hinv, hapart, hproc⟩ := userStore_inv hk hs h
    exact ⟨hinv, p, hapart, .retains (.of_proc (by rw [hproc]))⟩
  | clone c =>
    obtain ⟨b, hb⟩ := map_snd_eq_ok h
    have hnp : ∀ np ∈ c.np, (k.proc np).state = .unused := by
      intro np hnp
      simp only [Call.supplied, Option.mem_def.1 hnp, Option.all_some, decide_eq_true_eq] at hsup
      exact hsup
    obtain ⟨hinv, q, hapart, ⟨rfl, hmaps, hthreads⟩ | ⟨hunused, hchild⟩⟩ :=
      doClone_inv hk hs hnp hc hb
    · refine ⟨hinv, q, hapart, ?_⟩
      cases hthread : c.thread with
      | true =>
        exact .thread rfl hthread hmaps fun t ht => (hthreads t ht).imp_right And.right
      | false =>
        refine .retains ⟨hmaps, fun t ht => (hthreads t ht).resolve_right ?_⟩
        rintro ⟨htrue, -⟩
        rw [hthread] at htrue
        cases htrue
    · by_cases hused : (k'.proc q).state = .used
      · obtain ⟨hthread, hmaps, hidx⟩ := hchild hused
        exact ⟨hinv, q, hapart, .child rfl hthread hmaps hidx⟩
      · exact ⟨hinv, q, hapart, .gone hused⟩
  | execve path argv envp =>
    obtain ⟨b, hb⟩ := map_snd_eq_ok h
    obtain ⟨hinv, hapart, hret⟩ := execve_inv hk hs ht hb
    exact ⟨hinv, p, hapart, .retains hret⟩
  | exit =>
    obtain ⟨hinv, hapart, hret⟩ := threadExit_inv hk hs ht h
    by_cases hused : (k'.proc p).state = .used
    · exact ⟨hinv, p, hapart, .retains (hret hused)⟩
    · exact ⟨hinv, p, hapart, .gone hused⟩
  | exitGroup =>
    obtain ⟨hinv, hapart, hret⟩ := exitGroup_inv hk hs ht hc h
    by_cases hused : (k'.proc p).state = .used
    · exact ⟨hinv, p, hapart, .retains (hret hused)⟩
    · exact ⟨hinv, p, hapart, .gone hused⟩
  | wait q addr status =>
    obtain ⟨b, hb⟩ := map_snd_eq_ok h
    simp only [Call.supplied, decide_eq_true_eq] at hsup
    obtain ⟨hinv, hapart, hstate⟩ := reap_inv hk hs hsup.1 hb
    exact ⟨hinv, q, hapart, .gone hstate⟩

/-- **The invariant holds along every careful run.** -/
theorem inv_of_reach (h : spaceMachine.Reach Careful k) : Inv k := by
  refine h.invariant (I := Inv) ?_ ?_
  · rintro k ⟨k0, hb, hinit⟩
    exact (userinit_inv hb hinit).1
  · intro k a k' hk hc hstep
    obtain ⟨he, hp⟩ := mem_spaceMachine_step.1 hstep
    exact (perform_change hk he hc hp).1

/-- **The rule for properties of the processes that run.** A property of the mappings and the
threads of every process that runs holds along the runs under a guard that implies
`Careful`. -/
theorem forall_of_reach {ok : Kernel → Act → Prop} {I : ℕ × List Vma → List Tcb → Prop}
    (hok : ∀ k a, ok k a → Careful k a)
    (h0 : ∀ ths : List Tcb, (∀ t ∈ ths, t.tidx = 0) → I (MMAP_MAX_ADDR_START, []) ths)
    (hstep : ∀ k a k' q, Inv k → (k.proc a.p).state = .used → ok k a →
      I (k.maps a.p) (k.proc a.p).threads → Change k a k' q → (k'.proc q).state = .used →
      I (k'.maps q) (k'.proc q).threads)
    (h : spaceMachine.Reach ok k) (p : ProcId) (hp : (k.proc p).state = .used) :
    I (k.maps p) (k.proc p).threads := by
  have hboth : Inv k ∧ ∀ p, (k.proc p).state = .used → I (k.maps p) (k.proc p).threads := by
    refine h.invariant
      (I := fun k => Inv k ∧ ∀ p, (k.proc p).state = .used → I (k.maps p) (k.proc p).threads)
      ?_ ?_
    · rintro k ⟨k0, hb, hinit⟩
      obtain ⟨hinv, hmaps⟩ := userinit_inv hb hinit
      refine ⟨hinv, fun p hp => ?_⟩
      rw [(hmaps p hp).1]
      exact h0 _ (hmaps p hp).2
    · rintro k a k' ⟨hk, hI⟩ hguard hstep'
      obtain ⟨he, hperf⟩ := mem_spaceMachine_step.1 hstep'
      obtain ⟨hk', q, hapart, hchange⟩ := perform_change hk he (hok k a hguard) hperf
      refine ⟨hk', fun p hp => ?_⟩
      obtain rfl | hpq := eq_or_ne p q
      · have hs := (Act.enabled_iff.1 he).1
        exact hstep k a k' p hk hs hguard (hI _ hs) hchange hp
      · have hproc := hapart.proc p hpq
        rw [hproc] at hp
        rw [Kernel.maps, hproc]
        exact hI p hp
  exact hboth.2 p hp

/-! ### A small machine -/

/-- An entry of the process table that has never been used. -/
def noProc : Proc := ⟨.unused, none, none, 0, [], 0, [], 0, 0, 0, none, fun _ => none⟩

/-- A program with one segment, of one byte. -/
def tinyElf : List UInt8 :=
  [0x7f, 0x45, 0x4c, 0x46] ++ List.replicate 28 0 ++ [64] ++ List.replicate 21 0 ++
    [56, 0, 1] ++ List.replicate 7 0 ++ [1] ++ List.replicate 39 0 ++ [1] ++ List.replicate 15 0

/-- A kernel with 400 pages of memory and one program, before there is a process. -/
def smallBoot : Kernel where
  mem := ⟨400, 0, [], fun _ _ => 0⟩
  tables := ∅
  proc _ := noProc
  nfile := 1024
  npool := 1024
  file _ := ⟨[], false⟩
  inode path := if path = "/a" then some (.reg tinyElf) else none

/-- The kernel when the first process runs. -/
def smallStart : Kernel := (userinit smallBoot).toOption.getD smallBoot

/-- The entry that a child of the first process gets. -/
def childProc : ProcId := ⟨1, Files.one_lt_nproc⟩

/-- The only thread of the first process. -/
def initThread : Tcb := ⟨0, some 3⟩

/-- A call of the first thread. -/
def initAct (call : Call) : Act := ⟨initproc, initThread, call⟩

theorem smallStart_init : spaceMachine.init smallStart := by
  refine ⟨smallBoot, ⟨by decide, rfl, rfl, fun _ => ⟨rfl, rfl, rfl⟩⟩, ?_⟩
  have hnone : panicOf (userinit smallBoot) = none := by decide +kernel
  rw [smallStart]
  cases hr : userinit smallBoot with
  | ok k => rfl
  | error e =>
    rw [hr] at hnone
    cases hnone

end XVapor.Vm
