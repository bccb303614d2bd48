import XVapor.SpaceMachine

/-!
# How `execve` Ends

**A call that fails is not undone.** `execve` takes an entry of `ftable` first and never gives
it back, so the only failure that leaves everything as it was is that there is no entry. What
comes later is worse: the label `bad` looks for the trap frames of the threads in the new page
table, where they are not.

**A call that succeeds replaces the address space** of a process whose only thread has the
index zero and that has no mapping. `proc_freepagetable` unmaps as many trap frames as the
process has threads, from index zero on, `free_allother_threads_group` does not lower the
count, and nothing unmaps the mappings.

## Main results

* `execve_unchanged_iff`: when a call that fails leaves everything as it was.
* `execve_replaces_iff`: when a call that passes its checks replaces the address space.
-/

namespace XVapor.Vm

open Files (ProcId ProcState)
open Space

variable {k k' k1 : Kernel} {p : ProcId} {S S' : Space} {T : Table} {t : Tcb} {img : Image}
  {path : String} {argv envp : List (List UInt8)}

/-! ### Calls that fail -/

/-- **Nothing has changed** for the process: its record with threads, mappings and
descriptors, its page table, and the number of free pages and of free entries of `ftable` and
`ext4_fpool`. No page has been freed twice. -/
structure Unchanged (p : ProcId) (k k' : Kernel) : Prop where
  proc : k'.proc p = k.proc p
  table : k'.table p = k.table p
  free : k'.mem.free = k.mem.free
  nfile : k'.nfile = k.nfile
  npool : k'.npool = k.npool
  once : (∀ n, k.mem.freed.count n ≤ 1) → ∀ n, k'.mem.freed.count n ≤ 1

theorem Unchanged.refl (p : ProcId) (k : Kernel) : Unchanged p k k :=
  ⟨rfl, rfl, rfl, rfl, rfl, id⟩

theorem freeThread_nfile (h : freeThread k p t = .ok k') : k'.nfile = k.nfile := by
  obtain ⟨S, -, h⟩ := bind_eq_ok.1 h
  obtain ⟨S1, -, h⟩ := bind_eq_ok.1 h
  cases h
  rfl

theorem freeAllotherThreadsGroup_nfile (h : freeAllotherThreadsGroup k p t = .ok k') :
    k'.nfile = k.nfile := by
  have hall : ∀ (ts : List Tcb) (k k' : Kernel), ts.foldlM (freeThread · p) k = .ok k' →
      k'.nfile = k.nfile := by
    intro ts
    induction ts with
    | nil =>
      intro k k' h
      cases h
      rfl
    | cons t ts ih =>
      intro k k' h
      rw [List.foldlM_cons] at h
      obtain ⟨k1, h1, h⟩ := bind_eq_ok.1 h
      rw [ih k1 k' h, freeThread_nfile h1]
  rw [freeAllotherThreadsGroup] at h
  obtain ⟨-, h⟩ := ite_error_ok.1 h
  obtain ⟨k1, h1, h⟩ := bind_eq_ok.1 h
  cases h
  have hkeep := hall _ k k1 h1
  exact hkeep

theorem install_nfile {b : Bool} (h : install k p t img = .ok (b, k')) : k'.nfile = k.nfile := by
  obtain ⟨k1, h1, h⟩ := bind_eq_ok.1 h
  obtain ⟨S, -, h⟩ := bind_eq_ok.1 h
  have hfile : k1.nfile = k.nfile :=
    freeAllotherThreadsGroup_nfile (k := { k with mem := img.S.mem }) h1
  rw [← hfile]
  generalize pushArgc img S = r at h
  obtain ⟨_ | _, S1⟩ := r
  · rw [(execBad_ok h).2.2]
  · obtain ⟨old, -, h⟩ := bind_eq_ok.1 h
    obtain ⟨m, -, h⟩ := bind_eq_ok.1 h
    cases h
    rfl

/-- **When a call that fails leaves everything as it was**: if and only if `ftable` is full. -/
theorem execve_unchanged_iff (k : Kernel) (p : ProcId) (t : Tcb) (path : String)
    (argv envp : List (List UInt8)) :
    (∃ k', execve k p t path argv envp = .ok (false, k') ∧ Unchanged p k k') ↔ k.nfile = 0 := by
  constructor
  · rintro ⟨k', h, hsame⟩
    obtain ⟨r, h1, h⟩ := bind_eq_ok.1 h
    have hr := prepare_ok h1
    have hfile := hsame.nfile
    cases r with
    | fail k1 =>
      cases h
      obtain ⟨-, hzero⟩ | ⟨hless, -⟩ := hr
      · exact hzero
      · omega
    | bad k1 S sz =>
      have hless : k1.nfile < k.nfile := hr.1
      have hkeep : k'.nfile = k1.nfile := by rw [(execBad_ok h).2.2]
      omega
    | ready k1 img =>
      have hless : k1.nfile < k.nfile := hr.1
      have hkeep := install_nfile h
      omega
  · intro hzero
    refine ⟨k, ?_, .refl p k⟩
    have hprep : prepare k path argv envp = .ok (.fail k) := by
      rw [prepare, filealloc, if_pos hzero]
    exact bind_eq_ok.2 ⟨_, hprep, rfl⟩

/-- **A path that does not exist** costs an entry of `ftable`. -/
theorem execve_leaks : ∃ k', execve smallStart initproc initThread "/b" [] [] = .ok (false, k') ∧
    k'.nfile + 1 = smallStart.nfile ∧ ¬ Unchanged initproc smallStart k' := by
  have hrun : (execve smallStart initproc initThread "/b" [] []).toOption.map
      (fun r => (r.1, r.2.nfile)) = some (false, 1023) := by decide +kernel
  have hstart : smallStart.nfile = 1024 := by decide +kernel
  rcases hr : execve smallStart initproc initThread "/b" [] [] with e | r
  · rw [hr] at hrun
    cases hrun
  rw [hr] at hrun
  obtain ⟨b, k'⟩ := r
  obtain ⟨rfl, hfile⟩ := Prod.mk.inj (Option.some.inj hrun)
  dsimp only at hfile
  refine ⟨k', rfl, by omega, fun hsame => ?_⟩
  have hsame := hsame.nfile
  omega

/-! ### Calls that pass the checks -/

/-- The image is ready, and there is space for the number of arguments. -/
def Prep.passes : Prep → Bool
  | .ready _ img => (pushArgc img img.S).1
  | _ => false

/-- The call passes all its checks. -/
def PassesChecks (k : Kernel) (path : String) (argv envp : List (List UInt8)) : Prop :=
  (prepare k path argv envp).toOption.any Prep.passes = true

theorem PassesChecks.ready (h : PassesChecks k path argv envp) :
    ∃ k1 img, prepare k path argv envp = .ok (.ready k1 img) ∧ (pushArgc img img.S).1 = true := by
  rw [PassesChecks] at h
  rcases hr : prepare k path argv envp with e | r
  · rw [hr] at h
    cases h
  rw [hr] at h
  cases r with
  | fail k1 => cases h
  | bad k1 S sz => cases h
  | ready k1 img => exact ⟨k1, img, rfl, h⟩

/-- **The address space has been replaced.** The caller is the only thread and is counted, its
trap frame is at its place in the new page table, every page of the old image but that trap
frame has been freed once, and no mapping is left. -/
structure Replaced (p : ProcId) (t : Tcb) (k k' : Kernel) : Prop where
  threads : (k'.proc p).threads = [t]
  count : (k'.proc p).threadCnt = 1
  frame : ∃ T' n, k'.table p = some T' ∧ t.trapframe = some n ∧
    T'.pte (slot t.tidx) = some (trapframePte (.page n))
  freed : ∀ T, k.table p = some T → ∀ i, 1 ≤ T.refs i → t.trapframe ≠ some i →
    k'.mem.freed.count i = 1
  vmas : (k'.proc p).vmas = []

theorem transferTrapframe_total (hwf : S.tbl.Wf) (hzero : t.tidx = 0)
    (htramp : S.tbl.pte (vpn TRAMPOLINE) = some trampolinePte)
    (hnone : S.tbl.pte (slot t.tidx) = none) : ∃ S', transferTrapframe S t = .ok S' := by
  have hslot : slot t.tidx < vpn MAXVA := by
    rw [hzero]
    decide
  obtain ⟨S', h, -⟩ := mappages_total hslot hnone
    (by rw [hzero, hwf.lacks_slot htramp]; exact Nat.zero_le _)
    (trapframePte (t.trapframe.elim .null .page))
  refine ⟨S', bind_eq_ok.2 ⟨(true, S'), ?_, rfl⟩⟩
  rw [vpn_threadTrapframe]
  exact h

theorem pushArgc_update {e : Pte} {v : ℕ} (img : Image) (hwf : S.tbl.Wf) (hwf' : S'.tbl.Wf)
    (hnone : S.tbl.pte v = none) (hpte : S'.tbl.pte = Function.update S.tbl.pte v (some e))
    (h : (pushArgc img S).1 = true) : (pushArgc img S').1 = true := by
  simp only [pushArgc, pushWords, push] at h ⊢
  split_ifs at h ⊢ with hbase
  refine (copyout_fst hwf' _ _).2 fun i hi => ?_
  obtain ⟨e', he', hu⟩ := (copyout_fst hwf _ _).1 h i hi
  refine ⟨e', ?_, hu⟩
  rw [hpte, Function.update_of_ne fun heq => by rw [heq, hnone] at he'; cases he']
  exact he'

/-- **The second part of `execve` succeeds** for a process with one thread, of index zero, and
without mappings. -/
theorem install_total (hk : Inv k) (hs : (k.proc p).state = .used)
    (hths : (k.proc p).threads = [t]) (hzero : t.tidx = 0) (hvmas : (k.proc p).vmas = [])
    (ho : Opens k k1) (hb : Built k.mem img.S img.sz) (hpush : (pushArgc img img.S).1 = true) :
    ∃ k', install k1 p t img = .ok (true, k') := by
  obtain ⟨T, hT, hshape, hgroup, harea⟩ := hk.running hs
  have ht : t ∈ (k.proc p).threads := by rw [hths]; exact List.mem_singleton_self t
  have hsz := hk.core.pages_le hT hshape
  obtain ⟨n, hn, hframe⟩ := hshape.frame t ht
  have hcnt : (k.proc p).threadCnt = 1 := by rw [hgroup.count, hths]; rfl
  obtain ⟨x, y, rfl⟩ : ∃ x y, k1 = { k with nfile := x, npool := y } := ⟨_, _, ho.same⟩
  have hnone : img.S.tbl.pte (slot t.tidx) = none :=
    hb.slot_eq_none hk.core.roomy (hgroup.tidx_lt t ht)
  obtain ⟨S1, h1⟩ := transferTrapframe_total hb.shape.wf hzero hb.shape.tramp hnone
  obtain ⟨-, hedit, hpte1⟩ := transferTrapframe_ok hn h1
  have hpush1 := pushArgc_update img hb.shape.wf (hedit.wf hb.shape.wf) hnone hpte1 hpush
  -- the old table has the trap frame of the caller and user memory
  obtain ⟨m, hm⟩ : ∃ m, procFreepagetable ⟨(pushArgc img S1).2.mem, T⟩ (k.proc p).sz 1 = .ok m := by
    refine procFreepagetable_total hshape.wf ?_ ?_ ?_ ?_ hshape.low fun i e he => ?_
    · simp [hshape.tramp]
    · simp [hshape.sig]
    · rw [hzero] at hframe
      simp [hframe]
    · have hslot : slot 0 = 67108861 := by decide
      omega
    · obtain hi | hi | ⟨t', ht', hi⟩ | hi | ⟨⟨w, hw, -⟩, -⟩ := hshape.only i e he
      · exact .inl hi
      · exact .inr (.inl hi)
      · rw [hths, List.mem_singleton] at ht'
        rw [ht', hzero] at hi
        exact .inr (.inr (.inl hi))
      · exact .inr (.inr (.inr hi))
      · rw [hvmas] at hw
        cases hw
  have hfree : freeAllotherThreadsGroup { k with mem := img.S.mem, nfile := x, npool := y } p t =
      .ok (Kernel.setProc { k with mem := img.S.mem, nfile := x, npool := y } p
        ((k.proc p).alone t)) :=
    freeAllotherThreadsGroup_single (k := { k with mem := img.S.mem, nfile := x, npool := y })
      hgroup.ghosts hths
  obtain ⟨k', h2⟩ : ∃ k', commit (Kernel.setProc { k with mem := img.S.mem, nfile := x, npool := y }
      p ((k.proc p).alone t)) p (pushArgc img S1).2 img.sz = .ok (true, k') := by
    refine ⟨_, bind_eq_ok.2 ⟨_, Kernel.space_eq_ok.2 ⟨T, ?_, rfl⟩, bind_eq_ok.2 ⟨m, ?_, rfl⟩⟩⟩
    · exact (Kernel.setProc_table_self _ _ _).trans hT
    · rw [Kernel.setProc_self]
      rwa [← hcnt] at hm
  refine ⟨k', bind_eq_ok.2 ⟨_, hfree, bind_eq_ok.2 ⟨S1, h1, ?_⟩⟩⟩
  generalize pushArgc img S1 = r at hpush1 h2 ⊢
  obtain ⟨_ | _, S⟩ := r
  · cases hpush1
  · exact h2

/-- **When a call that passes its checks replaces the address space**: if and only if the caller
is the only thread, has the index zero, and the process has no mapping. -/
theorem execve_replaces_iff (h : spaceMachine.Reach Careful k) (hs : (k.proc p).state = .used)
    (ht : t ∈ (k.proc p).threads) (hpass : PassesChecks k path argv envp) :
    (∃ k', execve k p t path argv envp = .ok (true, k') ∧ Replaced p t k k') ↔
      (k.proc p).threadCnt = 1 ∧ t.tidx = 0 ∧ (k.proc p).vmas = [] := by
  have hk := inv_of_reach h
  obtain ⟨T, hT, hshape, hgroup, harea⟩ := hk.running hs
  obtain ⟨k1, img, hprep, hpush⟩ := hpass.ready
  obtain ⟨-, ho, hb⟩ := prepare_ok hprep
  have hb := hb hk.core.roomy
  have hcall : ∀ b k', execve k p t path argv envp = .ok (b, k') ↔
      install k1 p t img = .ok (b, k') := by
    intro b k'
    rw [execve, hprep]
    rfl
  constructor
  · rintro ⟨k', hexec, hrep⟩
    have hinst := (hcall true k').1 hexec
    obtain ⟨hths, hzero⟩ := install_single hk hs ht ho hb hinst
    obtain ⟨-, -, T0, n, -, -, -, htrue⟩ := install_ok hk hs ht ho hb hinst
    obtain ⟨T', -, hrec, -⟩ := htrue rfl
    refine ⟨by rw [hgroup.count, hths]; rfl, hzero, ?_⟩
    have hvmas := hrep.vmas
    rwa [hrec] at hvmas
  · rintro ⟨hcnt, hzero, hvmas⟩
    have hths := hgroup.eq_singleton ht hcnt
    obtain ⟨k', hinst⟩ := install_total hk hs hths hzero hvmas ho hb hpush
    refine ⟨k', (hcall true k').2 hinst, ?_⟩
    obtain ⟨-, -, T0, n, hT0, hn, -, htrue⟩ := install_ok hk hs ht ho hb hinst
    obtain ⟨T', hT', hrec, hframe, hfreed⟩ := htrue rfl
    refine ⟨by rw [hrec]; rfl, by rw [hrec]; exact hcnt, ⟨T', n, hT', hn, hframe⟩,
      fun T1 hT1 i hi hne => ?_, by rw [hrec]; exact hvmas⟩
    obtain rfl := Option.some.inj (hT1.symm.trans hT0)
    exact hfreed i hi fun heq => hne (heq ▸ hn)

/-- The first process has grown its heap and has forked. -/
def forkRun : List Act :=
  [initAct (.sbrk 4096), initAct (.clone ⟨false, false, none, none, some childProc, true, 1, 0⟩)]

theorem execve_replaces_first : ∃ k k', spaceMachine.exec smallStart forkRun = some k ∧
    execve k initproc initThread "/a" [] [] = .ok (true, k') ∧ Replaced initproc initThread k k' := by
  obtain ⟨k, hk, hproc, hpass⟩ : ∃ k ∈ spaceMachine.exec smallStart forkRun,
      ((k.proc initproc).state = .used ∧ (k.proc initproc).threads = [initThread] ∧
        (k.proc initproc).threadCnt = 1 ∧ (k.proc initproc).vmas = []) ∧
      (prepare k "/a" [] []).toOption.any Prep.passes = true := by decide +kernel
  obtain ⟨hs, hths, hcnt, hvmas⟩ := hproc
  have hreach : spaceMachine.Reach Careful k :=
    (Machine.Reach.init smallStart_init).exec_along (by decide +kernel) hk
  obtain ⟨k', hexec, hrep⟩ := (execve_replaces_iff hreach hs (hths ▸ List.mem_singleton_self _) hpass).2
    ⟨hcnt, rfl, hvmas⟩
  exact ⟨k, k', hk, hexec, hrep⟩

/-- **A process with two threads panics in `execve`**: the trap frame of the other thread is
unmapped twice. -/
theorem execve_two_threads : ∃ k, spaceMachine.Reach Machine.anyStep k ∧
    (k.proc initproc).state = .used ∧ initThread ∈ (k.proc initproc).threads ∧
    PassesChecks k "/a" [] [] ∧
    execve k initproc initThread "/a" [] [] = .error .unmapNotMapped := by
  obtain ⟨k, hk, hs, ht, hpass, hpanic⟩ : ∃ k ∈ spaceMachine.exec smallStart
      [initAct (.clone ⟨true, true, none, none, none, true, 1, 0⟩)],
      (k.proc initproc).state = .used ∧ initThread ∈ (k.proc initproc).threads ∧
      (prepare k "/a" [] []).toOption.any Prep.passes = true ∧
      panicOf (execve k initproc initThread "/a" [] []) = some .unmapNotMapped := by decide +kernel
  exact ⟨k, Machine.reach_of_exec smallStart_init hk, hs, ht, hpass, panicOf_eq_some.1 hpanic⟩

end XVapor.Vm
