import XVapor.SpaceMachine

/-!
# The Pages of the Trap Frames

The trap frame of a thread is mapped at a page below `SIGRETURN` that depends on the index of
the thread. Indices are not used again, and only the first five of these pages lie above the
area for mappings: **from the sixth thread on, the trap frame is at a page that `mmap` gives
away**, even if the other threads have exited.

As long as `CLONE_THREAD` is used by processes that have made at most four threads after the
first, the trap frames are at different pages, mapped to the pages of their threads, and apart
from everything else.

## Main results

* `trapframes_of_reach`: the pages of the trap frames along runs with few threads.
-/

namespace XVapor.Vm

open Files (ProcId ProcState)

variable {k k' : Kernel} {p : ProcId} {S : Space} {T : Table} {t : Tcb} {α : Type}

/-! ### Panics of a new thread -/

/-- The computation does not panic with `mappages: remap`. -/
def NoRemap (r : Except Panic α) : Prop := Ends (· = .remap) (fun _ => True) r

theorem NoRemap.bind {β : Type} {r : Except Panic α} {f : α → Except Panic β} (h : NoRemap r)
    (hf : ∀ a, r = .ok a → NoRemap (f a)) : NoRemap (r >>= f) := by
  cases r with
  | ok a => exact hf a rfl
  | error e => exact h

theorem noRemap_ok (a : α) : NoRemap (.ok a) := trivial

theorem noRemap_error {e : Panic} (h : e ≠ .remap) : NoRemap (.error e : Except Panic α) := h

theorem walk_noRemap (S : Space) (v : ℕ) (alloc : Bool) : NoRemap (walk S v alloc) := by
  rw [walk]
  split
  · exact noRemap_error (by decide)
  · split
    · exact noRemap_ok _
    · exact noRemap_ok _

theorem kfree_noRemap (m : Mem) (f : Frame) : NoRemap (kfree m f) := by
  cases f with
  | page n => exact noRemap_ok _
  | kernel | null => exact noRemap_error (by decide)

theorem mappages_noRemap {v : ℕ} (e : Pte) (hnone : S.tbl.pte v = none) :
    NoRemap (mappages S v e) := by
  refine (walk_noRemap S v true).bind fun ⟨found, S1⟩ hwalk => ?_
  obtain ⟨-, -, hleaf, -⟩ := walk_true_ok hwalk
  have hnone1 : S1.tbl.pte v = none := by rw [Table.pte, hleaf, ← Table.pte, hnone]
  obtain _ | _ := found
  · exact noRemap_ok _
  simp only [if_true, hnone1]
  exact noRemap_ok _

theorem unmapPage_noRemap (S : Space) (v : ℕ) (doFree : Bool) : NoRemap (unmapPage S v doFree) := by
  refine (walk_noRemap S v false).bind fun ⟨found, S1⟩ _ => ?_
  obtain _ | _ := found
  · exact noRemap_error (by decide)
  simp only [if_true]
  split
  · exact noRemap_error (by decide)
  rename_i e _
  have hfree : NoRemap (if doFree then kfree S1.mem e.frame else .ok S1.mem) := by
    cases doFree with
    | false => exact noRemap_ok _
    | true => exact kfree_noRemap _ _
  exact hfree.bind fun m _ => noRemap_ok _

theorem uvmunmap_noRemap (S : Space) (va npages : ℕ) (doFree : Bool) :
    NoRemap (uvmunmap S va npages doFree) := by
  have hpages : ∀ n v S, NoRemap (unmapPages doFree n v S) := by
    intro n
    induction n with
    | zero => exact fun v S => noRemap_ok _
    | succ n ih => exact fun v S => (unmapPage_noRemap S v doFree).bind fun S' _ => ih _ _
  rw [uvmunmap]
  split
  · exact noRemap_error (by decide)
  · exact hpages _ _ _

theorem space_noRemap (k : Kernel) (p : ProcId) : NoRemap (k.space p) := by
  rw [Kernel.space]
  split
  · exact noRemap_error (by decide)
  · split
    · exact noRemap_error (by decide)
    · exact noRemap_ok _

variable {idx : ℕ}

theorem uvmThreadTrapframe_noRemap (hnone : S.tbl.pte (slot idx) = none) :
    NoRemap (uvmThreadTrapframe S idx) := by
  rw [uvmThreadTrapframe]
  split
  next f m _ =>
  have hmap : NoRemap (mappages ⟨m, S.tbl⟩ (slot idx) (trapframePte f)) :=
    mappages_noRemap _ hnone
  refine hmap.bind ?_
  rintro ⟨mapped, S1⟩ -
  cases mapped with
  | true =>
    simp only [if_true]
    split
    · exact noRemap_ok _
    · exact noRemap_ok _
  | false => exact (kfree_noRemap _ _).bind fun m _ => noRemap_ok _

theorem freeThread_noRemap (k : Kernel) (p : ProcId) (t : Tcb) : NoRemap (freeThread k p t) := by
  rw [freeThread]
  refine (space_noRemap k p).bind fun S _ => ?_
  generalize threadTrapframe t.tidx = va
  exact (uvmunmap_noRemap S va 1 _).bind fun _ _ => noRemap_ok _

theorem storeTid_noRemap (k : Kernel) (p : ProcId) (addr : Option ℕ) (tid : BitVec 32) :
    NoRemap (storeTid k p addr tid) := by
  cases addr with
  | none => exact noRemap_ok _
  | some x => exact (space_noRemap k p).bind fun S _ => noRemap_ok _

theorem storeTids_noRemap (k : Kernel) (p : ProcId) (c : CloneArgs) :
    NoRemap (storeTids k p c) := by
  refine (storeTid_noRemap k p c.ctid c.tid).bind fun ⟨copied, k1⟩ _ => ?_
  cases copied with
  | true => exact storeTid_noRemap k1 p c.ptid c.tid
  | false => exact noRemap_ok _

/-- **A new thread whose page is not mapped** does not panic there, however it fails. -/
theorem cloneThread_noRemap (c : CloneArgs) (hT : k.table p = some T)
    (hnone : T.pte (slot (k.proc p).threadIdx) = none) : NoRemap (cloneThread k p c) := by
  have hjoin : NoRemap (procJoinThread k p) := by
    refine (space_noRemap k p).bind fun S hS => ?_
    obtain ⟨T', hT', rfl⟩ := Kernel.space_eq_ok.1 hS
    obtain rfl := Option.some.inj (hT.symm.trans hT')
    exact (uvmThreadTrapframe_noRemap hnone).bind fun r _ => noRemap_ok _
  rw [cloneThread]
  split
  · exact noRemap_ok _
  refine hjoin.bind ?_
  rintro ⟨t, k1⟩ -
  dsimp only
  split
  · exact (freeThread_noRemap k1 p t).bind fun _ _ => noRemap_ok _
  refine (storeTids_noRemap k1 p c).bind ?_
  rintro ⟨copied, k2⟩ -
  cases copied with
  | true => exact noRemap_ok _
  | false => exact (freeThread_noRemap k2 p t).bind fun _ _ => noRemap_ok _

/-! ### The pages of the first threads -/

theorem Area.not_holds {P : Proc} (h : Area P) (hidx : idx ≤ NTHREADS_PER_PROC)
    {w : Vma} (hw : w ∈ P.vmas) : ¬ w.Holds (slot idx) := by
  rintro ⟨-, hlt⟩
  obtain ⟨-, -, hstop⟩ := h.vmas w hw
  simp only [NTHREADS_PER_PROC] at hidx
  rw [slot_eq (by omega)] at hlt
  rw [mmap_max_eq] at hstop
  simp only [PGSIZE] at hlt hstop
  omega

/-- **The page of the next thread is not mapped**, if it is one of the first five. -/
theorem next_not_mapped {P : Proc} (hs : Shape T P.sz P.threads P.vmas) (hg : Group P)
    (ha : Area P) (hsz : pages P.sz ≤ 131072) (hidx : P.threadIdx ≤ NTHREADS_PER_PROC) :
    T.pte (slot P.threadIdx) = none := by
  by_contra hsome
  obtain ⟨e, he⟩ := Option.ne_none_iff_exists'.1 hsome
  have hlt : P.threadIdx < 2 ^ 19 := by
    simp only [NTHREADS_PER_PROC] at hidx
    omega
  have hslot := slot_eq hlt
  simp only [NTHREADS_PER_PROC] at hidx
  obtain htramp | hsig | ⟨t, ht, heq⟩ | hlow | ⟨⟨w, hw, hheld⟩, -⟩ := hs.only _ e he
  · rw [vpn_tramp] at htramp
    omega
  · rw [vpn_sig] at hsig
    omega
  · have hti := hg.idx t ht
    have hsame := slot_inj hlt (hti.trans hlt) heq
    omega
  · omega
  · exact ha.not_holds hidx hw hheld

/-! ### Runs with few threads -/

/-- The call makes a thread of the process. -/
def Call.makesThread : Call → Bool
  | .clone c => c.thread
  | _ => false

/-- The guard: careful calls, and a process makes a thread only if its index is one of the
first five. -/
def FewThreads (k : Kernel) (a : Act) : Prop :=
  Careful k a ∧ (a.call.makesThread = true → (k.proc a.p).threadIdx ≤ NTHREADS_PER_PROC)

instance (k : Kernel) (a : Act) : Decidable (FewThreads k a) :=
  inferInstanceAs (Decidable (_ ∧ _))

/-- **Trap frames in their places**: at different pages, each mapped to the page of its thread,
and apart from the trampolines, from user memory and from the mappings. -/
structure TrapframesOk (k : Kernel) (p : ProcId) : Prop where
  distinct : ((k.proc p).threads.map fun t => slot t.tidx).Nodup
  mapped : ∀ t ∈ (k.proc p).threads, ∃ T n, k.table p = some T ∧ t.trapframe = some n ∧
    T.pte (slot t.tidx) = some (trapframePte (.page n))
  apart : ∀ t ∈ (k.proc p).threads, slot t.tidx ≠ vpn TRAMPOLINE ∧
    slot t.tidx ≠ vpn SIGRETURN ∧ pages (k.proc p).sz ≤ slot t.tidx ∧
    ∀ w ∈ (k.proc p).vmas, ¬ w.Holds (slot t.tidx)

theorem tidx_le_of_reach (h : spaceMachine.Reach FewThreads k) (hp : (k.proc p).state = .used) :
    ∀ t ∈ (k.proc p).threads, t.tidx ≤ NTHREADS_PER_PROC := by
  refine forall_of_reach (I := fun _ ths => ∀ t ∈ ths, t.tidx ≤ NTHREADS_PER_PROC)
    (fun k a hok => hok.1) (fun ths hths t ht => by rw [hths t ht]; exact Nat.zero_le _)
    (fun k a k' q _ _ hok hI hchange hq t ht => ?_) h p hp
  cases hchange with
  | retains hret => exact hI t (hret.threads ht)
  | gone hgone => exact absurd hq hgone
  | mmap _ _ hths | munmap _ _ hths =>
    rw [hths] at ht
    exact hI t ht
  | thread hcall hthread _ hths =>
    obtain hold | hnew := hths t ht
    · exact hI t hold
    · rw [hnew]
      exact hok.2 (by rw [hcall]; exact hthread)
  | child _ _ _ hidx =>
    rw [hidx t ht]
    exact Nat.zero_le _

/-- **The pages of the trap frames along runs with few threads**: they are in their places, and
no new thread within the bound panics with `mappages: remap`. -/
theorem trapframes_of_reach (h : spaceMachine.Reach FewThreads k)
    (hp : (k.proc p).state = .used) :
    TrapframesOk k p ∧ ∀ c : CloneArgs, c.thread = true →
      (k.proc p).threadIdx ≤ NTHREADS_PER_PROC → doClone k p c ≠ .error .remap := by
  have hk : Inv k := inv_of_reach (h.mono fun _ _ hok => hok.1)
  obtain ⟨T, hT, hshape, hgroup, harea⟩ := hk.running hp
  have hsz := hk.core.pages_le hT hshape
  have hlow := tidx_le_of_reach h hp
  have hlt : ∀ t ∈ (k.proc p).threads, t.tidx < 2 ^ 19 := fun t ht =>
    (hgroup.idx t ht).trans_le hgroup.bound
  refine ⟨⟨?_, fun t ht => ?_, fun t ht => ?_⟩, fun c hthread hidx => ?_⟩
  · have hmap : ((k.proc p).threads.map fun t => slot t.tidx) =
        ((k.proc p).threads.map (·.tidx)).map slot := by rw [List.map_map]; rfl
    rw [hmap]
    refine hgroup.nodup.map_on fun i hi j hj hij => ?_
    obtain ⟨t, ht, rfl⟩ := List.mem_map.1 hi
    obtain ⟨t', ht', rfl⟩ := List.mem_map.1 hj
    exact slot_inj (hlt t ht) (hlt t' ht') hij
  · obtain ⟨n, hn, hpte⟩ := hshape.frame t ht
    exact ⟨T, n, hT, hn, hpte⟩
  · have hidx := hlow t ht
    have hslot := slot_eq (hlt t ht)
    simp only [NTHREADS_PER_PROC] at hidx
    refine ⟨?_, ?_, by omega, fun w hw => harea.not_holds hidx hw⟩
    · rw [vpn_tramp]
      omega
    · rw [vpn_sig]
      omega
  · rw [doClone, if_pos hthread]
    intro herr
    have hends := cloneThread_noRemap c hT (next_not_mapped hshape hgroup harea hsz hidx)
    rw [herr] at hends
    exact hends rfl

/-- The arguments of a thread library that makes a thread. -/
def threadArgs : CloneArgs := ⟨true, true, none, none, none, true, 1, 0⟩

/-- A process with two threads and a mapping that is in use. -/
def twoThreads : List Act :=
  [initAct (.clone threadArgs), initAct (.mmap 4096 3 0x22 none true),
    initAct (.store (67108856 * PGSIZE) 1)]

theorem trapframes_two : ∃ k, spaceMachine.Reach FewThreads k ∧
    (k.proc initproc).threads.length = 2 ∧ (k.proc initproc).vmas.length = 1 ∧
    TrapframesOk k initproc ∧ doClone k initproc threadArgs ≠ .error .remap := by
  obtain ⟨k, hk, hs, hths, hvmas, hidx⟩ : ∃ k ∈ spaceMachine.exec smallStart twoThreads,
      (k.proc initproc).state = .used ∧ (k.proc initproc).threads.length = 2 ∧
      (k.proc initproc).vmas.length = 1 ∧ (k.proc initproc).threadIdx = 2 := by decide +kernel
  have hreach : spaceMachine.Reach FewThreads k :=
    (Machine.Reach.init smallStart_init).exec_along (by decide +kernel) hk
  obtain ⟨hok, hclone⟩ := trapframes_of_reach hreach hs
  exact ⟨k, hreach, hths, hvmas, hok, hclone threadArgs rfl (by rw [hidx]; decide)⟩

/-- Four threads are made one after the other and exit, and the page below the watermark is
mapped and written to. -/
def fourExits : List Act :=
  [initAct (.clone threadArgs), ⟨initproc, ⟨1, some 19⟩, .exit⟩,
    initAct (.clone threadArgs), ⟨initproc, ⟨2, some 20⟩, .exit⟩,
    initAct (.clone threadArgs), ⟨initproc, ⟨3, some 21⟩, .exit⟩,
    initAct (.clone threadArgs), ⟨initproc, ⟨4, some 22⟩, .exit⟩,
    initAct (.mmap 4096 3 0x22 none true), initAct (.store (67108856 * PGSIZE) 1)]

/-- **One thread is alive, and a new one panics**: its trap frame would be at the page that
`mmap` has given away. -/
theorem remap_after_exits : ∃ k, spaceMachine.Reach Machine.anyStep k ∧
    (k.proc initproc).state = .used ∧ (k.proc initproc).threads.length < NTHREADS_PER_PROC ∧
    doClone k initproc threadArgs = .error .remap := by
  obtain ⟨k, hk, hs, hths, hpanic⟩ : ∃ k ∈ spaceMachine.exec smallStart fourExits,
      (k.proc initproc).state = .used ∧ (k.proc initproc).threads.length < NTHREADS_PER_PROC ∧
      panicOf (doClone k initproc threadArgs) = some .remap := by
    decide +kernel
  exact ⟨k, Machine.reach_of_exec smallStart_init hk, hs, hths, panicOf_eq_some.1 hpanic⟩

end XVapor.Vm
