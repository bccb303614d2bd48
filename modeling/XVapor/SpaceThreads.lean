import XVapor.SpaceMaps

/-!
# Threads that Start and Exit

`do_clone` with `CLONE_THREAD`, `thread_exit`, `exit_group` and `wait` keep the invariant of
the address spaces. The last thread that exits leaves a zombie, whose page table has nothing
but user memory any more, and `wait` frees it.

A thread that could not be set up completely stays in the list of its group after it has been
freed, and `exit_group` by the leader does not count the threads that it frees. The results
here are about the calls where neither happens.
-/

namespace XVapor.Vm

open Function
open Files (ProcId ProcState)
open Space

variable {k k' : Kernel} {p q : ProcId} {P : Proc} {S S' : Space} {T : Table} {t : Tcb}

/-! ### Copies of an identifier -/

/-- The four bytes at an address are in pages of the user. -/
def Writable (k : Kernel) (p : ProcId) (addr : ℕ) : Prop :=
  ∀ i < 4, ((k.table p).bind (·.pte (vpn (addr + i)))).any (·.u) = true

instance (k : Kernel) (p : ProcId) (addr : ℕ) : Decidable (Writable k p addr) :=
  inferInstanceAs (Decidable (∀ i < 4, _))

@[simp]
theorem intBytes_length (x : BitVec 32) : (intBytes x).length = 4 := by simp [intBytes]

variable {b : Bool}

theorem storeTid_ok {addr : Option ℕ} {tid : BitVec 32} (hc : Core k)
    (hwf : ∀ T, k.table p = some T → T.Wf) (h : storeTid k p addr tid = .ok (b, k')) :
    Quiet k k' ∧ (b = true ↔ ∀ a ∈ addr, Writable k p a) := by
  obtain _ | a := addr
  · cases h
    exact ⟨.refl k, by simp⟩
  obtain ⟨T, hT, h⟩ := Kernel.bind_space_ok.1 h
  have hwrites := copyout_writes ⟨k.mem, T⟩ a (intBytes tid)
  have hcopied := copyout_fst (S := ⟨k.mem, T⟩) (hwf T hT) a (intBytes tid)
  generalize copyout ⟨k.mem, T⟩ a (intBytes tid) = r at h hwrites hcopied
  cases h
  refine ⟨hc.put_quiet hT hwrites, ?_⟩
  rw [hcopied, intBytes_length]
  simp only [Writable, hT, Option.bind_some, Option.any_eq_true, Option.mem_def,
    Option.some.injEq, forall_eq']

theorem Quiet.writable (h : Quiet k k') (p : ProcId) (addr : ℕ) :
    Writable k' p addr ↔ Writable k p addr := by
  rw [Writable, Writable, h.table]

variable {a : CloneArgs}

theorem storeTids_ok (hc : Core k)
    (hwf : ∀ T, k.table p = some T → T.Wf) (h : storeTids k p a = .ok (b, k')) :
    Quiet k k' ∧
      (b = true ↔ (∀ x ∈ a.ctid, Writable k p x) ∧ ∀ x ∈ a.ptid, Writable k p x) := by
  obtain ⟨⟨c, k1⟩, h1, h⟩ := bind_eq_ok.1 h
  obtain ⟨hq1, hb1⟩ := storeTid_ok hc hwf h1
  cases c with
  | false =>
    cases h
    simp only [Bool.false_eq_true, false_iff] at hb1
    refine ⟨hq1, ?_⟩
    simp only [Bool.false_eq_true, false_iff]
    exact fun hp => hb1 hp.1
  | true =>
    simp only [true_iff] at hb1
    obtain ⟨hq2, hb2⟩ := storeTid_ok (hc.quiet hq1) (by rw [hq1.table]; exact hwf) h
    refine ⟨hq1.trans hq2, ?_⟩
    rw [hb2]
    simp only [hq1.writable]
    exact ⟨fun hp => ⟨hb1, hp⟩, fun hp => hp.2⟩

/-! ### New threads -/

theorem procJoinThread_ok (hc : Core k) (hT : k.table p = some T)
    (h : procJoinThread k p = .ok (t, k')) :
    t.trapframe = none ∧ k.mem.free ≤ T.lacks (slot (k.proc p).threadIdx) ∨
      ∃ n T', t = ⟨(k.proc p).threadIdx, some n⟩ ∧ slot (k.proc p).threadIdx < vpn MAXVA ∧
        T.pte (slot (k.proc p).threadIdx) = none ∧ (T.Wf → T'.Wf) ∧
        T'.pte = update T.pte (slot (k.proc p).threadIdx) (some (trapframePte (.page n))) ∧
        k'.mem.free + T.lacks (slot (k.proc p).threadIdx) + 1 = k.mem.free ∧
        Core k' ∧ Apart p k k' ∧ k.mem.Keeps k'.mem ∧ k'.table p = some T' ∧
        k'.proc p = { k.proc p with
          threadCnt := (k.proc p).threadCnt + 1, threadIdx := (k.proc p).threadIdx + 1,
          threads := (k.proc p).threads ++ [t],
          leader := (k.proc p).leader <|> some (k.proc p).threadIdx } := by
  replace h := (Kernel.bind_space hT).symm.trans h
  obtain ⟨⟨tf, S⟩, h1, h⟩ := bind_eq_ok.1 h
  cases h
  obtain ⟨rfl, hlow⟩ | ⟨n, rfl, hslot, hnone, hedit, hpte, hfree⟩ := uvmThreadTrapframe_ok h1
  · exact .inl ⟨rfl, hlow⟩
  obtain ⟨hc1, ha1, ht1⟩ := hc.edit hT hedit
  obtain ⟨hc2, ha2, ht2⟩ := hc1.setProc (p := p) (P := { k.proc p with
    threadCnt := (k.proc p).threadCnt + 1, threadIdx := (k.proc p).threadIdx + 1,
    threads := (k.proc p).threads ++ [⟨(k.proc p).threadIdx, some n⟩],
    leader := (k.proc p).leader <|> some (k.proc p).threadIdx }) rfl
  exact .inr ⟨n, S.tbl, rfl, hslot, hnone, hedit.wf, hpte, hfree, hc2, ha1.trans ha2, hedit.data,
    ht2.trans ht1, Kernel.setProc_self _ _ _⟩

theorem Group.join (h : Group P) {n : ℕ} (hslot : slot P.threadIdx < vpn MAXVA)
    (leader : Option ℕ) :
    Group { P with
      threadCnt := P.threadCnt + 1, threadIdx := P.threadIdx + 1,
      threads := P.threads ++ [⟨P.threadIdx, some n⟩], leader } := by
  have hlt : P.threadIdx < 2 ^ 19 := by
    refine lt_of_le_of_ne h.bound fun heq => ?_
    rw [heq] at hslot
    exact absurd hslot (by decide)
  refine ⟨by simp, h.ghosts, ?_, ?_, fun t ht => ?_, hlt⟩
  · simp only [List.length_append, List.length_singleton, h.count]
    rfl
  · rw [List.map_append, List.nodup_append]
    refine ⟨h.nodup, by simp, fun i hi j hj => ?_⟩
    obtain ⟨t, ht, rfl⟩ := List.mem_map.1 hi
    have hti := h.idx t ht
    simp only [List.map_cons, List.map_nil, List.mem_singleton] at hj
    omega
  · rcases List.mem_append.1 ht with ht | ht
    · exact (h.idx t ht).trans (Nat.lt_succ_self _)
    · obtain rfl := List.mem_singleton.1 ht
      exact Nat.lt_succ_self _

/-- **A new thread keeps the invariant**, if there is memory for its trap frame and its
identifier can be copied. -/
theorem cloneThread_inv (hk : Inv k) (hs : (k.proc p).state = .used)
    (hfree : a.tcb = true → 3 ≤ k.mem.free)
    (htids : a.tcb = true → (∀ x ∈ a.ctid, Writable k p x) ∧ ∀ x ∈ a.ptid, Writable k p x)
    (h : cloneThread k p a = .ok (b, k')) :
    Inv k' ∧ Apart p k k' ∧ k'.maps p = k.maps p ∧
      ∀ t ∈ (k'.proc p).threads, t ∈ (k.proc p).threads ∨ t.tidx = (k.proc p).threadIdx := by
  rw [cloneThread] at h
  split at h
  · cases h
    exact ⟨hk, .refl p _, rfl, fun t ht => .inl ht⟩
  rename_i htcb
  simp only [Bool.not_eq_false] at htcb
  obtain ⟨T, hT, hshape, hgroup, harea⟩ := hk.running hs
  obtain ⟨⟨t, k1⟩, h1, h⟩ := bind_eq_ok.1 h
  obtain ⟨-, hlow⟩ | ⟨n, T1, rfl, hslot, hnone, hwf, hpte, -, hc1, ha1, -, hT1, hproc1⟩ :=
    procJoinThread_ok hk.core hT h1
  · have hmore := hfree htcb
    have htwo := T.lacks_le (slot (k.proc p).threadIdx)
    omega
  · have hshape1 := hshape.addThread (hwf hshape.wf) hnone hpte
    have hfits : Fits (k1.proc p) (k1.table p) := by
      rw [hproc1, hT1]
      exact .used hs hshape1 (hgroup.join hslot _) ⟨harea.vmas, harea.max⟩
    have hk1 := hk.of_apart hc1 ha1 hfits
    simp only [reduceCtorEq, if_false] at h
    obtain ⟨⟨c, k2⟩, h2, h⟩ := bind_eq_ok.1 h
    obtain ⟨hq, hb⟩ := storeTids_ok hc1 (fun T' hT' => by
      rw [Option.some.inj (hT'.symm.trans hT1)]
      exact hwf hshape.wf) h2
    -- the new entry is no page of the user, and does not replace one
    have hwrite : ∀ x, Writable k p x → Writable k1 p x := by
      intro x hx i hi
      have hxi := hx i hi
      simp only [hT, hT1, Option.bind_some] at hxi ⊢
      rwa [hpte, update_of_ne fun heq => by simp [heq, hnone] at hxi]
    have hc : c = true := hb.2 ⟨fun x hx => hwrite x ((htids htcb).1 x hx),
      fun x hx => hwrite x ((htids htcb).2 x hx)⟩
    subst hc
    cases h
    refine ⟨hk1.quiet hq, ha1.trans (hq.apart p), ?_, fun t ht => ?_⟩
    · rw [Kernel.maps, hq.proc, hproc1]
      rfl
    · rw [hq.proc, hproc1] at ht
      refine (List.mem_append.1 ht).imp_right fun hlast => ?_
      rw [List.mem_singleton.1 hlast]

/-! ### Threads that exit -/

theorem freeThread_ok {n : ℕ} (hT : k.table p = some T) (hn : t.trapframe = some n)
    (h : freeThread k p t = .ok k') :
    ∃ S, Edit ⟨k.mem, T⟩ S 0 ∧ S.tbl.pte = update T.pte (slot t.tidx) none ∧
      k' = k.put S := by
  replace h := (Kernel.bind_space hT).symm.trans h
  obtain ⟨S, h1, h⟩ := bind_eq_ok.1 h
  rw [hn, Option.isSome_some] at h1
  obtain ⟨-, hpte, hedit⟩ := unmapPages_ok (uvmunmap_ok h1)
  rw [vpn_threadTrapframe] at hpte
  refine ⟨S, hedit, funext fun i => ?_, (Except.ok.inj h).symm⟩
  rw [hpte, update_apply]
  exact if_congr (by omega) rfl rfl

variable {T' : Table}

theorem Shape.eraseThread (h : Shape T P.sz P.threads P.vmas) (hg : Group P)
    (ht : t ∈ P.threads) (hwf : T'.Wf) (hbound : pages P.sz ≤ 131072)
    (hpte : T'.pte = update T.pte (slot t.tidx) none) :
    Shape T' P.sz (P.threads.erase t) P.vmas := by
  refine h.dropThreads hwf hbound hg.tidx_lt (fun t' ht' => List.mem_of_mem_erase ht')
    (· = slot t.tidx) (fun v hv => ⟨t, ht, hv⟩) (fun v hv => ?_) (fun v hv => ?_)
    fun t' ht' => ?_
  · rw [hpte, hv, update_self]
  · rw [hpte, update_of_ne hv]
  · rw [(List.Nodup.of_map _ hg.nodup).mem_erase_iff]
    refine ⟨fun hne => ⟨fun heq => hne (by rw [heq]), ht'⟩, fun hne heq => hne.1 ?_⟩
    exact List.inj_on_of_nodup_map hg.nodup ht' ht
      (slot_inj (hg.tidx_lt t' ht') (hg.tidx_lt t ht) heq)

theorem Group.leave (h : Group P) (ht : t ∈ P.threads) (hcnt : P.threadCnt ≠ 1)
    (leader : Option ℕ) :
    Group { P with threadCnt := P.threadCnt - 1, threads := P.threads.erase t, leader } := by
  have hlen := List.length_erase_of_mem ht
  have hpos := List.length_pos_of_mem ht
  have hcount := h.count
  refine ⟨fun hnil => ?_, h.ghosts, ?_, ?_, fun t' ht' => h.idx t' (List.mem_of_mem_erase ht'),
    h.bound⟩
  · dsimp only at hnil
    rw [hnil, List.length_nil] at hlen
    omega
  · dsimp only
    omega
  · exact h.nodup.sublist (List.erase_sublist.map _)

variable {vmas : List Vma}

theorem freeVmas_ok (ha : ∀ w ∈ vmas, MMAP_END_ADDRESS ≤ w.start ∧ w.start ≤ w.stop ∧
      w.stop ≤ MMAP_MAX_ADDR_START) (h : freeVmas S vmas = .ok S') :
    Edit S S' 0 ∧ (∀ i, (∃ w ∈ vmas, w.Holds i) → S'.tbl.pte i = none) ∧
      ∀ i, ¬ (∃ w ∈ vmas, w.Holds i) → S'.tbl.pte i = S.tbl.pte i := by
  induction vmas generalizing S with
  | nil =>
    cases h
    exact ⟨.refl _, by simp, fun _ _ => rfl⟩
  | cons w vmas ih =>
    rw [freeVmas, List.foldlM_cons] at h
    obtain ⟨S1, h1, h⟩ := bind_eq_ok.1 h
    obtain ⟨hend, hle, hmax⟩ := ha w (by simp)
    have hlen : Int.bmod (w.stop - w.start) (2 ^ 32) = w.stop - w.start := by
      rw [mmap_end_eq] at hend
      rw [mmap_max_eq] at hmax
      simp only [PGSIZE] at hend hmax
      rw [Int.bmod_def]
      norm_num
      omega
    have hstop : u64 (w.start + (w.stop - w.start)) = w.stop := by
      have hsum : (w.start + (w.stop - w.start) : ℤ) = w.stop := by omega
      rw [hsum, u64_of_lt (hmax.trans_lt (by decide))]
    rw [hlen, mmapWritebackUnmapf, hstop, min_self] at h1
    obtain ⟨hedit1, hpte1⟩ := unmapfLoop_ok h1
    have hin : ∀ i, (vpn w.start ≤ i ∧ i < vpn w.start + (pages w.stop - vpn w.start)) ↔
        w.Holds i := by
      intro i
      rw [Vma.Holds, ← lt_pages]
      omega
    obtain ⟨hedit, hgone, hkeep⟩ := ih (fun w' hw' => ha w' (List.mem_cons_of_mem _ hw')) h
    refine ⟨hedit1.trans_zero hedit, fun i hi => ?_, fun i hi => ?_⟩
    · by_cases hrest : ∃ w' ∈ vmas, w'.Holds i
      · exact hgone i hrest
      · obtain ⟨w', hw', hi⟩ := hi
        rcases List.mem_cons.1 hw' with rfl | hw'
        · rw [hkeep i hrest, hpte1, if_pos ((hin i).2 hi)]
        · exact absurd ⟨w', hw', hi⟩ hrest
    · have hrest : ¬ ∃ w' ∈ vmas, w'.Holds i := by
        rintro ⟨w', hw', hi'⟩
        exact hi ⟨w', List.mem_cons_of_mem _ hw', hi'⟩
      rw [hkeep i hrest, hpte1, if_neg fun hi' => hi ⟨w, by simp, (hin i).1 hi'⟩]

theorem reparent_ok (hc : Core k) (p q : ProcId) :
    Core (reparent k p) ∧ Apart q k (reparent k p) ∧ (reparent k p).table = k.table ∧
      ∀ r, (reparent k p).proc r = { k.proc r with parent := ((reparent k p).proc r).parent } := by
  have hproc : ∀ r, (reparent k p).proc r =
      { k.proc r with parent := ((reparent k p).proc r).parent } := by
    intro r
    simp only [reparent]
    split <;> rfl
  have htable : (reparent k p).table = k.table := by
    funext r
    rw [Kernel.table, hproc]
    rfl
  have hapart : Apart q k (reparent k p) :=
    ⟨.refl _, fun r _ => hproc r, fun r _ => by rw [htable]⟩
  refine ⟨hc.update hapart (fun r hr => ?_) (fun q' r hq hr hqr => ?_) fun n => ?_, hapart,
    htable, hproc⟩
  · rw [hproc] at hr
    rw [htable]
    exact hc.key q r hr
  · rw [hproc] at hr
    exact hq (hc.inj q' q r hqr hr)
  · rw [htable]
    exact (sub_add_cancel _ _).symm

theorem procExit_ok (hc : Core k) (hT : k.table p = some T) (ha : Area (k.proc p))
    (h : procExit k p = .ok k') :
    ∃ S, Edit ⟨k.mem, T⟩ S 0 ∧
      (∀ i, (∃ w ∈ (k.proc p).vmas, w.Holds i) → S.tbl.pte i = none) ∧
      (∀ i, ¬ (∃ w ∈ (k.proc p).vmas, w.Holds i) → S.tbl.pte i = T.pte i) ∧
      Core k' ∧ Apart p k k' ∧ k'.table p = some S.tbl ∧ k'.mem = S.mem ∧
      k'.proc p = { k.proc p with
        state := .zombie, vmas := [], ofile := fun _ => none,
        parent := (k'.proc p).parent } := by
  rw [procExit] at h
  obtain ⟨-, h⟩ := ite_error_ok.1 h
  obtain ⟨k2, h2, h⟩ := bind_eq_ok.1 h
  cases h
  obtain ⟨hc1, ha1, ht1⟩ := hc.setProc (p := p)
    (P := { k.proc p with ofile := fun _ => none }) rfl
  obtain ⟨T', hT', h2⟩ := Kernel.bind_space_ok.1 h2
  obtain rfl := Option.some.inj (hT.symm.trans (ht1.symm.trans hT'))
  obtain ⟨S, h3, h2⟩ := bind_eq_ok.1 h2
  rw [Kernel.setProc_self] at h3 h2
  obtain ⟨hedit, hgone, hkeep⟩ := freeVmas_ok ha.vmas h3
  obtain ⟨hc2, ha2, ht2⟩ := hc1.edit hT' hedit
  obtain ⟨hc3, ha3, ht3⟩ := hc2.setProc (p := p)
    (P := { k.proc p with ofile := fun _ => none, vmas := [] })
    (by rw [Kernel.put_proc, Kernel.setProc_self])
  have hk2 := Except.ok.inj h2
  rw [hk2] at hc3 ha3 ht3
  have hproc2 : k2.proc p = { k.proc p with ofile := fun _ => none, vmas := [] } := by
    rw [← hk2, Kernel.setProc_self]
  have hmem2 : k2.mem = S.mem := by rw [← hk2]; rfl
  obtain ⟨hc4, ha4, ht4, hproc4⟩ := reparent_ok hc3 p p
  obtain ⟨hc5, ha5, ht5⟩ := hc4.setProc (p := p)
    (P := { (reparent k2 p).proc p with state := .zombie }) rfl
  refine ⟨S, hedit, hgone, hkeep, hc5,
    (((ha1.trans ha2).trans ha3).trans ha4).trans ha5, ?_, hmem2, ?_⟩
  · rw [ht5, ht4, ht3, ht2]
  · rw [Kernel.setProc_self, hproc4, hproc2]

theorem Shape.exit {sz : ℕ} (h : Shape T sz [t] vmas)
    (hvmas : ∀ w ∈ vmas, MMAP_END_ADDRESS ≤ w.start ∧ w.start ≤ w.stop ∧
      w.stop ≤ MMAP_MAX_ADDR_START)
    (hidx : t.tidx < 2 ^ 19) (hbound : pages sz ≤ 131072) (hwf : T'.Wf)
    (hgone : ∀ i, (∃ w ∈ vmas, w.Holds i) ∨ i = slot t.tidx → T'.pte i = none)
    (hkeep : ∀ i, ¬ ((∃ w ∈ vmas, w.Holds i) ∨ i = slot t.tidx) → T'.pte i = T.pte i) :
    Shape T' sz [] [] := by
  have hrange : ∀ i, (∃ w ∈ vmas, w.Holds i) ∨ i = slot t.tidx → 131072 < i ∧ i < 67108862 := by
    rintro i (⟨w, hw, hi⟩ | rfl)
    · have hb := hi.bounds (hvmas w hw)
      omega
    · rw [slot_eq hidx]
      omega
  refine h.restrict hwf _ hkeep hgone (fun hg => ?_) (fun hg => ?_) (by simp)
    (fun i hi => ⟨hi, fun hg => ?_⟩) fun i e hg hknown => ?_
  · have hb := hrange _ hg
    rw [vpn_tramp] at hb
    omega
  · have hb := hrange _ hg
    rw [vpn_sig] at hb
    omega
  · have hb := hrange i hg
    omega
  · obtain hi | hi | ⟨t', ht', hi⟩ | hi | ⟨hi, -⟩ := hknown
    · exact .inl hi
    · exact .inr (.inl hi)
    · rw [List.mem_singleton.1 ht'] at hi
      exact absurd (.inr hi) hg
    · exact .inr (.inr (.inr (.inl hi)))
    · exact absurd (.inl hi) hg

theorem threadExit_last (hk : Inv k) (hs : (k.proc p).state = .used)
    (ht : t ∈ (k.proc p).threads) (hcnt : (k.proc p).threadCnt = 1)
    (h : threadExit k p t = .ok k') :
    Inv k' ∧ Apart p k k' ∧ (k'.proc p).state = .zombie := by
  obtain ⟨T, hT, hshape, hgroup, harea⟩ := hk.running hs
  have hsz := hk.core.pages_le hT hshape
  have hidx := hgroup.tidx_lt t ht
  obtain ⟨n, hn, -⟩ := hshape.frame t ht
  have hthreads := hgroup.eq_singleton ht hcnt
  obtain ⟨hc1, ha1, ht1⟩ := hk.core.setProc (p := p)
    (P := { k.proc p with threadCnt := (k.proc p).threadCnt - 1 }) rfl
  obtain ⟨k2, h2, h⟩ := bind_eq_ok.1 h
  rw [if_pos hcnt] at h2
  obtain ⟨S, hedit, hgone, hkeep, hc2, ha2, ht2, hmem, hproc2⟩ := procExit_ok hc1 (ht1.trans hT)
    (by rw [Kernel.setProc_self]; exact ⟨harea.vmas, harea.max⟩) h2
  rw [Kernel.setProc_self] at hgone hkeep hproc2
  obtain ⟨hc3, ha3, ht3⟩ := hc2.setProc (p := p) (P := { k2.proc p with
    threads := (k2.proc p).threads.erase t
    leader := if (k2.proc p).leader = some t.tidx then
      ((k2.proc p).threads.erase t).head?.map (·.tidx) else (k2.proc p).leader }) rfl
  obtain ⟨S', hedit', hpte', rfl⟩ := freeThread_ok (ht3.trans ht2) hn h
  obtain ⟨hc4, ha4, ht4⟩ := hc3.edit (ht3.trans ht2) hedit'
  have hapart := ((ha1.trans ha2).trans ha3).trans ha4
  have hshape' : Shape S'.tbl (k.proc p).sz [] [] := by
    rw [hthreads] at hshape
    refine hshape.exit harea.vmas hidx hsz (hedit'.wf (hedit.wf hshape.wf)) (fun i hi => ?_)
      fun i hi => ?_
    · by_cases hit : i = slot t.tidx
      · rw [hpte', hit, update_self]
      · rw [hpte', update_of_ne hit, hgone i (hi.resolve_right hit)]
    · rw [hpte', update_of_ne fun heq => hi (.inr heq), hkeep i fun hw => hi (.inl hw)]
  have hproc : ∀ P', ((k2.setProc p P').put S').proc p = P' := fun P' => by
    rw [Kernel.put_proc, Kernel.setProc_self]
  have hstate : (k2.proc p).state = .zombie := by rw [hproc2]
  refine ⟨hk.of_apart hc4 hapart ?_, hapart, ?_⟩
  · rw [ht4, hproc]
    refine .zombie hstate ?_ ?_ ?_
    · dsimp only
      rw [hproc2]
      exact hshape'
    · dsimp only
      rw [hproc2]
      rw [hthreads, List.erase_cons_head]
    · dsimp only
      rw [hproc2]
      exact hgroup.ghosts
  · rw [hproc]
    exact hstate

/-- **A thread that exits keeps the invariant.** -/
theorem threadExit_inv (hk : Inv k) (hs : (k.proc p).state = .used)
    (ht : t ∈ (k.proc p).threads) (h : threadExit k p t = .ok k') :
    Inv k' ∧ Apart p k k' ∧ ((k'.proc p).state = .used → Retains p k k') := by
  by_cases hcnt : (k.proc p).threadCnt = 1
  · obtain ⟨hinv, hapart, hstate⟩ := threadExit_last hk hs ht hcnt h
    exact ⟨hinv, hapart, fun hused => by rw [hstate] at hused; cases hused⟩
  obtain ⟨T, hT, hshape, hgroup, harea⟩ := hk.running hs
  have hsz := hk.core.pages_le hT hshape
  obtain ⟨n, hn, -⟩ := hshape.frame t ht
  obtain ⟨k1, h1, h⟩ := bind_eq_ok.1 h
  rw [if_neg hcnt] at h1
  cases h1
  rw [Kernel.setProc_self] at h
  obtain ⟨hc1, ha1, ht1⟩ := hk.core.setProc (p := p)
    (P := { k.proc p with threadCnt := (k.proc p).threadCnt - 1 }) rfl
  obtain ⟨hc2, ha2, ht2⟩ := hc1.setProc (p := p) (P := { k.proc p with
    threadCnt := (k.proc p).threadCnt - 1
    threads := (k.proc p).threads.erase t
    leader := if (k.proc p).leader = some t.tidx then
      ((k.proc p).threads.erase t).head?.map (·.tidx) else (k.proc p).leader })
    (by rw [Kernel.setProc_self])
  obtain ⟨S, hedit, hpte, rfl⟩ := freeThread_ok (ht2.trans (ht1.trans hT)) hn h
  obtain ⟨hc3, ha3, ht3⟩ := hc2.edit (ht2.trans (ht1.trans hT)) hedit
  have hapart := (ha1.trans ha2).trans ha3
  refine ⟨hk.of_apart hc3 hapart ?_, hapart, fun _ => ?_⟩
  · rw [ht3, Kernel.put_proc, Kernel.setProc_self]
    exact .used hs (hshape.eraseThread hgroup ht (hedit.wf hshape.wf) hsz hpte)
      (hgroup.leave ht hcnt _) ⟨harea.vmas, harea.max⟩
  · refine ⟨?_, ?_⟩
    · rw [Kernel.maps, Kernel.put_proc, Kernel.setProc_self]
      rfl
    · rw [Kernel.put_proc, Kernel.setProc_self]
      exact List.erase_subset

/-- The record of a process in which `t` is the only thread. -/
def Proc.alone (P : Proc) (t : Tcb) : Proc := { P with threads := [t], leader := some t.tidx }

theorem freeAllotherThreadsGroup_single (hg : (k.proc p).ghosts = 0)
    (hths : (k.proc p).threads = [t]) :
    freeAllotherThreadsGroup k p t = .ok (k.setProc p ((k.proc p).alone t)) := by
  rw [freeAllotherThreadsGroup, if_neg (by rw [hg]; omega), hths]
  simp only [ne_eq, not_true_eq_false, decide_false, Bool.false_eq_true, not_false_eq_true,
    List.filter_cons_of_neg, List.filter_nil, List.foldlM_nil, pure_bind]
  rfl

theorem Fits.alone {P : Proc} {o : Option Table} (h : Fits P o) (hs : P.state = .used)
    (hths : P.threads = [t]) : Fits (P.alone t) o := by
  obtain ⟨T, rfl, hshape, hg, harea⟩ := h.of_used hs
  rw [hths] at hshape
  refine .used hs hshape ⟨by simp [Proc.alone], hg.ghosts, ?_, by simp [Proc.alone], ?_, hg.bound⟩
    ⟨harea.vmas, harea.max⟩
  · have hcount := hg.count
    rwa [hths] at hcount
  · have hidx := hg.idx
    rwa [hths] at hidx

/-- **`exit_group` keeps the invariant**, unless the leader of several threads calls it. -/
theorem exitGroup_inv (hk : Inv k) (hs : (k.proc p).state = .used) (ht : t ∈ (k.proc p).threads)
    (hgroup : (k.proc p).leader = some t.tidx → (k.proc p).threads.length = 1)
    (h : exitGroup k p t = .ok k') :
    Inv k' ∧ Apart p k k' ∧ ((k'.proc p).state = .used → Retains p k k') := by
  obtain ⟨k1, h1, h⟩ := bind_eq_ok.1 h
  split at h1
  next hleader =>
    obtain ⟨T, hT, hshape, hg, harea⟩ := hk.running hs
    have hthreads : (k.proc p).threads = [t] := by
      obtain ⟨t', ht'⟩ := List.length_eq_one_iff.1 (hgroup hleader)
      rw [ht'] at ht ⊢
      rw [List.mem_singleton.1 ht]
    rw [freeAllotherThreadsGroup_single hg.ghosts hthreads] at h1
    cases h1
    obtain ⟨hk1, ha1⟩ := hk.setProc (P := (k.proc p).alone t) rfl ((hk.fits p).alone hs hthreads)
    obtain ⟨hk2, ha2, hret⟩ := threadExit_inv hk1 (by rw [Kernel.setProc_self]; exact hs)
      (by rw [Kernel.setProc_self]; simp [Proc.alone]) h
    refine ⟨hk2, ha1.trans ha2, fun hused => ⟨?_, ?_⟩⟩
    · rw [(hret hused).maps, Kernel.maps, Kernel.setProc_self]
      rfl
    · have hsub := (hret hused).threads
      rw [Kernel.setProc_self] at hsub
      rw [hthreads]
      exact hsub
  next =>
    cases h1
    exact threadExit_inv hk hs ht h

/-! ### `wait` -/

/-- The record that `freeproc` leaves. -/
def Proc.cleared (P : Proc) : Proc :=
  { P with
    state := .unused, parent := none, pagetable := none, sz := 0, threads := [], leader := none }

theorem freeproc_ok {cur : ProcId} (hc : Core k) (hths : (k.proc q).threads = [])
    (hshape : ∀ T, k.table q = some T → Shape T (k.proc q).sz [] [])
    (h : freeproc k cur q = .ok k') :
    Core k' ∧ Apart q k k' ∧ k'.table q = none ∧ k'.proc q = (k.proc q).cleared := by
  rw [freeproc] at h
  obtain ⟨-, h⟩ := ite_error_ok.1 h
  obtain ⟨k1, h1, h⟩ := bind_eq_ok.1 h
  rw [hths, List.foldlM_nil] at h1
  cases h1
  obtain ⟨k2, h2, h⟩ := bind_eq_ok.1 h
  obtain rfl : k2.setProc q (k2.proc q).cleared = k' := Except.ok.inj h
  -- the record is written last, so the balance is that of `k2`
  obtain ⟨ha, hproc, hlive⟩ : Apart q k k2 ∧ k2.proc = k.proc ∧
      ∀ n, k2.mem.live n = k.mem.live n - owned (k.table q) n := by
    cases hpt : (k.proc q).pagetable with
    | none =>
      rw [hpt] at h2
      cases h2
      have htable : k.table q = none := by rw [Kernel.table, hpt]; rfl
      refine ⟨.refl q k, rfl, fun n => ?_⟩
      rw [htable, owned_none, sub_zero]
    | some r =>
      rw [hpt] at h2
      obtain ⟨T, hT, h2⟩ := Kernel.bind_space_ok.1 h2
      obtain ⟨m, hm, h2⟩ := bind_eq_ok.1 h2
      cases h2
      have hT' := hshape T hT
      obtain ⟨hle, -, -, d, hlive, -, hzero⟩ := procFreepagetable_ok hm
        (fun _ => hT'.tramp_kernel) (fun _ => hT'.sig_kernel)
      refine ⟨⟨hle, fun _ _ => rfl, fun q' hq' => ?_⟩, rfl, fun n => ?_⟩
      · rw [Kernel.table, Kernel.table]
        rcases hr : (k.proc q').pagetable with _ | r'
        · rfl
        refine AList.lookup_erase_ne ?_
        rintro rfl
        exact hq' (hc.inj q' q _ hr (hc.root hT))
      · rw [hT, owned_some]
        rw [hlive, hzero rfl, Pi.zero_apply, add_zero]
  have ha' := ha.trans (.setProc (k2.proc q).cleared)
  obtain ⟨hc', hnone⟩ := hc.drop ha' (by rw [Kernel.setProc_self]; rfl) hlive
  exact ⟨hc', ha', hnone, by rw [Kernel.setProc_self, hproc]⟩

/-- **`wait` keeps the invariant.** -/
theorem reap_inv {addr : ℕ} {status : BitVec 32} (hk : Inv k)
    (hs : (k.proc p).state = .used) (hq : (k.proc q).state = .zombie)
    (h : reap k p q addr status = .ok (b, k')) :
    Inv k' ∧ Apart q k k' ∧ (k'.proc q).state ≠ .used := by
  obtain ⟨⟨c, k1⟩, h1, h⟩ := bind_eq_ok.1 h
  obtain ⟨T, hT, hshape, -, -⟩ := hk.running hs
  obtain ⟨hquiet, -⟩ := storeTid_ok hk.core (fun T' hT' => by
    rw [Option.some.inj (hT'.symm.trans hT)]
    exact hshape.wf) h1
  have hk1 := hk.quiet hquiet
  have hz : (k1.proc q).state = .zombie := by rw [hquiet.proc]; exact hq
  obtain _ | _ := c
  · cases h
    exact ⟨hk1, hquiet.apart q, by rw [hz]; simp⟩
  obtain ⟨k2, h2, h⟩ := bind_eq_ok.1 h
  cases h
  obtain ⟨Tq, hTq, hshapeq, hthreads, -⟩ := (hk1.fits q).of_zombie hz
  obtain ⟨hc2, ha2, hnone, hproc⟩ := freeproc_ok hk1.core hthreads (fun T' hT' => by
    rw [Option.some.inj (hT'.symm.trans hTq)]
    exact hshapeq) h2
  refine ⟨hk1.of_apart hc2 ha2 ?_, (hquiet.apart q).trans ha2,
    by rw [hproc]; simp [Proc.cleared]⟩
  rw [hnone, hproc]
  exact .unused rfl rfl rfl

end XVapor.Vm
