import XVapor.SpaceInvariant

/-!
# Calls on the Memory of a Process

`mmap`, `munmap`, `growproc` and the accesses of the user keep the invariant of the address
spaces. Each changes the address space of the process that makes it, and no other.

A length that is negative or passes the bottom of the address space moves a mapping over other
parts of the address space, so `mmap` and `munmap` are taken with a length that does not.
-/

namespace XVapor.Vm

open Function
open Files (ProcId ProcState)
open Space

variable {k k' : Kernel} {p : ProcId} {S S' : Space} {T : Table} {v : ℕ}

/-- The top of the mappings of a process, and the mappings. -/
def Kernel.maps (k : Kernel) (p : ProcId) : ℕ × List Vma := ((k.proc p).maxVma, (k.proc p).vmas)

/-- A call leaves a process its mappings, and makes no thread of it. -/
structure Retains (p : ProcId) (k k' : Kernel) : Prop where
  maps : k'.maps p = k.maps p
  threads : (k'.proc p).threads ⊆ (k.proc p).threads

theorem Retains.refl (p : ProcId) (k : Kernel) : Retains p k k := ⟨rfl, List.Subset.refl _⟩

theorem Retains.of_proc (h : k'.proc p = k.proc p) : Retains p k k' :=
  ⟨by rw [Kernel.maps, h, Kernel.maps], by rw [h]; exact List.Subset.refl _⟩

/-! ### Lists of mappings -/

variable {addr n va : ℕ} {vmas before after : List Vma} {w : Vma}

theorem findVma_some (h : findVma addr vmas = some (before, w, after)) :
    vmas = before ++ w :: after ∧ w.start ≤ addr ∧ addr < w.stop := by
  induction vmas generalizing before with
  | nil => cases h
  | cons w' vmas ih =>
    rw [findVma] at h
    split at h
    · rename_i hin
      cases h
      exact ⟨rfl, hin⟩
    rcases hrest : findVma addr vmas with _ | x
    · simp [hrest] at h
    simp only [hrest, Option.map_some, Option.some.injEq, Prod.mk.injEq] at h
    obtain ⟨rfl, rfl, rfl⟩ := h
    obtain ⟨heq, hin⟩ := ih hrest
    exact ⟨by rw [heq, List.cons_append], hin⟩

theorem findVma_mem (h : findVma addr vmas = some (before, w, after)) : w ∈ vmas := by
  rw [(findVma_some h).1]
  simp

theorem Vma.Holds.bounds (h : w.Holds v)
    (hw : MMAP_END_ADDRESS ≤ w.start ∧ w.start ≤ w.stop ∧ w.stop ≤ MMAP_MAX_ADDR_START) :
    66846713 ≤ v ∧ v < 67108857 := by
  obtain ⟨hend, -, hmax⟩ := hw
  obtain ⟨hstart, hstop⟩ := h
  rw [mmap_end_eq] at hend
  rw [mmap_max_eq] at hmax
  simp only [vpn, PGSIZE] at hend hmax hstart hstop
  omega

/-! ### `mmap` -/

theorem u64_of_lt {x : ℕ} (h : x < 2 ^ 64) : u64 x = x := by
  rw [u64]
  omega

variable {length len : ℤ} {prot flags : BitVec 32} {fp : Option ℕ} {page b write : Bool}

/-- What `do_mmap` does if the length does not pass the bottom of the address space. A call
that fails may have moved the top. -/
theorem doMmap_ok (ha : Area (k.proc p)) (h0 : 0 ≤ length) (hmax : length ≤ (k.proc p).maxVma)
    (h : doMmap k p length prot flags fp page = (b, k')) :
    k' = k ∨ ∃ start, start = vpn ((k.proc p).maxVma - length.toNat) * PGSIZE ∧
      (k' = k.setProc p { k.proc p with maxVma := start } ∨
        MMAP_END_ADDRESS ≤ start ∧
        k' = k.setProc p { k.proc p with
          maxVma := start
          vmas := (k.proc p).vmas ++
            [⟨start, vpn (k.proc p).maxVma * PGSIZE, prot, flags, fp⟩] }) := by
  rw [doMmap] at h
  split at h
  · exact .inl (Prod.mk.inj h).2.symm
  split at h
  · exact .inl (Prod.mk.inj h).2.symm
  have hmax' : (k.proc p).maxVma < 2 ^ 64 := ha.max.trans_lt (by decide)
  have hstart : u64 ((k.proc p).maxVma - length) = (k.proc p).maxVma - length.toNat := by
    rw [← u64_of_lt (x := (k.proc p).maxVma - length.toNat) (by omega)]
    congr 1
    omega
  simp only [hstart] at h
  refine .inr ⟨_, rfl, ?_⟩
  split at h
  next => exact .inl (Prod.mk.inj h).2.symm
  next hle => exact .inr ⟨not_lt.1 hle, (Prod.mk.inj h).2.symm⟩

theorem vpn_mono {a b : ℕ} (h : a ≤ b) : vpn a ≤ vpn b := Nat.div_le_div_right h

/-- **`mmap` keeps the invariant.** -/
theorem doMmap_inv (hk : Inv k) (hs : (k.proc p).state = .used) (h0 : 0 ≤ length)
    (hmax : length ≤ (k.proc p).maxVma)
    (h : doMmap k p length prot flags fp page = (b, k')) : Inv k' ∧ Apart p k k' := by
  obtain ⟨T, hT, hshape, hgroup, harea⟩ := hk.running hs
  obtain rfl | ⟨start, hstart, hcase⟩ := doMmap_ok harea h0 hmax h
  · exact ⟨hk, .refl p _⟩
  have hle : start ≤ vpn (k.proc p).maxVma * PGSIZE := by
    rw [hstart]
    exact Nat.mul_le_mul_right _ (vpn_mono (by omega))
  have htop := (Nat.div_mul_le_self (k.proc p).maxVma PGSIZE).trans harea.max
  have hgroup' := hgroup
  obtain ⟨hexist, hghosts, hcount, hnodup, hidx, hbound⟩ := hgroup'
  obtain rfl | ⟨hend, rfl⟩ := hcase
  · refine hk.setProc rfl ?_
    rw [hT]
    exact .used hs hshape ⟨hexist, hghosts, hcount, hnodup, hidx, hbound⟩
      ⟨harea.vmas, hle.trans htop⟩
  refine hk.setProc rfl ?_
  rw [hT]
  refine .used hs (hshape.mono_vmas fun w hw => List.mem_append_left _ hw)
    ⟨hexist, hghosts, hcount, hnodup, hidx, hbound⟩ ⟨fun w hw => ?_, hle.trans htop⟩
  rcases List.mem_append.1 hw with hw | hw
  · exact harea.vmas w hw
  · obtain rfl := List.mem_singleton.1 hw
    exact ⟨hend, hle, htop⟩

/-! ### `munmap` -/

theorem unmapfLoop_ok (h : unmapfLoop n v S = .ok S') :
    Edit S S' 0 ∧ ∀ i, S'.tbl.pte i = if v ≤ i ∧ i < v + n then none else S.tbl.pte i := by
  induction n generalizing v S with
  | zero =>
    obtain rfl := Except.ok.inj h
    exact ⟨.refl _, fun i => by rw [if_neg (by omega)]⟩
  | succ n ih =>
    obtain ⟨⟨found, S1⟩, hwalk, h⟩ := bind_eq_ok.1 h
    obtain ⟨hv, rfl⟩ := walk_false_ok hwalk
    obtain _ | _ := found
    · cases h
    simp only [if_true] at h
    obtain ⟨S2, h2, hedit2, hpte2⟩ : ∃ S2, unmapfLoop n (v + 1) S2 = .ok S' ∧
        Edit S S2 0 ∧ ∀ i, S2.tbl.pte i = if i = v then none else S.tbl.pte i := by
      cases he : S.tbl.pte v with
      | none =>
        simp only [he] at h
        refine ⟨S, h, .refl _, fun i => ?_⟩
        split
        next hi => rw [hi, he]
        next => rfl
      | some e =>
        simp only [he] at h
        obtain ⟨S2, h2, h⟩ := bind_eq_ok.1 h
        obtain ⟨-, hpte, hedit⟩ := unmapPages_ok (uvmunmap_ok h2)
        refine ⟨S2, h, hedit, fun i => ?_⟩
        rw [hpte, vpn_mul]
        exact if_congr (by omega) rfl rfl
    obtain ⟨hedit, hpte⟩ := ih h2
    refine ⟨hedit2.trans_zero hedit, fun i => ?_⟩
    rw [hpte, hpte2]
    split
    · rw [if_pos (by omega)]
    split
    · rw [if_pos (by omega)]
    · rw [if_neg (by omega)]

theorem doMunmap_ok (ha : Area (k.proc p)) (h0 : 0 ≤ len)
    (hlen : len < 2 ^ 32) (h : doMunmap k p addr len = .ok (b, k')) :
    k' = k ∨ ∃ before w after T S, findVma addr (k.proc p).vmas = some (before, w, after) ∧
      k.table p = some T ∧ Edit ⟨k.mem, T⟩ S 0 ∧
      (∀ i, S.tbl.pte i =
        if vpn w.start ≤ i ∧ i * PGSIZE < min (w.start + len.toNat) w.stop then none
        else T.pte i) ∧
      k' = (k.put S).setProc p { k.proc p with
        vmas := if w.stop ≤ w.start + len.toNat then before ++ after
          else before ++ { w with start := w.start + len.toNat } :: after } := by
  rw [doMunmap] at h
  split at h
  · exact .inl (Prod.mk.inj (Except.ok.inj h)).2.symm
  rename_i before w after hfind
  obtain ⟨T, hT, h⟩ := Kernel.bind_space_ok.1 h
  obtain ⟨S, h1, h⟩ := bind_eq_ok.1 h
  obtain ⟨hedit, hpte⟩ := unmapfLoop_ok h1
  have hw := ha.vmas w (findVma_mem hfind)
  have hmax : MMAP_MAX_ADDR_START < 2 ^ 63 := by decide
  have hstart : u64 (w.start + len) = w.start + len.toNat := by
    rw [← u64_of_lt (x := w.start + len.toNat) (by omega)]
    congr 1
    omega
  rw [hstart] at hpte h
  refine .inr ⟨before, w, after, T, S, hfind, hT, hedit, fun i => ?_,
    (Prod.mk.inj (Except.ok.inj h)).2.symm⟩
  rw [hpte]
  exact if_congr (by rw [← lt_pages]; omega) rfl rfl

/-- **`munmap` keeps the invariant** if no trap frame lies in the mapping. -/
theorem doMunmap_inv (hk : Inv k)
    (hs : (k.proc p).state = .used) (h0 : 0 ≤ len) (hlen : len < 2 ^ 32)
    (hslot : ∀ before w after, findVma addr (k.proc p).vmas = some (before, w, after) →
      ∀ t ∈ (k.proc p).threads, ¬ w.Holds (slot t.tidx))
    (h : doMunmap k p addr len = .ok (b, k')) : Inv k' ∧ Apart p k k' := by
  obtain ⟨T, hT, hshape, hgroup, harea⟩ := hk.running hs
  obtain rfl | ⟨before, w, after, T', S, hfind, hT', hedit, hpte, rfl⟩ :=
    doMunmap_ok harea h0 hlen h
  · exact ⟨hk, .refl p _⟩
  obtain rfl := Option.some.inj (hT.symm.trans hT')
  have hvmas := (findVma_some hfind).1
  have hw := harea.vmas w (findVma_mem hfind)
  have hsz := hk.core.pages_le hT hshape
  have hgone : ∀ i, vpn w.start ≤ i ∧ i * PGSIZE < min (w.start + len.toNat) w.stop →
      w.Holds i := fun i hi => ⟨hi.1, by omega⟩
  refine hk.put_setProc hT hedit rfl (.used hs ?_ ?_ ⟨fun w' hw' => ?_, harea.max⟩)
  · refine hshape.restrict (hedit.wf hshape.wf)
      (fun i => vpn w.start ≤ i ∧ i * PGSIZE < min (w.start + len.toNat) w.stop)
      (fun i hi => by rw [hpte, if_neg hi]) (fun i hi => by rw [hpte, if_pos hi])
      (fun hg => ?_) (fun hg => ?_) (fun t ht => ⟨ht, fun hg => ?_⟩)
      (fun i hi => ⟨hi, fun hg => ?_⟩) fun i e hg hknown => ?_
    · have hb := (hgone _ hg).bounds hw
      rw [vpn_tramp] at hb
      omega
    · have hb := (hgone _ hg).bounds hw
      rw [vpn_sig] at hb
      omega
    · exact hslot before w after hfind t ht (hgone _ hg)
    · have hb := (hgone i hg).bounds hw
      have hlt : i < 131072 := hi.trans_le hsz
      omega
    · obtain hi | hi | hi | hi | ⟨⟨w', hw', hi⟩, he⟩ := hknown
      · exact .inl hi
      · exact .inr (.inl hi)
      · exact .inr (.inr (.inl hi))
      · exact .inr (.inr (.inr (.inl hi)))
      refine .inr (.inr (.inr (.inr ⟨?_, he⟩)))
      rw [hvmas, List.mem_append, List.mem_cons] at hw'
      by_cases hww : w' = w
      · -- the page is above what has been unmapped, so the mapping is still there
        subst hww
        have hrest : w'.start + len.toNat ≤ i * PGSIZE := by
          have hi1 := hi.1
          have hi2 := hi.2
          omega
        rw [if_neg (by have hi2 := hi.2; omega)]
        refine ⟨{ w' with start := w'.start + len.toNat }, by simp, ?_, hi.2⟩
        exact (vpn_mono hrest).trans (vpn_mul i).le
      · refine ⟨w', ?_, hi⟩
        split
        · simp only [List.mem_append]; tauto
        · simp only [List.mem_append, List.mem_cons]; tauto
  · exact ⟨hgroup.exist, hgroup.ghosts, hgroup.count, hgroup.nodup, hgroup.idx, hgroup.bound⟩
  · have hold : ∀ w'' ∈ before ++ after, w'' ∈ (k.proc p).vmas := by
      intro w'' hw''
      rw [hvmas]
      simp only [List.mem_append, List.mem_cons] at hw'' ⊢
      tauto
    split at hw'
    · exact harea.vmas w' (hold w' hw')
    rename_i hlt
    simp only [List.mem_append, List.mem_cons] at hw'
    obtain hw' | rfl | hw' := hw'
    · exact harea.vmas w' (hold w' (List.mem_append_left _ hw'))
    · refine ⟨?_, ?_, hw.2.2⟩
      · dsimp only
        omega
      · dsimp only
        omega
    · exact harea.vmas w' (hold w' (List.mem_append_right _ hw'))

/-! ### Page faults -/

theorem Edit.write_new {d : ℕ → ℤ} (h : Edit S S' d) (hn : S.mem.next ≤ n) (off : ℕ)
    (bytes : List UInt8) : Edit S ⟨S'.mem.write (.page n) off bytes, S'.tbl⟩ d := by
  refine ⟨⟨h.mem.total, h.mem.next, h.mem.freed, h.mem.room⟩, fun i hi => ?_, h.root, h.node,
    h.wf, h.excess⟩
  rw [← h.data i hi]
  exact update_of_ne (by omega) _ _

theorem pgfaultHandler_ok (h : pgfaultHandler k p v = .ok k') :
    ∃ before w after T n S, findVma (v * PGSIZE) (k.proc p).vmas = some (before, w, after) ∧
      k.table p = some T ∧ T.pte v = none ∧ Edit ⟨k.mem, T⟩ S 0 ∧
      S.tbl.pte = update T.pte v (some (faultPte w n)) ∧
      (∀ i, S.mem.data n i = (faultBytes k w v).getD i 0) ∧ k' = k.put S := by
  rw [pgfaultHandler] at h
  split at h
  · cases h
  rename_i before w after hfind
  obtain ⟨T, hT, h⟩ := Kernel.bind_space_ok.1 h
  rcases hka : kalloc k.mem with _ | ⟨n, m⟩
  · simp [hka] at h
  simp only [hka] at h
  obtain ⟨⟨mapped, S⟩, h1, h⟩ := bind_eq_ok.1 h
  obtain ⟨rfl, -, -, hnext, -, -⟩ := kalloc_eq_some hka
  obtain ⟨rfl, -, hnone, hedit, hpte, -⟩ | ⟨rfl, -⟩ := mappages_ok h1
  · simp only [if_true] at h
    obtain ⟨-, h⟩ := ite_error_ok.1 h
    have hzero : Edit ⟨k.mem, T⟩ S 0 := by
      simpa [faultPte] using Edit.of_kalloc (S := ⟨k.mem, T⟩) hka hedit
    refine ⟨before, w, after, T, k.mem.next, _, hfind, hT, hnone,
      Edit.write_new hzero (Nat.le_refl _) 0 _, hpte, fun i => ?_,
      (Except.ok.inj h).symm⟩
    -- the page was filled with zeros before
    have hdata : S.mem.data k.mem.next i = 0 := by
      rw [hedit.data k.mem.next (show k.mem.next < m.next by omega)]
      exact congrFun (kalloc_zero hka) i
    simp only [Mem.write, Mem.fill, update_self, Nat.zero_le, if_true,
      Nat.sub_zero, hdata]
  · simp at h

theorem access_ok (h : access k p v write = .ok k') :
    (k' = k ∨ pgfaultHandler k p v = .ok k') ∧
      ∃ T e, k'.table p = some T ∧ T.pte v = some e ∧ e.u = true ∧
        (if write then e.w else e.r) = true := by
  have hperm : ∀ {k : Kernel} {T : Table}, permits ⟨k.mem, T⟩ v write = true →
      ∃ e, T.pte v = some e ∧ e.u = true ∧ (if write then e.w else e.r) = true := by
    intro k T hp
    rw [permits] at hp
    split at hp
    · cases hp
    rename_i e he
    rw [Bool.and_eq_true] at hp
    exact ⟨e, he, hp⟩
  obtain ⟨T, hT, h⟩ := Kernel.bind_space_ok.1 h
  split at h
  · rename_i hp
    cases h
    obtain ⟨e, he⟩ := hperm hp
    exact ⟨.inl rfl, T, e, hT, he⟩
  obtain ⟨k1, h1, h⟩ := bind_eq_ok.1 h
  obtain ⟨T1, hT1, h⟩ := Kernel.bind_space_ok.1 h
  split at h
  next hp =>
    cases h
    obtain ⟨e, he⟩ := hperm hp
    exact ⟨.inr h1, T1, e, hT1, he⟩
  next => cases h

theorem pgfaultHandler_inv (hk : Inv k) (hs : (k.proc p).state = .used)
    (h : pgfaultHandler k p v = .ok k') : Inv k' ∧ Apart p k k' ∧ k'.proc = k.proc := by
  obtain ⟨before, w, after, T, n, S, hfind, hT, hnone, hedit, hpte, -, rfl⟩ :=
    pgfaultHandler_ok h
  obtain ⟨T', hT', hshape, hgroup, harea⟩ := hk.running hs
  obtain rfl := Option.some.inj (hT.symm.trans hT')
  obtain ⟨-, hstart, hstop⟩ := findVma_some hfind
  have hholds : w.Holds v := ⟨(vpn_mono hstart).trans (vpn_mul v).le, hstop⟩
  obtain ⟨hinv, hapart⟩ := hk.put hT hedit (.used hs
    (hshape.addPage (hedit.wf hshape.wf) (findVma_mem hfind) hholds rfl hnone hpte) hgroup harea)
  exact ⟨hinv, hapart, rfl⟩

theorem access_inv (hk : Inv k) (hs : (k.proc p).state = .used)
    (h : access k p v write = .ok k') : Inv k' ∧ Apart p k k' ∧ k'.proc = k.proc := by
  obtain ⟨rfl | h, -⟩ := access_ok h
  · exact ⟨hk, .refl p _, rfl⟩
  · exact pgfaultHandler_inv hk hs h

variable {x : UInt8}

theorem userLoad_ok (h : userLoad k p va = .ok (x, k')) :
    access k p (vpn va) false = .ok k' ∧ ∃ T e, k'.table p = some T ∧
      T.pte (vpn va) = some e ∧ x = k'.mem.bytes e.frame (va % PGSIZE) := by
  obtain ⟨k1, h1, h⟩ := bind_eq_ok.1 h
  obtain ⟨T, hT, h⟩ := Kernel.bind_space_ok.1 h
  rcases he : T.pte (vpn va) with _ | e
  · simp [he] at h
  simp only [he, Except.ok.injEq, Prod.mk.injEq] at h
  obtain ⟨rfl, rfl⟩ := h
  exact ⟨h1, T, e, hT, he, rfl⟩

theorem userStore_ok (h : userStore k p va x = .ok k') :
    ∃ k1 T e, access k p (vpn va) true = .ok k1 ∧ k1.table p = some T ∧
      T.pte (vpn va) = some e ∧
      k' = k1.put ⟨k1.mem.write e.frame (va % PGSIZE) [x], T⟩ := by
  obtain ⟨k1, h1, h⟩ := bind_eq_ok.1 h
  obtain ⟨T, hT, h⟩ := Kernel.bind_space_ok.1 h
  rcases he : T.pte (vpn va) with _ | e
  · simp [he] at h
  simp only [he, Except.ok.injEq] at h
  exact ⟨k1, T, e, h1, hT, he, h.symm⟩

/-- **A store of the user keeps the invariant.** -/
theorem userStore_inv (hk : Inv k) (hs : (k.proc p).state = .used)
    (h : userStore k p va x = .ok k') : Inv k' ∧ Apart p k k' ∧ k'.proc = k.proc := by
  obtain ⟨k1, T, e, h1, hT, he, rfl⟩ := userStore_ok h
  obtain ⟨hk1, ha1, hproc⟩ := access_inv hk hs h1
  have hquiet := hk1.core.put_quiet hT (.write (S := ⟨k1.mem, T⟩) he (va % PGSIZE) [x])
  exact ⟨hk1.quiet hquiet, ha1.trans (hquiet.apart p), hproc⟩

/-! ### `growproc` -/

theorem Group.tidx_lt {P : Proc} (h : Group P) : ∀ t ∈ P.threads, t.tidx < 2 ^ 19 :=
  fun t ht => (h.idx t ht).trans_le h.bound

/-- **`growproc` keeps the invariant.** -/
theorem growproc_inv {n : ℤ} (hk : Inv k) (hs : (k.proc p).state = .used)
    (h : growproc k p n = .ok (b, k')) :
    Inv k' ∧ Apart p k k' ∧ ∃ sz, k'.proc p = { k.proc p with sz } := by
  obtain ⟨T, hT, hshape, hgroup, harea⟩ := hk.running hs
  have hsz := hk.core.pages_le hT hshape
  -- whatever the new size is, the shape that belongs to it is enough
  have hset : ∀ {S : Space} {sz : ℕ}, Edit ⟨k.mem, T⟩ S 0 ∧
      Shape S.tbl sz (k.proc p).threads (k.proc p).vmas →
      Inv ((k.put S).setProc p { k.proc p with sz }) ∧
        Apart p k ((k.put S).setProc p { k.proc p with sz }) ∧
        ∃ sz', ((k.put S).setProc p { k.proc p with sz }).proc p = { k.proc p with sz := sz' } := by
    rintro S sz ⟨hedit, hshape'⟩
    obtain ⟨hinv, hapart⟩ := hk.put_setProc (P := { k.proc p with sz }) hT hedit rfl
      (.used hs hshape'
        ⟨hgroup.exist, hgroup.ghosts, hgroup.count, hgroup.nodup, hgroup.idx, hgroup.bound⟩
        ⟨harea.vmas, harea.max⟩)
    exact ⟨hinv, hapart, sz, Kernel.setProc_self _ _ _⟩
  replace h := (Kernel.bind_space hT).symm.trans h
  dsimp only at h
  split at h
  next =>
    obtain ⟨⟨sz, S⟩, h1, h⟩ := bind_eq_ok.1 h
    have hnew := Shape.uvmalloc (S := ⟨k.mem, T⟩) hshape h1
    split at h
    next hzero =>
      cases h
      rw [if_pos hzero] at hnew
      obtain ⟨hinv, hapart⟩ := hk.put hT hnew.1 (.used hs hnew.2 hgroup harea)
      exact ⟨hinv, hapart, (k.proc p).sz, rfl⟩
    next hzero =>
      cases h
      rw [if_neg hzero] at hnew
      exact hset hnew
  next =>
    split at h
    · obtain ⟨⟨sz, S⟩, h1, h⟩ := bind_eq_ok.1 h
      cases h
      exact hset (Shape.uvmdealloc (S := ⟨k.mem, T⟩) hshape h1 hsz hgroup.tidx_lt)
    cases h
    exact ⟨hk, .refl p _, (k.proc p).sz, rfl⟩

end XVapor.Vm
