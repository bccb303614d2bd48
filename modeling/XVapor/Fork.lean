import XVapor.UserView

/-!
# Fork

`do_clone` without `CLONE_VM` and `CLONE_THREAD` copies the pages below the size, and the list
of the mappings. It does not copy the pages of the mappings: **the child reads the file again
where its parent reads what it has written**. For a mapping without a file the kernel faults,
since `proc_copy_vma` counts a reference to the file of every mapping.

So a call that has what it needs is a fork if and only if every mapping has a file, and each
byte of a private mapping that is in memory is the byte that a page fault would read.

## Main results

* `fork_iff`: when a call is a fork.
-/

namespace XVapor.Vm

open Files (ProcId ProcState)
open Space

variable {k k' : Kernel} {p np : ProcId} {T T' : Table} {S S' : Space} {a : CloneArgs} {va : ℕ}

/-! ### Fork -/

/-- A call of `do_clone` without `CLONE_VM` and `CLONE_THREAD` that gets a process and a thread,
has memory for the child and for one page fault, and can copy the identifier. -/
structure ForkNeeds (k : Kernel) (p np : ProcId) (a : CloneArgs) : Prop where
  thread : a.thread = false
  vm : a.vm = false
  proc : a.np = some np
  unused : (k.proc np).state = .unused
  tcb : a.tcb = true
  -- the bare table and the trap frame of the child take four pages, and a page fault four at most
  free : tablePages (pages (k.proc p).sz) + 8 ≤ k.mem.free
  vmas : (k.proc p).vmas.length ≤ a.vmaPages
  tids : (∀ x ∈ a.ctid, Writable k p x) ∧ ∀ x ∈ a.ptid, Writable k p x

/-- At the private addresses the child reads what its parent reads. -/
def SameBytes (k : Kernel) (p np : ProcId) : Prop :=
  ∀ va x k1, PrivateAddr k p va → userLoad k p va = .ok (x, k1) →
    ∃ k2, userLoad k np va = .ok (x, k2)

/-- **The call is a fork.** It returns, the child reads what its parent reads, and in every
state that later calls lead to, the stores of one are not seen by the other. -/
def ForkOk (k : Kernel) (p np : ProcId) (a : CloneArgs) : Prop :=
  ∃ k', doClone k p a = .ok (true, k') ∧ SameBytes k' p np ∧
    ∀ as k'', spaceMachine.Along Careful k' as → spaceMachine.exec k' as = some k'' →
      (k''.proc p).state = .used → (k''.proc np).state = .used →
      Isolated k'' p np ∧ Isolated k'' np p

/-- A byte after the identifier of the new thread has been stored. -/
def tidByte (addr : Option ℕ) (tid : BitVec 32) (va : ℕ) (old : UInt8) : UInt8 :=
  match addr with
  | none => old
  | some x => if x ≤ va ∧ va < x + 4 then (intBytes tid).getD (va - x) 0 else old

/-- The bytes of private mappings that are in memory, with the identifier stored, are those that
a page fault reads. -/
def Untouched (k : Kernel) (p : ProcId) (a : CloneArgs) : Prop :=
  ∀ w ∈ (k.proc p).vmas, w.flags &&& MAP_SHARED = 0 → ∀ va, w.start ≤ va → va < w.stop →
    ∀ T e, k.table p = some T → T.pte (vpn va) = some e → e.u = true → e.r = true →
      ∃ r, findVma (vpn va * PGSIZE) (k.proc p).vmas = some r ∧ r.2.1.prot &&& PROT_READ ≠ 0 ∧
        tidByte a.ptid a.tid va (tidByte a.ctid a.tid va (k.mem.bytes e.frame (va % PGSIZE))) =
          freshByte k r.2.1 va

/-! ### The bytes after the identifier is stored -/

variable {addr : Option ℕ} {tid : BitVec 32} {v n off : ℕ} {e : Pte}

theorem storeTid_bytes (hc : Core k)
    (hT : k.table p = some T) (h : storeTid k p addr tid = .ok (true, k'))
    (he : T.pte v = some e) (hn : e.frame = .page n) (hoff : off < PGSIZE) :
    k'.mem.data n off = tidByte addr tid (v * PGSIZE + off) (k.mem.data n off) := by
  obtain _ | x := addr
  · cases h
    rfl
  obtain ⟨T', hT', h⟩ := Kernel.bind_space_ok.1 h
  obtain rfl := Option.some.inj (hT'.symm.trans hT)
  have hbytes : (copyout ⟨k.mem, T'⟩ x (intBytes tid)).1 = true →
      (copyout ⟨k.mem, T'⟩ x (intBytes tid)).2.mem.data n off =
        tidByte (some x) tid (v * PGSIZE + off) (k.mem.data n off) := by
    intro hok
    refine (copyoutLoop_bytes (hc.simple hT) (Nat.le_refl _) hok he hn hoff).trans ?_
    rw [intBytes_length]
    rfl
  generalize copyout ⟨k.mem, T'⟩ x (intBytes tid) = r at h hbytes
  obtain ⟨hcopied, rfl⟩ := Prod.mk.inj (Except.ok.inj h)
  exact hbytes hcopied

theorem storeTids_bytes (hc : Core k) (hT : k.table p = some T)
    (hwf : T.Wf) (h : storeTids k p a = .ok (true, k')) (he : T.pte v = some e)
    (hn : e.frame = .page n) (hoff : off < PGSIZE) :
    k'.mem.data n off = tidByte a.ptid a.tid (v * PGSIZE + off)
      (tidByte a.ctid a.tid (v * PGSIZE + off) (k.mem.data n off)) := by
  obtain ⟨⟨copied, k1⟩, h1, h⟩ := bind_eq_ok.1 h
  obtain _ | _ := copied
  · cases h
  obtain ⟨hquiet, -⟩ := storeTid_ok hc (fun T' hT' => by
    rw [Option.some.inj (hT'.symm.trans hT)]
    exact hwf) h1
  have hT1 : k1.table p = some T := by rw [hquiet.table, hT]
  rw [storeTid_bytes (hc.quiet hquiet) hT1 h he hn hoff, storeTid_bytes hc hT h1 he hn hoff]

/-! ### The kernel after the call -/

variable {b : Bool}

theorem allocproc_file (h : allocproc k np = .ok k') : k'.file = k.file := by
  obtain ⟨⟨T, m⟩, -, h⟩ := bind_eq_ok.1 h
  cases h
  cases T with
  | none => rfl
  | some T => rfl

theorem procJoinThread_file {t : Tcb} (h : procJoinThread k np = .ok (t, k')) :
    k'.file = k.file := by
  obtain ⟨S, -, h⟩ := bind_eq_ok.1 h
  obtain ⟨⟨tf, S1⟩, -, h⟩ := bind_eq_ok.1 h
  cases h
  rfl

theorem storeTid_file (h : storeTid k p addr tid = .ok (b, k')) : k'.file = k.file := by
  obtain _ | x := addr
  · cases h
    rfl
  obtain ⟨S, -, h⟩ := bind_eq_ok.1 h
  cases h
  rfl

theorem storeTids_file (h : storeTids k p a = .ok (b, k')) : k'.file = k.file := by
  obtain ⟨⟨copied, k1⟩, h1, h⟩ := bind_eq_ok.1 h
  cases copied with
  | true => exact (storeTid_file h).trans (storeTid_file h1)
  | false =>
    cases h
    exact storeTid_file h1

theorem cloneSpace_file (h : cloneSpace k p np false = .ok (true, k')) : k'.file = k.file := by
  obtain ⟨S0, -, h⟩ := bind_eq_ok.1 h
  obtain ⟨S1, -, h⟩ := bind_eq_ok.1 h
  obtain ⟨⟨copied, S2⟩, -, h⟩ := bind_eq_ok.1 h
  cases h
  rfl

theorem cloneProc_rest (hk : Inv k) (hs : (k.proc p).state = .used)
    (hnp : (k.proc np).state = .unused) (hvm : a.vm = false)
    (hfree : tablePages (pages (k.proc p).sz) + 4 ≤ k.mem.free)
    (h : cloneProc k p np a = .ok (true, k')) :
    k'.file = k.file ∧ k.mem.free ≤ k'.mem.free + (tablePages (pages (k.proc p).sz) + 4) := by
  obtain ⟨k0, t, k1, k2, k3, k4, h0, h1, -, h2, h3, h4, rfl⟩ := cloneProc_true h
  rw [hvm] at h3
  obtain ⟨vs, rfl⟩ := procCopyVma_setProc h4
  refine ⟨?_, ?_⟩
  · exact (cloneSpace_file h3).trans ((storeTids_file h2).trans
      ((procJoinThread_file h1).trans (allocproc_file h0)))
  · obtain ⟨_, _, _, _, _, h0', h1', -, h2', -, -, _, h3', -, hmem⟩ :=
      cloneProc_start (a := a) hk hs hnp hfree
    obtain rfl := Except.ok.inj (h0.symm.trans h0')
    obtain ⟨rfl, rfl⟩ := Prod.mk.inj (Except.ok.inj (h1.symm.trans h1'))
    obtain ⟨-, rfl⟩ := Prod.mk.inj (Except.ok.inj (h2.symm.trans h2'))
    obtain ⟨-, rfl⟩ := Prod.mk.inj (Except.ok.inj (h3.symm.trans h3'))
    exact hmem

variable {w : Vma}

theorem vma_page {P : Proc} (ha : Area P) (hw : w ∈ P.vmas) (hlo : w.start ≤ va)
    (hhi : va < w.stop) : 66846713 ≤ vpn va ∧ vpn va < 67108857 := by
  obtain ⟨hend, -, hmax⟩ := ha.vmas w hw
  rw [mmap_end_eq] at hend
  rw [mmap_max_eq] at hmax
  simp only [vpn, PGSIZE] at hend hmax ⊢
  omega

/-- **The kernel after a fork**, as far as the loads of the two processes go. -/
structure Forked (k : Kernel) (p np : ProcId) (a : CloneArgs) (T T' : Table) (k' : Kernel) :
    Prop where
  core : Core k'
  free : 4 ≤ k'.mem.free
  file : k'.file = k.file
  table : k'.table p = some T
  sz : (k'.proc p).sz = (k.proc p).sz
  vmas : (k'.proc p).vmas = (k.proc p).vmas
  childTable : k'.table np = some T'
  childVmas : (k'.proc np).vmas = (k.proc p).vmas
  low : ∀ i < pages (k.proc p).sz, ∃ e m, T.pte i = some e ∧
    T'.pte i = some { e with frame := .page m } ∧ k'.mem.data m = k'.mem.bytes e.frame
  high : ∀ w ∈ (k.proc p).vmas, ∀ va, w.start ≤ va → va < w.stop → T'.pte (vpn va) = none
  bytes : ∀ w ∈ (k.proc p).vmas, ∀ va, w.start ≤ va → va < w.stop →
    ∀ e, T.pte (vpn va) = some e → k'.mem.bytes e.frame (va % PGSIZE) =
      tidByte a.ptid a.tid va (tidByte a.ctid a.tid va (k.mem.bytes e.frame (va % PGSIZE)))

theorem Shape.page_of_vma {P : Proc} (h : Shape T P.sz P.threads P.vmas)
    (ha : Area P) (hsz : pages P.sz ≤ 131072) (hw : w ∈ P.vmas) (hlo : w.start ≤ va)
    (hhi : va < w.stop) (he : T.pte (vpn va) = some e) : ∃ n, e.frame = .page n := by
  obtain ⟨hge, hlt⟩ := vma_page ha hw hlo hhi
  obtain hv | hv | ⟨t, ht, hv⟩ | hv | ⟨-, hpage⟩ := h.only _ e he
  · rw [vpn_tramp] at hv
    omega
  · rw [vpn_sig] at hv
    omega
  · obtain ⟨n, -, hframe⟩ := h.frame t ht
    rw [← hv, he] at hframe
    exact ⟨n, by rw [Option.some.inj hframe]; rfl⟩
  · omega
  · exact hpage

theorem cloneProc_forked (hk : Inv k) (hs : (k.proc p).state = .used)
    (hneeds : ForkNeeds k p np a) (hT : k.table p = some T)
    (h : cloneProc k p np a = .ok (true, k')) :
    (∀ w ∈ (k.proc p).vmas, w.file ≠ none) ∧ ∃ T', Forked k p np a T T' k' := by
  obtain ⟨T0, hT0, hshape, hgroup, harea⟩ := hk.running hs
  obtain rfl := Option.some.inj (hT0.symm.trans hT)
  have hsz := hk.core.pages_le hT hshape
  have hne := ne_of_unused hs hneeds.unused
  obtain ⟨T1, T', n, k1, k2, hT1, hT', hfiles, hshape', hpages, hc1, ha1, hkeeps1, h2, ha2, hkeeps2,
    hc', hproc⟩ := cloneProc_ok hk hs hneeds.unused hneeds.vm h
  obtain rfl := Option.some.inj (hT1.symm.trans hT)
  have hTp1 : k1.table p = some T1 := by rw [ha1.table p hne, hT]
  obtain ⟨hquiet, -⟩ := storeTids_ok hc1 (fun T'' hT'' => by
    rw [Option.some.inj (hT''.symm.trans hTp1)]
    exact hshape.wf) h2
  have hrec : k'.proc p = { k.proc p with parent := (k'.proc p).parent } := by
    rw [ha2.proc p hne, hquiet.proc, ha1.proc p hne]
  have hmore := hneeds.free
  obtain ⟨hfile, hfree⟩ := cloneProc_rest hk hs hneeds.unused hneeds.vm (by omega) h
  refine ⟨hfiles, T', hc', by omega, hfile, ?_, by rw [hrec], by rw [hrec], hT', by rw [hproc]; rfl,
    hpages, fun w hw va hlo hhi => ?_, fun w hw va hlo hhi e he => ?_⟩
  · rw [ha2.table p hne, hquiet.table, hTp1]
  · obtain ⟨hge, hlt⟩ := vma_page harea hw hlo hhi
    refine Option.eq_none_iff_forall_ne_some.2 fun e he => ?_
    obtain hv | hv | ⟨t, ht, hv⟩ | hv | ⟨⟨w', hw', -⟩, -⟩ := hshape'.only _ e he
    · rw [vpn_tramp] at hv
      omega
    · rw [vpn_sig] at hv
      omega
    · obtain rfl := List.mem_singleton.1 ht
      rw [slot_eq (by norm_num)] at hv
      dsimp only at hv
      omega
    · omega
    · cases hw'
  · obtain ⟨m, hm⟩ := hshape.page_of_vma harea hsz hw hlo hhi he
    have hpage := hk.core.page_lt hT (Table.one_le_refs he hm)
    have hnext : m < k2.mem.next := by
      rw [hquiet.next]
      exact hpage.1.trans_le ha1.le.next
    have hoff : va % PGSIZE < PGSIZE := Nat.mod_lt _ (by decide)
    have hva : vpn va * PGSIZE + va % PGSIZE = va := Nat.div_add_mod' va PGSIZE
    have hstored := storeTids_bytes hc1 hTp1 hshape.wf h2 he hm hoff
    rw [hva, hkeeps1 m hpage.1, ← hkeeps2 m hnext] at hstored
    rw [hm]
    exact hstored

/-! ### When the child reads what its parent reads -/

theorem Forked.freshByte_eq (h : Forked k p np a T T' k') (w : Vma) (va : ℕ) :
    freshByte k' w va = freshByte k w va := by
  rw [freshByte, freshByte, faultBytes, faultBytes, h.file]

variable {x : UInt8}

section

variable (h : Forked k p np a T T' k')
include h

/-- Below the size the child reads what its parent reads. -/
theorem Forked.load_low {k1 : Kernel}
    (hva : va < (k.proc p).sz) (hload : userLoad k' p va = .ok (x, k1)) :
    userLoad k' np va = .ok (x, k') := by
  have hle : vpn va * PGSIZE ≤ va := Nat.div_mul_le_self va PGSIZE
  obtain ⟨e, m, he, he', hdata⟩ := h.low (vpn va) (lt_pages.2 (hle.trans_lt hva))
  obtain ⟨hperm, hx, -⟩ := (userLoad_mapped h.table he).1 hload
  refine (userLoad_mapped h.childTable he').2 ⟨hperm, ?_, rfl⟩
  rw [hx, ← hdata]
  rfl

/-- In a mapping the child reads what the page fault handler reads. -/
theorem Forked.load_high {r : List Vma × Vma × List Vma}
    (ha : Area (k.proc p)) (hw : w ∈ (k.proc p).vmas) (hlo : w.start ≤ va) (hhi : va < w.stop)
    (hfind : findVma (vpn va * PGSIZE) (k.proc p).vmas = some r)
    (hread : r.2.1.prot &&& PROT_READ ≠ 0) :
    ∃ k2, userLoad k' np va = .ok (freshByte k r.2.1 va, k2) := by
  have hv : vpn va < vpn MAXVA := (vma_page ha hw hlo hhi).2.trans (by decide)
  rw [← h.childVmas] at hfind
  rw [← h.freshByte_eq]
  exact userLoad_fault_total h.core h.childTable (h.high w hw va hlo hhi) hv hfind hread h.free

/-- **The child reads what its parent reads** if and only if the parent has not changed the
private mappings. -/
theorem Forked.sameBytes_iff (hT : k.table p = some T)
    (ha : Area (k.proc p)) : SameBytes k' p np ↔ Untouched k p a := by
  constructor
  · intro hsame w hw hprivate va hlo hhi T1 e hT1 he hu hr
    obtain rfl := Option.some.inj (hT1.symm.trans hT)
    have haddr : PrivateAddr k' p va := .inr ⟨w, by rw [h.vmas]; exact hw, hprivate, hlo, hhi⟩
    obtain ⟨k2, hchild⟩ :=
      hsame va _ k' haddr ((userLoad_mapped h.table he).2 ⟨⟨hu, hr⟩, rfl, rfl⟩)
    obtain ⟨r, hfind, hread, hx⟩ :=
      userLoad_fault h.core h.childTable (h.high w hw va hlo hhi) hchild
    rw [h.childVmas] at hfind
    refine ⟨r, hfind, hread, ?_⟩
    rw [← h.bytes w hw va hlo hhi e he, hx, h.freshByte_eq]
  · rintro huntouched va x k1 (hva | ⟨w, hw, hprivate, hlo, hhi⟩) hload
    · rw [h.sz] at hva
      exact ⟨k', h.load_low hva hload⟩
    · rw [h.vmas] at hw
      cases he : T.pte (vpn va) with
      | none =>
        obtain ⟨r, hfind, hread, rfl⟩ := userLoad_fault h.core h.table he hload
        rw [h.vmas] at hfind
        rw [h.freshByte_eq]
        exact h.load_high ha hw hlo hhi hfind hread
      | some e =>
        obtain ⟨⟨hu, hr⟩, rfl, -⟩ := (userLoad_mapped h.table he).1 hload
        obtain ⟨r, hfind, hread, hx⟩ := huntouched w hw hprivate va hlo hhi T e hT he hu hr
        rw [h.bytes w hw va hlo hhi e he, hx]
        exact h.load_high ha hw hlo hhi hfind hread

end

/-! ### Fork along runs -/

theorem ForkNeeds.doClone_eq (h : ForkNeeds k p np a) : doClone k p a = cloneProc k p np a := by
  rw [doClone, h.thread, h.proc]
  rfl

theorem ForkNeeds.reach (h : ForkNeeds k p np a) (hk : spaceMachine.Reach Careful k)
    (hs : (k.proc p).state = .used) (hclone : doClone k p a = .ok (true, k')) :
    spaceMachine.Reach Careful k' := by
  obtain ⟨-, -, -, hgroup, -⟩ := (inv_of_reach hk).running hs
  obtain ⟨t, ht⟩ := List.exists_mem_of_ne_nil _ hgroup.exist
  have hcareful : CarefulClone k p a := by
    rw [CarefulClone, if_neg (by simp [h.thread])]
    exact ⟨h.vm, fun _ _ => ⟨Nat.le_trans (by omega) h.free, h.vmas⟩⟩
  have hsupplied : (Call.clone a).supplied k p = true := by
    simp only [Call.supplied, h.proc, Option.all_some, decide_eq_true_eq]
    exact h.unused
  have hperform : (doClone k p a).map Prod.snd = .ok k' := by
    rw [hclone]
    rfl
  exact hk.step (a := ⟨p, t, .clone a⟩) hcareful
    (mem_spaceMachine_step.2 ⟨Act.enabled_iff.2 ⟨hs, ht, hsupplied⟩, hperform⟩)

/-- **When a call is a fork.** After every careful run, a call that has what it needs is a fork
if and only if every mapping has a file, and the bytes of private mappings that are in memory
are those that a page fault reads. -/
theorem fork_iff (h : spaceMachine.Reach Careful k) (hs : (k.proc p).state = .used)
    (hneeds : ForkNeeds k p np a) :
    ForkOk k p np a ↔ (∀ w ∈ (k.proc p).vmas, w.file ≠ none) ∧ Untouched k p a := by
  have hk := inv_of_reach h
  obtain ⟨T, hT, -, -, harea⟩ := hk.running hs
  constructor
  · rintro ⟨k', hclone, hsame, -⟩
    rw [hneeds.doClone_eq] at hclone
    obtain ⟨hfiles, T', hforked⟩ := cloneProc_forked hk hs hneeds hT hclone
    exact ⟨hfiles, (hforked.sameBytes_iff hT harea).1 hsame⟩
  · rintro ⟨hfiles, huntouched⟩
    obtain ⟨k', hclone⟩ := cloneProc_total hk hs hneeds.unused hneeds.vm hneeds.tcb
      (Nat.le_trans (by omega) hneeds.free) hneeds.vmas hfiles hneeds.tids
    obtain ⟨-, T', hforked⟩ := cloneProc_forked hk hs hneeds hT hclone
    rw [← hneeds.doClone_eq] at hclone
    refine ⟨k', hclone, (hforked.sameBytes_iff hT harea).2 huntouched,
      fun as k'' halong hexec hp hnp => ?_⟩
    have hk'' := inv_of_reach ((hneeds.reach h hs hclone).exec_along halong hexec)
    have hne := ne_of_unused hs hneeds.unused
    exact ⟨isolated_of_inv hk'' hp hnp hne.symm, isolated_of_inv hk'' hnp hp hne⟩

/-- A fork of the first process. -/
def forkArgs : CloneArgs := ⟨false, false, none, none, some childProc, true, 1, 1⟩

/-- A private mapping of one page, of the file or of none. -/
def mapPage (fp : Option ℕ) : Act :=
  initAct (.mmap 4096 3 (if fp.isNone then 0x22 else 2) fp true)

theorem forkArgs_needs (h : (k.proc childProc).state = .unused ∧
    tablePages (pages (k.proc initproc).sz) + 8 ≤ k.mem.free ∧ (k.proc initproc).vmas.length ≤ 1) :
    ForkNeeds k initproc childProc forkArgs :=
  ⟨rfl, rfl, rfl, h.1, rfl, h.2.1, h.2.2, by rintro _ ⟨⟩, by rintro _ ⟨⟩⟩

/-- A fork with a private mapping of a file whose page has not been read. -/
theorem fork_file : ∃ k, spaceMachine.Reach Careful k ∧ (k.proc initproc).vmas.length = 1 ∧
    ForkNeeds k initproc childProc forkArgs ∧ ForkOk k initproc childProc forkArgs := by
  obtain ⟨k, hk, hused, hneeds, hvmas, hpte⟩ : ∃ k ∈ spaceMachine.exec smallStart [mapPage (some 0)],
      (k.proc initproc).state = .used ∧ ((k.proc childProc).state = .unused ∧
        tablePages (pages (k.proc initproc).sz) + 8 ≤ k.mem.free ∧ (k.proc initproc).vmas.length ≤ 1) ∧
      (k.proc initproc).vmas = [⟨274877874176, 274877878272, 3, 2, some 0⟩] ∧
      (k.table initproc).bind (·.pte 67108856) = none := by decide +kernel
  have hneeds := forkArgs_needs hneeds
  have hreach : spaceMachine.Reach Careful k :=
    (Machine.Reach.init smallStart_init).exec_along (by decide +kernel) hk
  refine ⟨k, hreach, by rw [hvmas]; rfl, hneeds, (fork_iff hreach hused hneeds).2 ⟨?_, ?_⟩⟩
  · intro w hw
    rw [hvmas] at hw
    rw [List.mem_singleton.1 hw]
    exact Option.some_ne_none _
  · intro w hw _ va hlo hhi T e hT he
    rw [hvmas] at hw
    obtain rfl := List.mem_singleton.1 hw
    have hv : vpn va = 67108856 := by
      simp only [vpn, PGSIZE] at hlo hhi ⊢
      omega
    rw [hT, Option.bind_some, ← hv, he] at hpte
    cases hpte

/-- The byte that a load returns. -/
def loaded (k : Kernel) (p : ProcId) (va : ℕ) : Option UInt8 :=
  (userLoad k p va).toOption.map Prod.fst

theorem loaded_eq_some : loaded k p va = some x ↔
    ∃ k1, userLoad k p va = .ok (x, k1) := by
  rw [loaded]
  cases userLoad k p va with
  | ok r => simp [Except.toOption, Prod.ext_iff]
  | error e => simp [Except.toOption]

/-- **Calls that are no forks.** With an anonymous mapping the kernel faults in
`proc_copy_vma`. With a private mapping of an empty file, of which the parent has written the
first byte, the child reads zero there. -/
theorem fork_faults_or_loses :
    (∃ k, spaceMachine.Reach Careful k ∧ ForkNeeds k initproc childProc forkArgs ∧
      doClone k initproc forkArgs = .error .nullFile ∧ ¬ ForkOk k initproc childProc forkArgs) ∧
    ∃ k', spaceMachine.exec smallStart
        [mapPage (some 0), initAct (.store 274877874176 1), initAct (.clone forkArgs)] = some k' ∧
      (k'.proc initproc).vmas = [⟨274877874176, 274877878272, 3, 2, some 0⟩] ∧
      loaded k' initproc 274877874176 = some 1 ∧ loaded k' childProc 274877874176 = some 0 ∧
      ¬ SameBytes k' initproc childProc := by
  refine ⟨?_, ?_⟩
  · obtain ⟨k, hk, hneeds, hpanic⟩ : ∃ k ∈ spaceMachine.exec smallStart [mapPage none],
        ((k.proc childProc).state = .unused ∧ tablePages (pages (k.proc initproc).sz) + 8 ≤ k.mem.free ∧
          (k.proc initproc).vmas.length ≤ 1) ∧
        panicOf (doClone k initproc forkArgs) = some .nullFile := by decide +kernel
    have hfault := panicOf_eq_some.1 hpanic
    refine ⟨k, (Machine.Reach.init smallStart_init).exec_along (by decide +kernel) hk,
      forkArgs_needs hneeds, hfault, ?_⟩
    rintro ⟨k', hclone, -⟩
    rw [hfault] at hclone
    cases hclone
  · obtain ⟨k', hk, hvmas, hparent, hchild⟩ : ∃ k ∈ spaceMachine.exec smallStart
        [mapPage (some 0), initAct (.store 274877874176 1), initAct (.clone forkArgs)],
        (k.proc initproc).vmas = [⟨274877874176, 274877878272, 3, 2, some 0⟩] ∧
        loaded k initproc 274877874176 = some 1 ∧
        loaded k childProc 274877874176 = some 0 := by decide +kernel
    refine ⟨k', hk, hvmas, hparent, hchild, fun hsame => ?_⟩
    have haddr : PrivateAddr k' initproc 274877874176 := by
      refine .inr ⟨⟨274877874176, 274877878272, 3, 2, some 0⟩, ?_, by decide, by decide, by decide⟩
      rw [hvmas]
      exact List.mem_singleton_self _
    obtain ⟨k1, hload⟩ := loaded_eq_some.1 hparent
    rw [loaded_eq_some.2 (hsame _ 1 k1 haddr hload)] at hchild
    cases hchild

end XVapor.Vm
