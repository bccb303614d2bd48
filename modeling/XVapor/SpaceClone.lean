import XVapor.PageTableTotal
import XVapor.SpaceThreads

/-!
# New Processes

`do_clone` without `CLONE_THREAD`, and `userinit`, keep the invariant of the address spaces.

A new process has a page table of its own with copies of the pages below the size of its
parent, and the mappings of its parent with no page in them. Without `CLONE_VM` nothing of the
parent changes but the bytes of the identifier.

A call that fails after the new thread has been made takes it off the count of the parent. The
results are about the calls that do not fail then.
-/

namespace XVapor.Vm

open Function
open Files (ProcId ProcState)
open Space

variable {k k' k1 k2 : Kernel} {p q np : ProcId} {S S' : Space} {T : Table} {t : Tcb}

/-! ### A process with one thread -/

/-- The record that `allocproc` makes. -/
def Proc.fresh (P : Proc) (pagetable : Option ℕ) : Proc :=
  { P with
    state := .used, pagetable, vmas := [], maxVma := MMAP_MAX_ADDR_START, threads := [],
    ghosts := 0, threadCnt := 0, threadIdx := 0, leader := none }

theorem Core.root_ne (hc : Core k) {r : ℕ} (hr : r = k.mem.next) :
    (k.proc q).pagetable ≠ some r := by
  intro hq
  obtain ⟨T, hT, rfl⟩ := hc.key q r hq
  have hlt := (hc.page_lt hT T.one_le_refs_root).1
  omega

theorem allocproc_ok (hc : Core k) (hpt : (k.proc q).pagetable = none)
    (h : allocproc k q = .ok k') :
    Core k' ∧ Apart q k k' ∧
      (k'.table q = none ∧ k.mem.free ≤ 2 ∧ k'.proc q = (k.proc q).fresh none ∨
        ∃ T, k'.table q = some T ∧ T.Wf ∧ T.pte = bareEntries ∧ k.mem.Keeps k'.mem ∧
          k.mem.free = k'.mem.free + 3 ∧ k'.proc q = (k.proc q).fresh (some T.root)) := by
  have htable : k.table q = none := by rw [Kernel.table, hpt]; rfl
  obtain ⟨⟨o, m⟩, h1, h⟩ := bind_eq_ok.1 h
  obtain ⟨hle, ⟨rfl, hfree, hlive⟩ | ⟨T, rfl, hroot, hwf, hpte, hkeeps, hfree, hrefs⟩⟩ :=
    procPagetable_ok h1
  · obtain rfl : Kernel.setProc { k with mem := m } q ((k.proc q).fresh none) = k' :=
      Except.ok.inj h
    have hmem : Apart q k { k with mem := m } := ⟨hle, fun _ _ => rfl, fun _ _ => rfl⟩
    have ha := hmem.trans (.setProc ((k.proc q).fresh none))
    obtain ⟨hc', hnone⟩ := hc.drop ha (by rw [Kernel.setProc_self]; rfl) fun n => by
      rw [htable, owned_none, sub_zero]
      exact hlive n
    exact ⟨hc', ha, .inl ⟨hnone, hfree, Kernel.setProc_self _ _ _⟩⟩
  · obtain rfl : (k.put ⟨m, T⟩).setProc q ((k.proc q).fresh (some T.root)) = k' :=
      Except.ok.inj h
    have hself : ((k.put ⟨m, T⟩).setProc q ((k.proc q).fresh (some T.root))).table q = some T := by
      rw [Kernel.setProc_table_self]
      exact AList.lookup_insert _
    have hput : Apart q k (k.put ⟨m, T⟩) := .put hle fun q' _ => hc.root_ne hroot
    have ha := hput.trans (.setProc ((k.proc q).fresh (some T.root)))
    refine ⟨hc.update ha (fun r hr => ⟨T, hself, ?_⟩) (fun q' r _ hr => ?_) fun n => ?_, ha,
      .inr ⟨T, hself, hwf, hpte, hkeeps, hfree, Kernel.setProc_self _ _ _⟩⟩
    · rw [Kernel.setProc_self] at hr
      exact Option.some.inj hr
    · rw [Kernel.setProc_self] at hr
      exact hc.root_ne ((Option.some.inj hr).symm.trans hroot)
    · rw [htable, owned_none, sub_zero, hself, owned_some, hrefs]
      dsimp only [Kernel.setProc_mem, Kernel.put_mem]
      omega

/-- The record of a new process with its first thread. -/
def Proc.started (P : Proc) (root n : ℕ) : Proc :=
  { P with
    state := .used, pagetable := some root, vmas := [], maxVma := MMAP_MAX_ADDR_START,
    threads := [⟨0, some n⟩], ghosts := 0, threadCnt := 1, threadIdx := 1, leader := some 0 }

theorem spawn_ok (hc : Core k) (hpt : (k.proc q).pagetable = none)
    (h1 : allocproc k q = .ok k1) (h2 : procJoinThread k1 q = .ok (t, k2)) :
    t.trapframe = none ∧ k.mem.free ≤ 3 ∨
      ∃ n T, t = ⟨0, some n⟩ ∧ k.mem.free = k2.mem.free + 4 ∧ Core k2 ∧ Apart q k k2 ∧
        k.mem.Keeps k2.mem ∧ k2.table q = some T ∧ Shape T 0 [t] [] ∧
        k2.proc q = (k.proc q).started T.root n := by
  obtain ⟨hc1, ha1, hcase⟩ := allocproc_ok hc hpt h1
  obtain ⟨hnone, -, -⟩ | ⟨T, hT, hwf, hpte, hkeeps, hfree, hproc⟩ := hcase
  · -- without a page table the new thread has no place for its trap frame
    obtain ⟨S, h0, -⟩ := bind_eq_ok.1 h2
    obtain ⟨T, hT, -⟩ := Kernel.space_eq_ok.1 h0
    rw [hnone] at hT
    cases hT
  · have hslot : T.lacks (slot (k1.proc q).threadIdx) = 0 := by
      rw [hproc]
      exact hwf.lacks_slot (by rw [hpte]; rfl)
    obtain ⟨hnone, hlow⟩ |
        ⟨n, T', rfl, -, hold, hwf', hpte', hfree', hc2, ha2, hkeeps', hT', hproc'⟩ :=
      procJoinThread_ok hc1 hT h2
    · exact .inl ⟨hnone, by omega⟩
    · rw [hproc] at hold hpte' hproc' ⊢
      refine .inr ⟨n, T', rfl, by omega, hc2, ha1.trans ha2, fun i hi => ?_, hT',
        (Shape.bare hwf hpte).addThread (hwf' hwf) hold hpte', ?_⟩
      · rw [hkeeps' i (hi.trans_le ha1.le.next), hkeeps i hi]
      · have hroot := hc2.root hT'
        have hroot1 : (k2.proc q).pagetable = some T.root := by rw [hproc']; rfl
        rw [hproc', Option.some.inj (hroot.symm.trans hroot1)]
        rfl

/-! ### The copy of an address space -/

variable {sz n : ℕ} {ths : List Tcb}

theorem Shape.uvmcopy {old : Table} (h : Shape S.tbl 0 ths []) (hwf : S'.tbl.Wf)
    (hin : ∀ i < pages sz, S.tbl.pte i = none ∧ ∃ e n, old.pte i = some e ∧
      S'.tbl.pte i = some { e with frame := .page n } ∧
      S'.mem.data n = S.mem.bytes e.frame ∧ S.mem.next ≤ n)
    (hout : ∀ i, pages sz ≤ i → S'.tbl.pte i = S.tbl.pte i) : Shape S'.tbl sz ths [] := by
  refine h.extend hwf (fun i e hi => ?_) (fun i e hi hold => ?_) (fun t ht => .inl ht)
    (fun i hi => ?_) (fun _ ht => ht) (by simp) fun _ hw => hw
  · rwa [hout i (not_lt.1 fun hlt => by simp [(hin i hlt).1] at hi)]
  · by_cases hlt : i < pages sz
    · exact .inr (.inr (.inr (.inl hlt)))
    · rw [hout i (not_lt.1 hlt), hold] at hi
      cases hi
  · obtain ⟨-, e, n, -, he, -⟩ := hin i hi
    exact .inr ⟨_, n, he, rfl⟩

variable {vmas : List Vma} {b : Bool}

theorem procCopyVma_setProc (h : procCopyVma np k n vmas = .ok (b, k')) :
    ∃ vs, k' = k.setProc np { k.proc np with vmas := vs } := by
  have hrefl : k = k.setProc np { k.proc np with vmas := (k.proc np).vmas } := by
    simp [Kernel.setProc]
  induction vmas generalizing k n with
  | nil =>
    rw [procCopyVma] at h
    cases h
    exact ⟨_, hrefl⟩
  | cons w ws ih =>
    cases n with
    | zero =>
      cases h
      exact ⟨_, hrefl⟩
    | succ n =>
      rw [procCopyVma] at h
      split at h
      · cases h
      obtain ⟨vs, rfl⟩ := ih h (by simp [Kernel.setProc])
      exact ⟨vs, by simp [Kernel.setProc]⟩

theorem procCopyVma_ok (h : procCopyVma np k n vmas = .ok (b, k')) :
    (b = true → (∀ w ∈ vmas, w.file ≠ none) ∧
      k' = k.setProc np { k.proc np with vmas := (k.proc np).vmas ++ vmas }) ∧
    (b = false → n < vmas.length) := by
  induction vmas generalizing k n with
  | nil =>
    rw [procCopyVma] at h
    cases h
    refine ⟨fun _ => ⟨by simp, ?_⟩, by simp⟩
    simp only [List.append_nil, Kernel.setProc, update_eq_self]
  | cons w vmas ih =>
    cases n with
    | zero =>
      cases h
      exact ⟨by simp, fun _ => by simp⟩
    | succ n =>
      rw [procCopyVma] at h
      split at h
      · cases h
      rename_i f hf
      obtain ⟨htrue, hfalse⟩ := ih h
      refine ⟨fun hb => ?_, fun hb => ?_⟩
      · obtain ⟨hfiles, hk'⟩ := htrue hb
        refine ⟨fun w' hw' => ?_, ?_⟩
        · rcases List.mem_cons.1 hw' with rfl | hw'
          · simp [hf]
          · exact hfiles w' hw'
        · rw [hk', Kernel.setProc_self, Kernel.setProc, Kernel.setProc, Kernel.setProc]
          simp only [update_idem, List.append_assoc, List.singleton_append]
      · have hlt := hfalse hb
        simp only [List.length_cons]
        omega

variable {T' : Table}

theorem cloneSpace_ok (hc : Core k)
    (hT : k.table p = some T) (hT' : k.table np = some T') (hshape : Shape T' 0 ths [])
    (h : cloneSpace k p np false = .ok (b, k')) :
    Core k' ∧ Apart np k k' ∧ k.mem.Keeps k'.mem ∧ k'.proc = k.proc ∧
      (b = true → ∃ T'', k'.table np = some T'' ∧ Shape T'' (k.proc p).sz ths [] ∧
        ∀ i < pages (k.proc p).sz, ∃ e n, T.pte i = some e ∧
          T''.pte i = some { e with frame := .page n } ∧
          k'.mem.data n = k'.mem.bytes e.frame) := by
  have hlt : ∀ i e n, T.pte i = some e → e.frame = .page n → n < k.mem.next :=
    fun i e n hi hn => (hc.page_lt hT (Table.one_le_refs hi hn)).1
  simp only [cloneSpace, Bool.false_eq_true, if_false] at h
  replace h := (Kernel.bind_space hT).symm.trans h
  replace h := (Kernel.bind_space hT').symm.trans h
  obtain ⟨⟨c, S⟩, h2, h⟩ := bind_eq_ok.1 h
  cases h
  obtain ⟨hedit, hcase⟩ := uvmcopy_ok h2 hlt
  obtain ⟨hc', ha', ht'⟩ := hc.edit hT' hedit
  refine ⟨hc', ha', hedit.data, rfl, ?_⟩
  rintro rfl
  obtain ⟨hfalse, -⟩ | ⟨-, hin, hout⟩ := hcase
  · cases hfalse
  refine ⟨S.tbl, ht', Shape.uvmcopy hshape (hedit.wf hshape.wf) hin hout, fun i hi => ?_⟩
  obtain ⟨-, e, n, he, he', hdata, -⟩ := hin i hi
  exact ⟨e, n, he, he', hdata.trans (hedit.data.bytes fun j hj => hlt i e j he hj).symm⟩

/-! ### `do_clone` -/

/-- The record of the child. -/
def Proc.child (Q P : Proc) (p : ProcId) (root n : ℕ) : Proc :=
  { Q.started root n with vmas := P.vmas, sz := P.sz, ofile := P.ofile, parent := some p }

theorem ne_of_unused (hs : (k.proc p).state = .used) (hnp : (k.proc np).state = .unused) :
    p ≠ np := by
  rintro rfl
  rw [hs] at hnp
  cases hnp

variable {a : CloneArgs}

/-- **The steps of a call that succeeds.** -/
theorem cloneProc_true (h : cloneProc k p np a = .ok (true, k')) :
    ∃ k0 t k1 k2 k3 k4, allocproc k np = .ok k0 ∧ procJoinThread k0 np = .ok (t, k1) ∧
      t.trapframe ≠ none ∧ storeTids k1 p a = .ok (true, k2) ∧
      cloneSpace k2 p np a.vm = .ok (true, k3) ∧
      procCopyVma np k3 a.vmaPages (k3.proc p).vmas = .ok (true, k4) ∧
      k' = k4.setProc np { k4.proc np with
        sz := (k4.proc p).sz, ofile := (k4.proc p).ofile, parent := some p } := by
  obtain ⟨k0, h0, h⟩ := bind_eq_ok.1 h
  split at h
  · obtain ⟨k1, -, h⟩ := bind_eq_ok.1 h
    cases h
  obtain ⟨⟨t, k1⟩, h1, h⟩ := bind_eq_ok.1 h
  obtain ⟨htf, h⟩ := ite_error_ok.1 h
  obtain ⟨⟨stored, k2⟩, h2, h⟩ := bind_eq_ok.1 h
  obtain _ | _ := stored
  · obtain ⟨k3, -, h⟩ := bind_eq_ok.1 h
    cases h
  obtain ⟨⟨copied, k3⟩, h3, h⟩ := bind_eq_ok.1 h
  obtain _ | _ := copied
  · obtain ⟨k4, -, h⟩ := bind_eq_ok.1 h
    cases h
  obtain ⟨⟨copied, k4⟩, h4, h⟩ := bind_eq_ok.1 h
  cases copied with
  | false =>
    obtain ⟨k5, -, h⟩ := bind_eq_ok.1 h
    cases h
  | true =>
    cases h
    exact ⟨k0, t, k1, k2, k3, k4, h0, h1, htf, h2, h3, h4, rfl⟩

/-- **What `do_clone` makes** without `CLONE_THREAD` and `CLONE_VM`. In between are the states
`k1` and `k2` before and after the identifier is copied. -/
theorem cloneProc_ok (hk : Inv k) (hs : (k.proc p).state = .used)
    (hnp : (k.proc np).state = .unused) (hvm : a.vm = false)
    (h : cloneProc k p np a = .ok (true, k')) :
    ∃ T T' n k1 k2, k.table p = some T ∧ k'.table np = some T' ∧
      (∀ w ∈ (k.proc p).vmas, w.file ≠ none) ∧
      Shape T' (k.proc p).sz [⟨0, some n⟩] [] ∧
      (∀ i < pages (k.proc p).sz, ∃ e m, T.pte i = some e ∧
        T'.pte i = some { e with frame := .page m } ∧ k'.mem.data m = k'.mem.bytes e.frame) ∧
      Core k1 ∧ Apart np k k1 ∧ k.mem.Keeps k1.mem ∧ storeTids k1 p a = .ok (true, k2) ∧
      Apart np k2 k' ∧ k2.mem.Keeps k'.mem ∧
      Core k' ∧ k'.proc np = (k.proc np).child (k.proc p) p T'.root n := by
  obtain ⟨T, hT, hshape, hgroup, harea⟩ := hk.running hs
  obtain ⟨-, hpt, -⟩ := (hk.fits np).of_unused hnp
  have hne := ne_of_unused hs hnp
  obtain ⟨k0, t, k1, k2, k3, k4, h0, h1, htf, h2, h3, h4, rfl⟩ := cloneProc_true h
  obtain ⟨hnone, -⟩ | ⟨n, T1, rfl, -, hc1, ha1, hkeeps1, hT1, hshape1, hproc1⟩ :=
    spawn_ok hk.core hpt h0 h1
  · exact absurd hnone htf
  have hTp1 : k1.table p = some T := by rw [ha1.table p hne, hT]
  obtain ⟨hquiet, -⟩ := storeTids_ok hc1 (fun T' hT' => by
    rw [Option.some.inj (hT'.symm.trans hTp1)]
    exact hshape.wf) h2
  have hTp2 : k2.table p = some T := by rw [hquiet.table, hTp1]
  have hproc2 : (k2.proc p).sz = (k.proc p).sz ∧ (k2.proc p).vmas = (k.proc p).vmas ∧
      (k2.proc p).ofile = (k.proc p).ofile := by
    rw [hquiet.proc, ha1.proc p hne]
    exact ⟨rfl, rfl, rfl⟩
  rw [hvm] at h3
  obtain ⟨hc3, ha3, hkeeps3, hproc3, hcopy⟩ := cloneSpace_ok (hc1.quiet hquiet) hTp2
    (by rw [hquiet.table, hT1]) hshape1 h3
  rw [hproc2.1] at hcopy
  obtain ⟨T', hT', hshape', hpages⟩ := hcopy rfl
  obtain ⟨hfiles, hk4⟩ := (procCopyVma_ok h4).1 rfl
  have hroot : T'.root = T1.root := by
    have hr := hc3.root hT'
    rw [hproc3, hquiet.proc, hproc1] at hr
    exact (Option.some.inj hr).symm
  have hchild : k3.setProc np ((k.proc np).child (k.proc p) p T'.root n) =
      k4.setProc np { k4.proc np with
        sz := (k4.proc p).sz, ofile := (k4.proc p).ofile, parent := some p } := by
    rw [hk4, Kernel.setProc_setProc, Kernel.setProc_self, Kernel.setProc_ne _ _ hne,
      hproc3, hproc2.1, hproc2.2.1, hproc2.2.2, hquiet.proc, hproc1, hroot]
    rfl
  rw [← hchild]
  obtain ⟨hc5, ha5, ht5⟩ := hc3.setProc (p := np)
    (P := (k.proc np).child (k.proc p) p T'.root n) (by
      rw [hproc3, hquiet.proc, hproc1, hroot]
      rfl)
  refine ⟨T, T', n, k1, k2, hT, ht5.trans hT', ?_, hshape', hpages, hc1, ha1, hkeeps1,
    h2, ha3.trans ha5, hkeeps3, hc5, Kernel.setProc_self _ _ _⟩
  rw [hproc3, hproc2.2.1] at hfiles
  exact hfiles

theorem Proc.child_fits {Q P : Proc} (hP : Area P) (hshape : Shape T' P.sz [⟨0, some n⟩] []) :
    Fits (Q.child P p T'.root n) (some T') := by
  refine .used rfl (hshape.mono_vmas (by simp)) ⟨by simp [child, started], rfl, rfl, by
    simp [child, started], ?_, by simp [child, started]⟩ ⟨hP.vmas, Nat.le_refl _⟩
  intro t ht
  simp only [child, started, List.mem_singleton] at ht
  simp [ht, child, started]

theorem cloneProc_inv (hk : Inv k) (hs : (k.proc p).state = .used)
    (hnp : (k.proc np).state = .unused) (hvm : a.vm = false)
    (h : cloneProc k p np a = .ok (true, k')) :
    Inv k' ∧ Apart np k k' ∧ k'.maps np = (MMAP_MAX_ADDR_START, (k.proc p).vmas) ∧
      ∀ t ∈ (k'.proc np).threads, t.tidx = 0 := by
  obtain ⟨T, T', n, k1, k2, hT, hT', -, hshape', -, hc1, ha1, -, h2, ha2, -, hc', hproc⟩ :=
    cloneProc_ok hk hs hnp hvm h
  obtain ⟨T0, hT0, hshape, -, harea⟩ := hk.running hs
  have hne := ne_of_unused hs hnp
  obtain ⟨hquiet, -⟩ := storeTids_ok hc1 (fun T'' hT'' => by
    rw [ha1.table p hne, hT0] at hT''
    rw [← Option.some.inj hT'']
    exact hshape.wf) h2
  have hapart := (ha1.trans (hquiet.apart np)).trans ha2
  refine ⟨hk.of_apart hc' hapart ?_, hapart, ?_, fun t ht => ?_⟩
  · rw [hT', hproc]
    exact Proc.child_fits harea hshape'
  · rw [Kernel.maps, hproc]
    rfl
  · rw [hproc] at ht
    rw [List.mem_singleton.1 ht]

/-! ### When `do_clone` succeeds -/

theorem procJoinThread_total (hT : k.table p = some T)
    (hidx : slot (k.proc p).threadIdx < vpn MAXVA)
    (hnone : T.pte (slot (k.proc p).threadIdx) = none)
    (hfree : T.lacks (slot (k.proc p).threadIdx) + 1 ≤ k.mem.free) :
    ∃ t k', procJoinThread k p = .ok (t, k') ∧ t.trapframe ≠ none := by
  obtain ⟨n, S, hS⟩ := uvmThreadTrapframe_total (S := ⟨k.mem, T⟩) hidx hnone hfree
  refine ⟨⟨(k.proc p).threadIdx, some n⟩, _,
    bind_eq_ok.2 ⟨_, Kernel.space_eq_ok.2 ⟨T, hT, rfl⟩, bind_eq_ok.2 ⟨_, hS, rfl⟩⟩, by simp⟩

theorem storeTid_total (hT : k.table p = some T) (addr : Option ℕ) (tid : BitVec 32) :
    ∃ b k', storeTid k p addr tid = .ok (b, k') := by
  cases addr with
  | none => exact ⟨true, k, rfl⟩
  | some a => exact ⟨_, _, bind_eq_ok.2 ⟨_, Kernel.space_eq_ok.2 ⟨T, hT, rfl⟩, rfl⟩⟩

theorem storeTids_total (hc : Core k) (hT : k.table p = some T) (hwf : T.Wf) (a : CloneArgs) :
    ∃ b k', storeTids k p a = .ok (b, k') := by
  obtain ⟨c, k1, h1⟩ := storeTid_total hT a.ctid a.tid
  obtain _ | _ := c
  · exact ⟨false, k1, bind_eq_ok.2 ⟨_, h1, rfl⟩⟩
  obtain ⟨hquiet, -⟩ := storeTid_ok hc (fun T' hT' => by
    rw [Option.some.inj (hT'.symm.trans hT)]
    exact hwf) h1
  obtain ⟨b, k2, h2⟩ := storeTid_total (k := k1) (p := p) (T := T)
    (by rw [hquiet.table, hT]) a.ptid a.tid
  exact ⟨b, k2, bind_eq_ok.2 ⟨_, h1, h2⟩⟩

theorem procCopyVma_total (hn : vmas.length ≤ n)
    (hfiles : ∀ w ∈ vmas, w.file ≠ none) : ∃ k', procCopyVma np k n vmas = .ok (true, k') := by
  induction vmas generalizing k n with
  | nil => exact ⟨k, by rw [procCopyVma]⟩
  | cons w vmas ih =>
    obtain ⟨n, rfl⟩ : ∃ i, n = i + 1 := ⟨n - 1, by simp only [List.length_cons] at hn; omega⟩
    obtain ⟨f, hf⟩ := Option.ne_none_iff_exists'.1 (hfiles w (by simp))
    obtain ⟨k', hk'⟩ := ih (n := n)
      (k := k.setProc np { k.proc np with vmas := (k.proc np).vmas ++ [w] })
      (by simp only [List.length_cons] at hn; omega)
      fun w' hw' => hfiles w' (List.mem_cons_of_mem _ hw')
    exact ⟨k', by rw [procCopyVma, hf]; exact hk'⟩

/-- With memory for the pages of the child, the first parts of the call succeed, and so does
the copy after them. -/
theorem cloneProc_start (hk : Inv k) (hs : (k.proc p).state = .used)
    (hnp : (k.proc np).state = .unused) (hfree : tablePages (pages (k.proc p).sz) + 4 ≤ k.mem.free) :
    ∃ k0 t k1 stored k2, allocproc k np = .ok k0 ∧ procJoinThread k0 np = .ok (t, k1) ∧
      t.trapframe ≠ none ∧ storeTids k1 p a = .ok (stored, k2) ∧
      (stored = true ↔ (∀ x ∈ a.ctid, Writable k p x) ∧ ∀ x ∈ a.ptid, Writable k p x) ∧
      (k2.proc p).vmas = (k.proc p).vmas ∧
      ∃ k3, cloneSpace k2 p np false = .ok (true, k3) ∧ k3.proc = k2.proc ∧
        k.mem.free ≤ k3.mem.free + (tablePages (pages (k.proc p).sz) + 4) := by
  obtain ⟨T, hT, hshape, -, -⟩ := hk.running hs
  obtain ⟨-, hpt, -⟩ := (hk.fits np).of_unused hnp
  have hsz := hk.core.pages_le hT hshape
  have hne := ne_of_unused hs hnp
  have hslot : slot 0 = 67108861 := slot_eq (by decide)
  obtain ⟨_, _, hm⟩ := procPagetable_total (m := k.mem) (by omega)
  obtain ⟨k0, h0⟩ : ∃ k0, allocproc k np = .ok k0 := ⟨_, bind_eq_ok.2 ⟨_, hm, rfl⟩⟩
  obtain ⟨-, -, ⟨-, hlow, -⟩ | ⟨T0, hT0, hwf0, hpte0, -, hfree0, hproc0⟩⟩ :=
    allocproc_ok hk.core hpt h0
  · omega
  have hidx : (k0.proc np).threadIdx = 0 := by rw [hproc0]; rfl
  obtain ⟨t, k1, h1, htf⟩ := procJoinThread_total hT0 (by rw [hidx, hslot]; decide)
    (by
      rw [hidx, hslot, hpte0, bareEntries, vpn_sig, vpn_tramp,
        update_of_ne (by decide), update_of_ne (by decide)])
    (by
      rw [hidx, hwf0.lacks_slot (by rw [hpte0]; rfl)]
      omega)
  obtain ⟨hnone, -⟩ | ⟨n, T1, rfl, hfree1, hc1, ha1, -, hT1, hshape1, -⟩ :=
    spawn_ok hk.core hpt h0 h1
  · exact absurd hnone htf
  have hTp : k1.table p = some T := by rw [ha1.table p hne, hT]
  obtain ⟨stored, k2, h2⟩ := storeTids_total hc1 hTp hshape.wf a
  obtain ⟨hquiet, hstored⟩ := storeTids_ok hc1 (fun T' hT' => by
    rw [Option.some.inj (hT'.symm.trans hTp)]
    exact hshape.wf) h2
  have hwrite : ∀ x, Writable k1 p x ↔ Writable k p x := fun x => by
    rw [Writable, Writable, hTp, hT]
  have hproc2 : k2.proc p = { k.proc p with parent := (k2.proc p).parent } := by
    rw [hquiet.proc, ha1.proc p hne]
  refine ⟨k0, _, k1, stored, k2, h0, h1, htf, h2, by simpa only [hwrite] using hstored,
    by rw [hproc2], ?_⟩
  have hsz2 : (k2.proc p).sz = (k.proc p).sz := by rw [hproc2]
  obtain ⟨S, hS, hmem⟩ : ∃ S, uvmcopy T ⟨k2.mem, T1⟩ (k2.proc p).sz = .ok (true, S) ∧
      k2.mem.free + tablePages 0 ≤ S.mem.free + tablePages (0 + pages (k2.proc p).sz) := by
    refine uvmcopyLoop_total hshape.wf (fun i _ hi => ?_) (fun i _ hi => ?_) T1.lacks_zero ?_
    · rw [Nat.zero_add, hsz2] at hi
      obtain ⟨e, -, he, -⟩ := hshape.low i hi
      exact ⟨e, he⟩
    · rw [Nat.zero_add, hsz2] at hi
      refine Option.eq_none_iff_forall_ne_some.2 fun e he => ?_
      obtain hi' | hi' | ⟨t', ht', hi'⟩ | hi' | ⟨⟨w, hw, -⟩, -⟩ := hshape1.only i e he
      · rw [vpn_tramp] at hi'
        omega
      · rw [vpn_sig] at hi'
        omega
      · rw [List.mem_singleton.1 ht', hslot] at hi'
        omega
      · simp at hi'
      · cases hw
    · rw [Nat.zero_add, hsz2, hquiet.free]
      omega
  rw [Nat.zero_add, hsz2, hquiet.free] at hmem
  refine ⟨k2.put S, ?_, rfl, by rw [Kernel.put_mem]; omega⟩
  simp only [cloneSpace, Bool.false_eq_true, if_false]
  exact bind_eq_ok.2 ⟨_, Kernel.space_eq_ok.2 ⟨T, by rw [hquiet.table, hTp], rfl⟩,
    bind_eq_ok.2 ⟨_, Kernel.space_eq_ok.2 ⟨T1, by rw [hquiet.table, hT1], rfl⟩,
      bind_eq_ok.2 ⟨_, hS, rfl⟩⟩⟩

/-- **`do_clone` succeeds** if there is memory for the pages of the child, every mapping has a
file, and the identifier can be copied. -/
theorem cloneProc_total (hk : Inv k) (hs : (k.proc p).state = .used)
    (hnp : (k.proc np).state = .unused) (hvm : a.vm = false) (htcb : a.tcb = true)
    (hfree : tablePages (pages (k.proc p).sz) + 4 ≤ k.mem.free)
    (hpages : (k.proc p).vmas.length ≤ a.vmaPages)
    (hfiles : ∀ w ∈ (k.proc p).vmas, w.file ≠ none)
    (htids : (∀ x ∈ a.ctid, Writable k p x) ∧ ∀ x ∈ a.ptid, Writable k p x) :
    ∃ k', cloneProc k p np a = .ok (true, k') := by
  obtain ⟨k0, t, k1, stored, k2, h0, h1, htf, h2, hstored, hvmas, k3, h3, hproc3, -⟩ :=
    cloneProc_start (a := a) hk hs hnp hfree
  obtain rfl := hstored.2 htids
  obtain ⟨k4, h4⟩ : ∃ k4, procCopyVma np k3 a.vmaPages (k3.proc p).vmas = .ok (true, k4) :=
    procCopyVma_total (by rw [hproc3, hvmas]; exact hpages) (by rw [hproc3, hvmas]; exact hfiles)
  refine ⟨k4.setProc np { k4.proc np with
    sz := (k4.proc p).sz, ofile := (k4.proc p).ofile, parent := some p }, ?_⟩
  refine bind_eq_ok.2 ⟨k0, h0, ?_⟩
  rw [if_neg (by simp [htcb])]
  refine bind_eq_ok.2 ⟨_, h1, ?_⟩
  dsimp only
  rw [if_neg htf]
  refine bind_eq_ok.2 ⟨_, h2, ?_⟩
  dsimp only
  rw [if_neg (by simp)]
  refine bind_eq_ok.2 ⟨(true, k3), by rw [hvm]; exact h3, ?_⟩
  dsimp only
  rw [if_neg (by simp)]
  exact bind_eq_ok.2 ⟨_, h4, rfl⟩

theorem cloneProc_ne_false (hk : Inv k) (hs : (k.proc p).state = .used)
    (hnp : (k.proc np).state = .unused) (hvm : a.vm = false) (htcb : a.tcb = true)
    (hfree : tablePages (pages (k.proc p).sz) + 4 ≤ k.mem.free)
    (hpages : (k.proc p).vmas.length ≤ a.vmaPages) :
    cloneProc k p np a ≠ .ok (false, k') := by
  intro h
  obtain ⟨k0, t, k1, stored, k2, h0, h1, htf, h2, hstored, hvmas, k3, h3, hproc3, -⟩ :=
    cloneProc_start (a := a) hk hs hnp hfree
  obtain ⟨k0', h0', h⟩ := bind_eq_ok.1 h
  obtain rfl := Except.ok.inj (h0.symm.trans h0')
  rw [if_neg (by simp [htcb])] at h
  obtain ⟨⟨t', k1'⟩, h1', h⟩ := bind_eq_ok.1 h
  obtain ⟨rfl, rfl⟩ := Prod.mk.inj (Except.ok.inj (h1.symm.trans h1'))
  dsimp only at h
  rw [if_neg htf] at h
  obtain ⟨⟨stored', k2'⟩, h2', h⟩ := bind_eq_ok.1 h
  obtain ⟨rfl, rfl⟩ := Prod.mk.inj (Except.ok.inj (h2.symm.trans h2'))
  dsimp only at h
  split at h
  · obtain ⟨k4, -, h⟩ := bind_eq_ok.1 h
    cases h
  obtain ⟨⟨c, k3'⟩, h3', h⟩ := bind_eq_ok.1 h
  rw [hvm] at h3'
  obtain ⟨rfl, rfl⟩ := Prod.mk.inj (Except.ok.inj (h3.symm.trans h3'))
  rw [if_neg (by simp)] at h
  obtain ⟨⟨c, k4⟩, h4, h⟩ := bind_eq_ok.1 h
  dsimp only at h
  split at h
  next hc =>
    have hlt := (procCopyVma_ok h4).2 hc
    rw [hproc3, hvmas] at hlt
    omega
  next => cases h

theorem cloneProc_tcb (hk : Inv k) (hnp : (k.proc np).state = .unused) (htcb : a.tcb = false)
    (h : cloneProc k p np a = .ok (b, k')) :
    Inv k' ∧ Apart np k k' ∧ (k'.proc np).state = .unused := by
  obtain ⟨-, hpt, hsz⟩ := (hk.fits np).of_unused hnp
  obtain ⟨k0, h0, h⟩ := bind_eq_ok.1 h
  rw [if_pos htcb] at h
  obtain ⟨k1, h1, h⟩ := bind_eq_ok.1 h
  cases h
  obtain ⟨hc0, ha0, hcase⟩ := allocproc_ok hk.core hpt h0
  obtain ⟨hthreads, hshape⟩ : (k0.proc np).threads = [] ∧
      ∀ T, k0.table np = some T → Shape T (k0.proc np).sz [] [] := by
    obtain ⟨hnone, -, hproc⟩ | ⟨T, hT, hwf, hpte, -, -, hproc⟩ := hcase
    · exact ⟨by rw [hproc]; rfl, fun T hT => by rw [hnone] at hT; cases hT⟩
    refine ⟨by rw [hproc]; rfl, fun T' hT' => ?_⟩
    obtain rfl := Option.some.inj (hT.symm.trans hT')
    have hsz0 : (k0.proc np).sz = 0 := by rw [hproc]; exact hsz
    rw [hsz0]
    exact Shape.bare hwf hpte
  obtain ⟨hc1, ha1, hnone, hproc⟩ := freeproc_ok hc0 hthreads hshape h1
  refine ⟨hk.of_apart hc1 (ha0.trans ha1) ?_, ha0.trans ha1, by rw [hproc]; rfl⟩
  rw [hnone, hproc]
  exact .unused rfl rfl rfl

/-- A call of `do_clone` that cannot fail halfway, and does not share the page table with
another process. -/
def CarefulClone (k : Kernel) (p : ProcId) (a : CloneArgs) : Prop :=
  if a.thread then
    a.tcb = true → 3 ≤ k.mem.free ∧ (∀ x ∈ a.ctid, Writable k p x) ∧
      ∀ x ∈ a.ptid, Writable k p x
  else
    a.vm = false ∧ (a.np ≠ none → a.tcb = true →
      tablePages (pages (k.proc p).sz) + 4 ≤ k.mem.free ∧ (k.proc p).vmas.length ≤ a.vmaPages)

/-- **`do_clone` keeps the invariant.** It changes the process that calls it, or makes a new
one with its mappings. -/
theorem doClone_inv (hk : Inv k) (hs : (k.proc p).state = .used)
    (hnp : ∀ np ∈ a.np, (k.proc np).state = .unused) (hcare : CarefulClone k p a)
    (h : doClone k p a = .ok (b, k')) :
    Inv k' ∧ ∃ q, Apart q k k' ∧
      (q = p ∧ k'.maps p = k.maps p ∧ (∀ t ∈ (k'.proc p).threads,
          t ∈ (k.proc p).threads ∨ a.thread = true ∧ t.tidx = (k.proc p).threadIdx) ∨
        (k.proc q).state = .unused ∧ ((k'.proc q).state = .used → a.thread = false ∧
          k'.maps q = (MMAP_MAX_ADDR_START, (k.proc p).vmas) ∧
          ∀ t ∈ (k'.proc q).threads, t.tidx = 0)) := by
  rw [CarefulClone] at hcare
  rw [doClone] at h
  split at h
  next hthread =>
    rw [if_pos hthread] at hcare
    obtain ⟨hinv, hapart, hmaps, hthreads⟩ := cloneThread_inv hk hs (fun ht => (hcare ht).1)
      (fun ht => (hcare ht).2) h
    exact ⟨hinv, p, hapart, .inl ⟨rfl, hmaps, fun t ht =>
      (hthreads t ht).imp_right fun hidx => ⟨hthread, hidx⟩⟩⟩
  next hthread =>
    rw [if_neg hthread] at hcare
    obtain ⟨hvm, hmem⟩ := hcare
    split at h
    · cases h
      exact ⟨hk, p, .refl p _, .inl ⟨rfl, rfl, fun t ht => .inl ht⟩⟩
    rename_i np hsome
    have hunused := hnp np hsome
    rcases htcb : a.tcb with _ | _
    · obtain ⟨hinv, hapart, hstate⟩ := cloneProc_tcb hk hunused htcb h
      exact ⟨hinv, np, hapart, .inr ⟨hunused, fun hu => by rw [hstate] at hu; cases hu⟩⟩
    obtain ⟨hfree, hpages⟩ := hmem (by simp [hsome]) htcb
    obtain _ | _ := b
    · exact absurd h (cloneProc_ne_false hk hs hunused hvm htcb hfree hpages)
    obtain ⟨hinv, hapart, hmaps, hidx⟩ := cloneProc_inv hk hs hunused hvm h
    exact ⟨hinv, np, hapart,
      .inr ⟨hunused, fun _ => ⟨Bool.eq_false_iff.2 hthread, hmaps, hidx⟩⟩⟩

/-! ### The first process -/

/-- The kernel before there is a process. -/
structure Boot (k : Kernel) : Prop where
  total : k.mem.total ≤ 131072
  next : k.mem.next = 0
  freed : k.mem.freed = []
  proc : ∀ p, (k.proc p).state = .unused ∧ (k.proc p).pagetable = none ∧ (k.proc p).sz = 0

theorem Boot.inv (h : Boot k) : Inv k := by
  have htable : ∀ p, k.table p = none := fun p => by
    rw [Kernel.table, (h.proc p).2.1]
    rfl
  refine ⟨⟨?_, h.total, fun p r hr => ?_, fun p q r hr => ?_, fun n => ?_⟩, fun p => ?_⟩
  · rw [Mem.Room, h.next]
    exact Nat.zero_le _
  · rw [(h.proc p).2.1] at hr
    cases hr
  · rw [(h.proc p).2.1] at hr
    cases hr
  · simp [Mem.live, h.next, h.freed, htable]
  · rw [htable]
    exact .unused (h.proc p).1 (h.proc p).2.1 (h.proc p).2.2

theorem userSpace_ok (hshape : Shape S.tbl 0 ths [])
    (hths : ∀ t ∈ ths, t.tidx < 2 ^ 19) (h : userSpace S = .ok (sz, S')) :
    Edit S S' 0 ∧ Shape S'.tbl sz ths [] := by
  obtain ⟨⟨done, S1⟩, h1, h⟩ := bind_eq_ok.1 h
  obtain ⟨hdone, h⟩ := ite_error_ok.1 h
  rw [Bool.not_eq_false] at hdone
  subst hdone
  have hfirst : uvmalloc S 0 initcodeLen = .ok (initcodeLen, S1) := by
    rw [uvmalloc, if_neg (Nat.not_lt_zero _), pages_zero, Nat.sub_zero]
    exact bind_eq_ok.2 ⟨_, h1, rfl⟩
  obtain ⟨hedit1, hshape1⟩ := hshape.uvmalloc hfirst
  obtain ⟨⟨r, S2⟩, h2, h⟩ := bind_eq_ok.1 h
  obtain ⟨hr, h⟩ := ite_error_ok.1 h
  have hround : Shape S1.tbl (pages initcodeLen * PGSIZE) ths [] :=
    hshape1.of_pages (by decide)
  obtain ⟨hedit2, hshape2⟩ := hround.uvmalloc h2
  rw [if_neg hr] at hshape2
  obtain ⟨S3, h3, h⟩ := bind_eq_ok.1 h
  obtain ⟨rfl, rfl⟩ := Prod.mk.inj (Except.ok.inj h)
  obtain rfl : r = 13 * PGSIZE := uvmalloc_size h2 hr (by decide)
  obtain ⟨hedit3, hshape3⟩ := hshape2.uvmclear h3 (by decide) (by decide) hths
  exact ⟨(hedit1.trans_zero hedit2).trans_zero hedit3, hshape3⟩

/-- **The invariant holds when the first process starts.** -/
theorem userinit_inv (hb : Boot k) (h : userinit k = .ok k') :
    Inv k' ∧ ∀ p, (k'.proc p).state = .used → k'.maps p = (MMAP_MAX_ADDR_START, []) ∧
      ∀ t ∈ (k'.proc p).threads, t.tidx = 0 := by
  have hk := hb.inv
  obtain ⟨k0, h0, h⟩ := bind_eq_ok.1 h
  obtain ⟨⟨t, k1⟩, h1, h⟩ := bind_eq_ok.1 h
  obtain ⟨htf, h⟩ := ite_error_ok.1 h
  obtain ⟨hnone, -⟩ | ⟨n, T, rfl, -, hc1, ha1, -, hT, hshape, hproc1⟩ :=
    spawn_ok hk.core (hb.proc initproc).2.1 h0 h1
  · exact absurd hnone htf
  replace h := (Kernel.bind_space hT).symm.trans h
  obtain ⟨⟨sz, S⟩, hS, h⟩ := bind_eq_ok.1 h
  cases h
  obtain ⟨hedit, hshape'⟩ := userSpace_ok hshape
    (fun t ht => by rw [List.mem_singleton.1 ht]; exact Nat.two_pow_pos 19) hS
  obtain ⟨hc2, ha2, ht2⟩ := hc1.edit hT hedit
  obtain ⟨hc3, ha3, ht3⟩ := hc2.setProc (p := initproc)
    (P := { k1.proc initproc with sz }) rfl
  have hapart := (ha1.trans ha2).trans ha3
  have hproc : ((k1.put S).setProc initproc { k1.proc initproc with sz }).proc initproc =
      { k1.proc initproc with sz } := Kernel.setProc_self _ _ _
  refine ⟨hk.of_apart hc3 hapart ?_, fun p hp => ?_⟩
  · rw [ht3, ht2, Kernel.setProc_self, hproc1]
    refine .used rfl hshape' ⟨by simp [Proc.started], rfl, rfl, by simp [Proc.started], ?_,
      by simp [Proc.started]⟩ ⟨by simp [Proc.started], Nat.le_refl _⟩
    intro t ht
    simp only [Proc.started, List.mem_singleton] at ht
    simp [ht, Proc.started]
  · by_cases hpi : p = initproc
    · rw [hpi, Kernel.maps, hproc, hproc1]
      exact ⟨rfl, fun t ht => by rw [List.mem_singleton.1 ht]⟩
    · rw [hapart.proc p hpi] at hp
      rw [(hb.proc p).1] at hp
      cases hp

end XVapor.Vm
