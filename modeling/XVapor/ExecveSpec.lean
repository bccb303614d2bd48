import XVapor.ExecveImage
import XVapor.SpaceClone

/-!
# `execve` and the Invariant

`execve` keeps the invariant of the address spaces, whatever it returns. This holds for a
reason that is no merit of the code: `proc_freepagetable` unmaps the trap frames of the
indices below the count of the threads, and panics if one of them is not mapped. When
`execve` frees the other threads first, only the trap frame of the caller is left. So **a call
that returns from its second part was made by the only thread of the process, and this thread
has the index zero**; and a call that goes to `bad` before the trap frame is moved to the new
page table never returns.
-/

namespace XVapor.Vm

open Function
open Files (ProcId ProcState)
open Space

variable {k k' k1 : Kernel} {p : ProcId} {S S' : Space} {T : Table} {t : Tcb} {img : Image}

/-! ### Preliminaries -/

variable {n i sz : ℕ}

variable {m : Mem}

theorem Mem.count_eq_one (hn : n < m.next) (h : m.live n = 0) :
    m.freed.count n = 1 := by
  rw [live, if_pos hn] at h
  omega

theorem Core.roomy (h : Core k) : Roomy k.mem :=
  ⟨h.room, h.total, fun n => by
    rw [h.balance]
    exact Finset.sum_nonneg fun p _ => owned_nonneg _ _⟩

theorem Inv.same (h : Inv k) (hproc : k'.proc = k.proc) (htable : k'.table = k.table)
    (hle : k.mem.Le k'.mem) (hlive : ∀ n, k'.mem.live n = k.mem.live n) (p : ProcId) :
    Inv k' ∧ Apart p k k' := by
  have ha : ∀ q, Apart q k k' := fun q =>
    ⟨hle, fun q _ => by rw [hproc], fun q _ => by rw [htable]⟩
  refine ⟨⟨h.core.update (ha p) (fun r hr => ?_) (fun q r hq hr hqr => ?_) fun n => ?_,
    fun q => ?_⟩, ha p⟩
  · rw [htable]
    exact h.core.key p r (by rwa [hproc] at hr)
  · rw [hproc] at hr
    exact hq (h.core.inj q p r hqr hr)
  · rw [htable, hlive]
    omega
  · rw [hproc, htable]
    exact h.fits q

theorem Opens.table (h : Opens k k') : k'.table = k.table := by
  funext q
  rw [Kernel.table, h.proc, h.tables, Kernel.table]

theorem freeThreads_ok {ts : List Tcb} (hpt : (k.proc p).pagetable = some T.root)
    (hT : k.table p = some T) (hts : ∀ t ∈ ts, t.trapframe ≠ none)
    (h : ts.foldlM (freeThread · p) k = .ok k') :
    k'.proc = k.proc ∧ ∃ T', k'.table p = some T' ∧
      ∀ v e, T'.pte v = some e → T.pte v = some e ∧ ∀ t ∈ ts, v ≠ slot t.tidx := by
  induction ts generalizing k T with
  | nil =>
    cases h
    exact ⟨rfl, T, hT, fun v e hv => ⟨hv, by simp⟩⟩
  | cons t ts ih =>
    rw [List.foldlM_cons] at h
    obtain ⟨k1, h1, h⟩ := bind_eq_ok.1 h
    obtain ⟨n, hn⟩ := Option.ne_none_iff_exists'.1 (hts t (by simp))
    obtain ⟨S, hedit, hpte, rfl⟩ := freeThread_ok hT hn h1
    have hS : (k.put S).table p = some S.tbl := by
      rw [Kernel.table, Kernel.put_proc, hpt, ← hedit.root]
      exact AList.lookup_insert _
    obtain ⟨hproc, T', hT', hleft⟩ := ih
      (by rw [Kernel.put_proc, hpt, ← hedit.root]) hS
      (fun t' ht' => hts t' (List.mem_cons_of_mem _ ht')) h
    refine ⟨hproc, T', hT', fun v e hv => ?_⟩
    obtain ⟨hv1, hv2⟩ := hleft v e hv
    have hne : v ≠ slot t.tidx := by
      rintro rfl
      rw [hpte, update_self] at hv1
      cases hv1
    rw [hpte, update_of_ne hne] at hv1
    refine ⟨hv1, fun t' ht' => ?_⟩
    rcases List.mem_cons.1 ht' with rfl | ht'
    · exact hne
    · exact hv2 t' ht'

variable {P : Proc}

theorem Shape.thread_of_slot (h : Shape T P.sz P.threads P.vmas) (ha : Area P)
    (hsz : pages P.sz ≤ 131072) (hi : i < 2) {e : Pte} (he : T.pte (slot i) = some e) :
    ∃ t ∈ P.threads, slot i = slot t.tidx := by
  have hslot : slot i = 67108861 - i := slot_eq (by omega)
  obtain hv | hv | hv | hv | ⟨⟨w, hw, hv⟩, -⟩ := h.only _ e he
  · rw [vpn_tramp] at hv
    omega
  · rw [vpn_sig] at hv
    omega
  · exact hv
  · omega
  · have hb := hv.bounds (ha.vmas w hw)
    omega

/-! ### The second part -/

theorem transferTrapframe_ok (hn : t.trapframe = some n) (h : transferTrapframe S t = .ok S') :
    S.tbl.pte (slot t.tidx) = none ∧ Edit S S' (Frame.page n).refs ∧
      S'.tbl.pte = update S.tbl.pte (slot t.tidx) (some (trapframePte (.page n))) := by
  obtain ⟨⟨mapped, S1⟩, h1, h⟩ := bind_eq_ok.1 h
  rw [vpn_threadTrapframe, hn] at h1
  obtain ⟨rfl, -, hnone, hedit, hpte, -⟩ | ⟨rfl, -⟩ := mappages_ok h1
  · cases h
    exact ⟨hnone, hedit, hpte⟩
  · cases h

theorem pushArgc_writes (img : Image) (S : Space) : S.Writes (pushArgc img S).2 := by
  have hw := pushWords_writes img.stackbase S img.sp [img.argc]
  rw [pushArgc]
  generalize pushWords img.stackbase S img.sp [img.argc] = r at hw ⊢
  exact hw

theorem Group.single (h : Group P) (ht : t ∈ P.threads)
    (hall : ∀ i < 2, i < P.threadCnt.toNat → i = t.tidx) : P.threads = [t] ∧ t.tidx = 0 := by
  have hlen := List.length_pos_of_mem ht
  have hcnt := h.count
  have hzero := hall 0 (by omega) (by omega)
  have hone : ¬ 1 < P.threadCnt.toNat := fun hlt => by
    have h1 := hall 1 (by omega) hlt
    omega
  exact ⟨h.eq_singleton ht (by omega), hzero.symm⟩

variable {b : Bool}

/-- **Who comes back from the second part.** -/
theorem install_single (hk : Inv k) (hs : (k.proc p).state = .used)
    (ht : t ∈ (k.proc p).threads) (ho : Opens k k1) (hb : Built k.mem img.S img.sz)
    (h : install k1 p t img = .ok (b, k')) : (k.proc p).threads = [t] ∧ t.tidx = 0 := by
  obtain ⟨T, hT, hshape, hgroup, harea⟩ := hk.running hs
  have hsz := hk.core.pages_le hT hshape
  have hidx := hgroup.tidx_lt t ht
  obtain ⟨n, hn, -⟩ := hshape.frame t ht
  refine hgroup.single ht ?_
  obtain ⟨x, y, rfl⟩ : ∃ x y, k1 = { k with nfile := x, npool := y } := ⟨_, _, ho.same⟩
  obtain ⟨k2, h2, h⟩ := bind_eq_ok.1 h
  obtain ⟨S1, h3, h⟩ := bind_eq_ok.1 h
  rw [freeAllotherThreadsGroup, if_neg (by rw [hgroup.ghosts]; omega)] at h2
  obtain ⟨k3, h4, h2⟩ := bind_eq_ok.1 h2
  have hts : ∀ t' ∈ (k.proc p).threads.filter (· ≠ t), t'.trapframe ≠ none := by
    intro t' ht'
    obtain ⟨n', hn', -⟩ := hshape.frame t' (List.mem_of_mem_filter ht')
    simp [hn']
  obtain ⟨hproc3, T', hT', hleft⟩ := freeThreads_ok
    (k := { k with mem := img.S.mem, nfile := x, npool := y }) (hk.core.root hT) hT hts h4
  have hcnt : (k2.proc p).threadCnt = (k.proc p).threadCnt := by
    rw [← Except.ok.inj h2, Kernel.setProc_self, hproc3]
  obtain ⟨-, -, hpte1⟩ := transferTrapframe_ok hn h3
  have hw := pushArgc_writes img S1
  generalize pushArgc img S1 = r at h hw
  obtain ⟨_ | _, S⟩ := r
  · -- `bad`: the slots are looked for in the new page table
    obtain ⟨m, hm, -⟩ := bind_eq_ok.1 h
    rw [hcnt] at hm
    have hkernel : ∀ v, v ≠ slot t.tidx → ∀ e, S.tbl.pte v = some e → img.S.tbl.pte v = some e := by
      intro v hv e he
      rwa [hw.tbl, hpte1, update_of_ne hv] at he
    obtain ⟨-, hslots, -⟩ := procFreepagetable_ok hm
      (fun e he => hb.shape.tramp_kernel
        (hkernel _ (by rw [vpn_tramp, slot_eq hidx]; omega) e he))
      (fun e he => hb.shape.sig_kernel
        (hkernel _ (by rw [vpn_sig, slot_eq hidx]; omega) e he))
    intro i hi hlt
    by_contra hne
    have hi' : i < 2 ^ 19 := by omega
    refine hslots i hlt ?_
    rw [hw.tbl, hpte1, update_of_ne fun heq => hne (slot_inj hi' hidx heq)]
    exact hb.slot_eq_none hk.core.roomy hi'
  · -- the old page table has only the trap frame of the caller left
    obtain ⟨old, h5, h⟩ := bind_eq_ok.1 h
    obtain ⟨m, hm, -⟩ := bind_eq_ok.1 h
    obtain ⟨T'', hT'', rfl⟩ := Kernel.space_eq_ok.1 h5
    have hsame : T'' = T' := by
      have hrec : (k2.proc p).pagetable = (k3.proc p).pagetable := by
        rw [← Except.ok.inj h2, Kernel.setProc_self]
      have htab : k2.tables = k3.tables := by rw [← Except.ok.inj h2]; rfl
      rw [Kernel.table] at hT' hT''
      rw [hrec, htab] at hT''
      exact Option.some.inj (hT''.symm.trans hT')
    subst hsame
    rw [hcnt] at hm
    obtain ⟨-, hslots, -⟩ := procFreepagetable_ok hm
      (fun e he => hshape.tramp_kernel (hleft _ e he).1)
      (fun e he => hshape.sig_kernel (hleft _ e he).1)
    intro i hi hlt
    obtain ⟨e, he⟩ := Option.ne_none_iff_exists'.1 (hslots i hlt)
    obtain ⟨he, hgone⟩ := hleft _ e he
    obtain ⟨t', ht', heq⟩ := hshape.thread_of_slot harea hsz hi he
    have htt : t' = t := by
      by_contra hne
      exact hgone t' (List.mem_filter.2 ⟨ht', by simpa using hne⟩) heq
    rw [htt] at heq
    exact slot_inj (by omega) hidx heq

theorem Built.refs_transfer (hb : Built m S img.sz)
    (he : Edit S S' (Frame.page n).refs) (i : ℕ) :
    S'.tbl.refs i = S'.mem.live i - m.live i + (Frame.page n).refs i := by
  have hex := he.excess i
  simp only [excess] at hex
  have hi := hb.refs i
  omega

theorem Inv.replace {T' : Table} (hk : Inv k) (hT : k.table p = some T)
    (hproc : k'.proc = update k.proc p P)
    (htables : k'.tables = (k.tables.erase T.root).insert T'.root T')
    (hle : k.mem.Le k'.mem) (hroot : T'.root = k.mem.next)
    (hlive : ∀ i, k'.mem.live i = k.mem.live i - T.refs i + T'.refs i)
    (hP : P.pagetable = some T'.root) (hfits : Fits P (some T')) :
    Inv k' ∧ Apart p k k' ∧ k'.table p = some T' := by
  have hself : k'.table p = some T' := by
    rw [Kernel.table, hproc, update_self, hP, htables]
    exact AList.lookup_insert _
  have hapart : Apart p k k' := by
    refine ⟨hle, fun q hq => by rw [hproc, update_of_ne hq], fun q hq => ?_⟩
    rw [Kernel.table, hproc, update_of_ne hq, htables, Kernel.table]
    rcases hr : (k.proc q).pagetable with _ | r
    · rfl
    have hnew : r ≠ T'.root := fun heq => hk.core.root_ne hroot (heq ▸ hr)
    have hold : r ≠ T.root := fun heq =>
      hq (hk.core.inj q p _ hr (heq ▸ hk.core.root hT))
    simp only [Option.bind_some]
    rw [AList.lookup_insert_ne hnew, AList.lookup_erase_ne hold]
  have hp : k'.proc p = P := by rw [hproc, update_self]
  refine ⟨hk.of_apart (hk.core.update hapart (fun r hr => ⟨T', hself, ?_⟩) (fun q r _ hr => ?_)
    fun i => ?_) hapart ?_, hapart, hself⟩
  · rw [hp, hP] at hr
    exact Option.some.inj hr
  · rw [hp, hP] at hr
    exact hk.core.root_ne ((Option.some.inj hr).symm.trans hroot)
  · rw [hT, hself, owned_some, owned_some]
    exact hlive i
  · rw [hself, hp]
    exact hfits

/-- The record of a process after `execve`. -/
def Proc.renewed (P : Proc) (t : Tcb) (root sz : ℕ) : Proc :=
  { P.alone t with
    pagetable := some root, sz, ofile := fun fd => (P.ofile fd).filter fun o => !o.cloexec }

theorem commit_ok (hT : k.table p = some T) (h : commit k p S sz = .ok (b, k')) :
    b = true ∧ procFreepagetable ⟨S.mem, T⟩ (k.proc p).sz (k.proc p).threadCnt = .ok k'.mem ∧
      k'.tables = (k.tables.erase T.root).insert S.tbl.root S.tbl ∧
      k'.proc = update k.proc p { k.proc p with
        pagetable := some S.tbl.root, sz,
        ofile := fun fd => ((k.proc p).ofile fd).filter fun o => !o.cloexec } := by
  obtain ⟨T', hT', h⟩ := Kernel.bind_space_ok.1 h
  obtain rfl : T' = T := Option.some.inj (hT'.symm.trans hT)
  obtain ⟨m, hm, h⟩ := bind_eq_ok.1 h
  cases h
  exact ⟨rfl, hm, rfl, rfl⟩

/-- **The second part of `execve`.** It keeps the invariant. If it succeeds, every page of the
old image but the trap frame of the caller has been freed once, and the trap frame is at its
place in the new page table. -/
theorem install_ok (hk : Inv k) (hs : (k.proc p).state = .used)
    (ht : t ∈ (k.proc p).threads) (ho : Opens k k1) (hb : Built k.mem img.S img.sz)
    (h : install k1 p t img = .ok (b, k')) :
    Inv k' ∧ Apart p k k' ∧ ∃ T n, k.table p = some T ∧ t.trapframe = some n ∧
      (b = false → k'.proc p = (k.proc p).alone t) ∧
      (b = true → ∃ T', k'.table p = some T' ∧
        k'.proc p = (k.proc p).renewed t T'.root img.sz ∧
        T'.pte (slot t.tidx) = some (trapframePte (.page n)) ∧
        ∀ i, 1 ≤ T.refs i → i ≠ n → k'.mem.freed.count i = 1) := by
  obtain ⟨hthreads, hzero⟩ := install_single hk hs ht ho hb h
  obtain ⟨T, hT, hshape, hgroup, harea⟩ := hk.running hs
  obtain ⟨n, hn, hframe⟩ := hshape.frame t ht
  have hidx := hgroup.tidx_lt t ht
  have hcnt : ((k.proc p).alone t).threadCnt = 1 := by
    rw [Proc.alone, hgroup.count, hthreads]
    rfl
  obtain ⟨x, y, rfl⟩ : ∃ x y, k1 = { k with nfile := x, npool := y } := ⟨_, _, ho.same⟩
  obtain ⟨k2, h2, h⟩ := bind_eq_ok.1 h
  rw [freeAllotherThreadsGroup_single (k := { k with mem := img.S.mem, nfile := x, npool := y })
    hgroup.ghosts hthreads] at h2
  cases h2
  obtain ⟨S1, h3, h⟩ := bind_eq_ok.1 h
  obtain ⟨hnone, hedit, hpte1⟩ := transferTrapframe_ok hn h3
  have hw := pushArgc_writes img S1
  have hrefs : ∀ i, (pushArgc img S1).2.tbl.refs i =
      (pushArgc img S1).2.mem.live i - k.mem.live i + (Frame.page n).refs i := by
    intro i
    rw [hw.tbl, hw.live]
    exact hb.refs_transfer hedit i
  have hle : k.mem.Le (pushArgc img S1).2.mem := (hb.le.trans hedit.mem).trans hw.le
  have hroot : (pushArgc img S1).2.tbl.root = k.mem.next := by rw [hw.tbl, hedit.root, hb.root]
  have hpte : (pushArgc img S1).2.tbl.pte =
      update img.S.tbl.pte (slot t.tidx) (some (trapframePte (.page n))) := by
    rw [hw.tbl, hpte1]
  have hwf : (pushArgc img S1).2.tbl.Wf := by
    rw [hw.tbl]
    exact hedit.wf hb.shape.wf
  generalize pushArgc img S1 = r at h hrefs hle hroot hpte hwf
  have hfits := (hk.fits p).alone hs hthreads
  have hne1 : vpn TRAMPOLINE ≠ slot t.tidx := by rw [vpn_tramp, slot_eq hidx]; omega
  have hne2 : vpn SIGRETURN ≠ slot t.tidx := by rw [vpn_sig, slot_eq hidx]; omega
  obtain ⟨_ | _, S⟩ := r
  · -- the new page table is freed again
    obtain ⟨m, hm, h⟩ := bind_eq_ok.1 h
    cases h
    rw [Kernel.setProc_self] at hm
    dsimp only at hm hpte hrefs hle
    rw [hcnt] at hm
    obtain ⟨hle', -, -, d, hlive, hone, -⟩ := procFreepagetable_ok hm
      (fun e he => by
        rw [hpte, update_of_ne hne1] at he
        exact hb.shape.tramp_kernel he)
      (fun e he => by
        rw [hpte, update_of_ne hne2] at he
        exact hb.shape.sig_kernel he)
    obtain ⟨e, he, rfl⟩ := hone rfl
    rw [hpte, ← hzero, update_self] at he
    cases he
    obtain ⟨hk2, ha2⟩ := hk.setProc (P := (k.proc p).alone t) rfl hfits
    obtain ⟨hk', ha'⟩ : Inv { Kernel.setProc { k with mem := img.S.mem, nfile := x, npool := y } p
        ((k.proc p).alone t) with mem := m } ∧ Apart p (k.setProc p ((k.proc p).alone t))
        { Kernel.setProc { k with mem := img.S.mem, nfile := x, npool := y } p
          ((k.proc p).alone t) with mem := m } := by
      refine hk2.same ?_ ?_ (hle.trans hle') (fun i => ?_) p
      · rfl
      · rfl
      have hi := hrefs i
      rw [hlive]
      simp only [trapframePte, Kernel.setProc_mem]
      omega
    exact ⟨hk', ha2.trans ha', T, n, hT, hn, fun _ => Kernel.setProc_self _ _ _, by simp⟩
  · obtain ⟨rfl, hm, htables, hproc⟩ := commit_ok (T := T)
      (by rw [Kernel.setProc_table_self]; exact hT) h
    rw [Kernel.setProc_self, hcnt] at hm
    dsimp only at hm hpte hrefs hle hroot hwf
    obtain ⟨hle', -, -, d, hlive, hone, -⟩ := procFreepagetable_ok hm
      (fun _ => hshape.tramp_kernel) (fun _ => hshape.sig_kernel)
    obtain ⟨e, he, rfl⟩ := hone rfl
    rw [hzero] at hframe
    obtain rfl := Option.some.inj (he.symm.trans hframe)
    have hbalance : ∀ i, k'.mem.live i = k.mem.live i - T.refs i + S.tbl.refs i := by
      intro i
      have hi := hrefs i
      rw [hlive]
      simp only [trapframePte]
      omega
    have hshape' : Shape S.tbl img.sz [t] (k.proc p).vmas := by
      have hadd : Shape S.tbl img.sz ([] ++ [⟨t.tidx, some n⟩]) [] :=
        hb.shape.addThread hwf (hb.slot_eq_none hk.core.roomy hidx) hpte
      rw [← hn] at hadd
      exact hadd.mono_vmas (by simp)
    have hfits' : Fits ((k.proc p).renewed t S.tbl.root img.sz) (some S.tbl) := by
      obtain ⟨_, -, -, hg, ha⟩ := hfits.of_used hs
      exact .used hs hshape' ⟨hg.exist, hg.ghosts, hg.count, hg.nodup, hg.idx, hg.bound⟩
        ⟨ha.vmas, ha.max⟩
    have hproc' : k'.proc = update k.proc p ((k.proc p).renewed t S.tbl.root img.sz) := by
      rw [hproc, Kernel.setProc_self]
      exact update_idem _ _ _
    obtain ⟨hk', ha', hT'⟩ := hk.replace hT hproc' htables (hle.trans hle') hroot hbalance rfl hfits'
    refine ⟨hk', ha', T, n, hT, hn, by simp, fun _ => ⟨S.tbl, hT', ?_, ?_, fun i hi hne => ?_⟩⟩
    · rw [hproc', update_self]
    · rw [hpte, update_self]
    · -- a page of the old image is in no other table, and the new one does not refer to it
      refine Mem.count_eq_one ((hk.core.page_lt hT hi).1.trans_le (hle.trans hle').next) ?_
      have hpos := hk'.core.roomy.live i
      have h1 := hk.core.refs_le hT i
      have h2 := k.mem.live_le_one i
      have h3 := S.mem.live_le_one i
      have h4 := hbalance i
      have h5 := hrefs i
      rw [Frame.refs, if_neg (by simpa using hne.symm)] at h5
      omega

/-! ### The call -/

theorem execBad_ok (h : execBad k p S sz = .ok (b, k')) :
    b = false ∧ procFreepagetable S sz (k.proc p).threadCnt = .ok k'.mem ∧
      k' = { k with mem := k'.mem } := by
  obtain ⟨m, hm, h⟩ := bind_eq_ok.1 h
  cases h
  exact ⟨rfl, hm, rfl⟩

/-- A call that goes to `bad` before the trap frame is moved does not return: the trap frame
with the index zero is not in the new page table. -/
theorem execBad_not_ok (hm : Roomy m) (hb : Built m S sz)
    (hcnt : 1 ≤ (k.proc p).threadCnt) : execBad k p S sz ≠ .ok (b, k') := by
  intro h
  obtain ⟨-, hfree, -⟩ := execBad_ok h
  obtain ⟨-, hslots, -⟩ := procFreepagetable_ok hfree
    (fun _ => hb.shape.tramp_kernel) (fun _ => hb.shape.sig_kernel)
  exact hslots 0 (by omega) (hb.slot_eq_none hm (by omega))

/-- **`execve` keeps the invariant.** -/
theorem execve_inv {path : String} {argv envp : List (List UInt8)} (hk : Inv k)
    (hs : (k.proc p).state = .used) (ht : t ∈ (k.proc p).threads)
    (h : execve k p t path argv envp = .ok (b, k')) :
    Inv k' ∧ Apart p k k' ∧ Retains p k k' := by
  obtain ⟨r, h1, h⟩ := bind_eq_ok.1 h
  have hr := prepare_ok h1
  cases r with
  | fail k1 =>
    obtain ⟨-, rfl⟩ := Prod.mk.inj (Except.ok.inj h)
    obtain ⟨rfl, -⟩ | ⟨-, k2, ho, heq, hle, hlive⟩ := hr
    · exact ⟨hk, .refl _ _, .refl _ _⟩
    have hproc : k1.proc = k.proc := by rw [heq, ← ho.proc]
    have htable : k1.table = k.table := by
      rw [← ho.table, heq]
      rfl
    obtain ⟨hk', ha⟩ := hk.same hproc htable hle hlive p
    exact ⟨hk', ha, .of_proc (by rw [hproc])⟩
  | bad k1 S sz =>
    obtain ⟨-, ho, hb⟩ := hr
    obtain ⟨T, -, -, hgroup, -⟩ := hk.running hs
    have hlen := List.length_pos_of_mem ht
    have hcnt := hgroup.count
    exact absurd h (execBad_not_ok hk.core.roomy (hb hk.core.roomy) (by rw [ho.proc]; omega))
  | ready k1 img =>
    obtain ⟨-, ho, hb⟩ := hr
    obtain ⟨hk', ha, T, n, hT, hn, hfalse, htrue⟩ :=
      install_ok hk hs ht ho (hb hk.core.roomy) h
    refine ⟨hk', ha, ?_⟩
    have hsub : [t] ⊆ (k.proc p).threads := by simpa using ht
    obtain _ | _ := b
    · exact ⟨by rw [Kernel.maps, hfalse rfl]; rfl, by rw [hfalse rfl]; exact hsub⟩
    obtain ⟨T', -, hrec, -⟩ := htrue rfl
    exact ⟨by rw [Kernel.maps, hrec]; rfl, by rw [hrec]; exact hsub⟩

end XVapor.Vm
