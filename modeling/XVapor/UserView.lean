import XVapor.SpaceMachine

/-!
# What a Process Reads

A load of the user finds a page that is mapped, or takes a page fault and finds what the
handler puts into a new page: the bytes of the file of the mapping, and zeros. So the byte that
is read at an address depends on the entry of the page, or else on the first mapping that holds
the page.

**A store of one process is not seen by another.** By the balance of memory no page is in the
tables of two processes, and a page fault reads from a file, which no call changes.
-/

namespace XVapor.Vm

open Files (ProcId ProcState)
open Space

variable {k k' : Kernel} {p q : ProcId} {T : Table} {va : ℕ} {x : UInt8} {e : Pte}

/-! ### Loads -/

/-- The byte that the page fault handler puts at an address of a mapping. -/
def freshByte (k : Kernel) (w : Vma) (va : ℕ) : UInt8 :=
  (faultBytes k w (vpn va)).getD (va % PGSIZE) 0

/-- **A load from a page that is mapped** returns its byte if the page is for the user and
readable, and does not return otherwise. -/
theorem userLoad_mapped (hT : k.table p = some T) (he : T.pte (vpn va) = some e) :
    userLoad k p va = .ok (x, k') ↔
      (e.u = true ∧ e.r = true) ∧ x = k.mem.bytes e.frame (va % PGSIZE) ∧ k' = k := by
  have hspace : k.space p = .ok ⟨k.mem, T⟩ := Kernel.space_eq_ok.2 ⟨T, hT, rfl⟩
  constructor
  · intro h
    obtain ⟨haccess, T1, e1, hT1, he1, hx⟩ := userLoad_ok h
    obtain ⟨rfl | hfault, T2, e2, hT2, he2, hu, hr⟩ := access_ok haccess
    · obtain rfl := Option.some.inj (hT1.symm.trans hT)
      obtain rfl := Option.some.inj (hT2.symm.trans hT)
      obtain rfl := Option.some.inj (he1.symm.trans he)
      obtain rfl := Option.some.inj (he2.symm.trans he)
      exact ⟨⟨hu, by simpa using hr⟩, hx, rfl⟩
    · -- the handler does not map the page again
      obtain ⟨_, _, _, T3, _, _, -, hT3, hnone, -⟩ := pgfaultHandler_ok hfault
      obtain rfl := Option.some.inj (hT3.symm.trans hT)
      rw [he] at hnone
      cases hnone
  · rintro ⟨⟨hu, hr⟩, hx, hk⟩
    rw [hx, hk]
    have hpermits : permits ⟨k.mem, T⟩ (vpn va) false = true := by simp [permits, he, hu, hr]
    have haccess : access k p (vpn va) false = .ok k := by
      refine bind_eq_ok.2 ⟨_, hspace, ?_⟩
      rw [if_pos hpermits]
    refine bind_eq_ok.2 ⟨k, haccess, bind_eq_ok.2 ⟨_, hspace, ?_⟩⟩
    simp only [he]

/-- **A load from a page that is not mapped** returns what the handler reads for the first
mapping that holds the page. -/
theorem userLoad_fault (hc : Core k) (hT : k.table p = some T) (hnone : T.pte (vpn va) = none)
    (h : userLoad k p va = .ok (x, k')) :
    ∃ r, findVma (vpn va * PGSIZE) (k.proc p).vmas = some r ∧ r.2.1.prot &&& PROT_READ ≠ 0 ∧
      x = freshByte k r.2.1 va := by
  obtain ⟨haccess, T1, e1, hT1, he1, hx⟩ := userLoad_ok h
  obtain ⟨rfl | hfault, T2, e2, hT2, he2, -, hr⟩ := access_ok haccess
  · rw [Option.some.inj (hT1.symm.trans hT), hnone] at he1
    cases he1
  obtain ⟨before, w, after, T3, n, S, hfind, hT3, -, hedit, hpte, hdata, rfl⟩ :=
    pgfaultHandler_ok hfault
  obtain rfl := Option.some.inj (hT3.symm.trans hT)
  obtain ⟨-, -, hself⟩ := hc.edit hT hedit
  have hentry : S.tbl.pte (vpn va) = some (faultPte w n) := by rw [hpte, Function.update_self]
  rw [Option.some.inj (hT1.symm.trans hself), hentry] at he1
  rw [Option.some.inj (hT2.symm.trans hself), hentry] at he2
  cases he1
  cases he2
  refine ⟨(before, w, after), hfind, by simpa [faultPte] using hr, ?_⟩
  rw [hx]
  exact hdata _

theorem userLoad_fault_total {r : List Vma × Vma × List Vma} (hc : Core k)
    (hT : k.table p = some T) (hnone : T.pte (vpn va) = none) (hv : vpn va < vpn MAXVA)
    (hfind : findVma (vpn va * PGSIZE) (k.proc p).vmas = some r)
    (hread : r.2.1.prot &&& PROT_READ ≠ 0) (hfree : 4 ≤ k.mem.free) :
    ∃ k', userLoad k p va = .ok (freshByte k r.2.1 va, k') := by
  obtain ⟨before, w, after⟩ := r
  have hspace : k.space p = .ok ⟨k.mem, T⟩ := Kernel.space_eq_ok.2 ⟨T, hT, rfl⟩
  obtain ⟨n, m, hkalloc⟩ := kalloc_total (m := k.mem) (by omega)
  have hfree0 := kalloc_free hkalloc
  have htwo := T.lacks_le (vpn va)
  obtain ⟨S, hmap, -, -, hfree1⟩ := mappages_total (S := ⟨m, T⟩) hv hnone (by dsimp only; omega)
    (faultPte w n)
  obtain ⟨k1, hhandler⟩ : ∃ k1, pgfaultHandler k p (vpn va) = .ok k1 := by
    refine ⟨k.put ⟨S.mem.write (.page n) 0 (faultBytes k w (vpn va)), S.tbl⟩, ?_⟩
    rw [pgfaultHandler, hfind]
    refine bind_eq_ok.2 ⟨_, hspace, ?_⟩
    simp only [hkalloc]
    refine bind_eq_ok.2 ⟨_, hmap, ?_⟩
    dsimp only at hfree1
    have hmore : S.mem.free ≠ 0 := by omega
    rw [if_pos rfl, if_neg fun hlow => hmore hlow.2]
  obtain ⟨before', w', after', T', n', S', hfind', hT', -, hedit, hpte', -, rfl⟩ :=
    pgfaultHandler_ok hhandler
  obtain ⟨rfl, rfl, rfl⟩ : before = before' ∧ w = w' ∧ after = after' := by
    simpa using hfind.symm.trans hfind'
  obtain rfl := Option.some.inj (hT'.symm.trans hT)
  obtain ⟨-, -, hself⟩ := hc.edit hT hedit
  have hentry : S'.tbl.pte (vpn va) = some (faultPte w n') := by rw [hpte', Function.update_self]
  have hspace' : (k.put S').space p = .ok ⟨S'.mem, S'.tbl⟩ :=
    Kernel.space_eq_ok.2 ⟨S'.tbl, hself, rfl⟩
  have haccess : access k p (vpn va) false = .ok (k.put S') := by
    refine bind_eq_ok.2 ⟨_, hspace, ?_⟩
    rw [if_neg (by simp [permits, hnone])]
    refine bind_eq_ok.2 ⟨_, hhandler, bind_eq_ok.2 ⟨_, hspace', ?_⟩⟩
    rw [if_pos (by simpa [permits, hentry, faultPte] using hread)]
  have hload : userLoad k p va = .ok (S'.mem.bytes (.page n') (va % PGSIZE), k.put S') := by
    refine bind_eq_ok.2 ⟨_, haccess, bind_eq_ok.2 ⟨_, hspace', ?_⟩⟩
    simp only [hentry]
    rfl
  obtain ⟨r, hr, -, hfresh⟩ := userLoad_fault hc hT hnone hload
  obtain rfl := Option.some.inj (hr.symm.trans hfind)
  exact ⟨k.put S', by rw [← hfresh]; exact hload⟩

/-! ### Stores -/

/-- **No page is in two tables.** -/
theorem Core.refs_add_le {T' : Table} (hc : Core k) (hne : p ≠ q) (hT : k.table p = some T)
    (hT' : k.table q = some T') (n : ℕ) : T.refs n + T'.refs n ≤ 1 := by
  have hpair : ∑ i ∈ {p, q}, owned (k.table i) n ≤ ∑ i, owned (k.table i) n :=
    Finset.sum_le_sum_of_subset_of_nonneg (Finset.subset_univ _) fun i _ _ => owned_nonneg _ n
  rw [Finset.sum_pair hne, hT, hT', owned_some, owned_some, ← hc.balance] at hpair
  exact hpair.trans (k.mem.live_le_one n)

theorem access_keeps {v : ℕ} {write : Bool} (h : access k p v write = .ok k') :
    k'.file = k.file ∧ k.mem.Keeps k'.mem := by
  obtain ⟨rfl | hfault, -⟩ := access_ok h
  · exact ⟨rfl, fun _ _ => rfl⟩
  · obtain ⟨_, _, _, T, n, S, -, -, -, hedit, -, -, rfl⟩ := pgfaultHandler_ok hfault
    exact ⟨rfl, hedit.data⟩

/-- **What a store leaves of another process**: its record, its table, and the bytes of its
pages. -/
theorem userStore_frame (hk : Inv k) (hs : (k.proc p).state = .used) (hne : q ≠ p)
    (hT : k.table q = some T) (h : userStore k p va x = .ok k') :
    k'.proc = k.proc ∧ k'.table q = some T ∧ k'.file = k.file ∧
      ∀ n, 1 ≤ T.refs n → k'.mem.data n = k.mem.data n := by
  obtain ⟨hk', hapart, hproc⟩ := userStore_inv hk hs h
  obtain ⟨k1, T1, e, haccess, hT1, he, rfl⟩ := userStore_ok h
  obtain ⟨hk1, hapart1, -⟩ := access_inv hk hs haccess
  obtain ⟨hfile, hkeeps⟩ := access_keeps haccess
  refine ⟨hproc, by rw [hapart.table q hne, hT], hfile, fun n hn => ?_⟩
  rw [← hkeeps n (hk.core.page_lt hT hn).1, Kernel.put_mem]
  cases hframe : e.frame with
  | kernel => rfl
  | null => rfl
  | page m =>
    -- the page that is written is in the table of `p`
    have hm := Table.one_le_refs he hframe
    have hadd := hk1.core.refs_add_le hne.symm hT1 ((hapart1.table q hne).trans hT) n
    have hnm : n ≠ m := by
      rintro rfl
      omega
    exact Function.update_of_ne hnm _ _

/-- The addresses below the size, and those of private mappings. -/
def PrivateAddr (k : Kernel) (p : ProcId) (va : ℕ) : Prop :=
  va < (k.proc p).sz ∨
    ∃ w ∈ (k.proc p).vmas, w.flags &&& MAP_SHARED = 0 ∧ w.start ≤ va ∧ va < w.stop

/-- **Stores of `p` are not seen by `q`**: after one at a private address, every load of `q`
returns what it would have returned before. -/
def Isolated (k : Kernel) (p q : ProcId) : Prop :=
  ∀ va x k', PrivateAddr k p va → userStore k p va x = .ok k' →
    ∀ va' y z k1 k2, userLoad k q va' = .ok (y, k1) → userLoad k' q va' = .ok (z, k2) → z = y

/-- **A store is not seen by another process.** -/
theorem isolated_of_inv (hk : Inv k) (hp : (k.proc p).state = .used)
    (hq : (k.proc q).state = .used) (hne : q ≠ p) : Isolated k p q := by
  intro va x k' _ hstore va' y z k1 k2 hy hz
  obtain ⟨T, hT, hshape, -, -⟩ := hk.running hq
  obtain ⟨hproc, hT', hfile, hdata⟩ := userStore_frame hk hp hne hT hstore
  have hk' := (userStore_inv hk hp hstore).1
  cases he : T.pte (vpn va') with
  | none =>
    obtain ⟨r, hr, -, rfl⟩ := userLoad_fault hk.core hT he hy
    obtain ⟨r', hr', -, rfl⟩ := userLoad_fault hk'.core hT' he hz
    rw [hproc] at hr'
    obtain rfl := Option.some.inj (hr'.symm.trans hr)
    rw [freshByte, freshByte, faultBytes, faultBytes, hfile]
  | some e =>
    obtain ⟨-, rfl, -⟩ := (userLoad_mapped hT he).1 hy
    obtain ⟨-, rfl, -⟩ := (userLoad_mapped hT' he).1 hz
    cases hframe : e.frame with
    | kernel => rfl
    | null => rfl
    | page n => exact congrFun (hdata n (Table.one_le_refs he hframe)) _

end XVapor.Vm
