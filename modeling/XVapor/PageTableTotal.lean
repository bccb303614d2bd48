import XVapor.PageTableSpec

/-!
# When the Page Table Operations Succeed

An operation on a page table panics if it meets an entry it does not expect, and fails if
there is no memory. Here are the conditions under which neither happens. With what
`PageTableSpec` says of a result, they determine the outcome.
-/

namespace XVapor.Vm

open Function
open Space

variable {S S' : Space} {v : ℕ}

/-- A page is found if the free list is not empty. -/
theorem kalloc_total {m : Mem} (h : 1 ≤ m.free) : ∃ n m', kalloc m = some (n, m') := by
  cases hk : kalloc m with
  | none =>
    rw [kalloc_eq_none] at hk
    omega
  | some x => exact ⟨x.1, x.2, rfl⟩

/-! ### Mapping and unmapping -/

/-- An entry that is not there is mapped, if there is memory for its levels. -/
theorem mappages_total (hv : v < vpn MAXVA) (hnone : S.tbl.pte v = none)
    (hmem : S.tbl.lacks v ≤ S.mem.free) (e : Pte) :
    ∃ S', mappages S v e = .ok (true, S') ∧ S'.tbl.pte = update S.tbl.pte v (some e) ∧
      S'.tbl.Walks v ∧ S'.mem.free + S.tbl.lacks v = S.mem.free := by
  obtain ⟨b, S1, hwalk⟩ := walk_true_total S hv
  obtain ⟨-, -, hleaf, -, hfail⟩ := walk_true_ok hwalk
  obtain rfl : b = true := by
    by_contra hb
    exact absurd (hfail (Bool.eq_false_of_not_eq_true hb)) (not_lt.2 hmem)
  have hnone1 : S1.tbl.pte v = none := by rw [Table.pte, hleaf, ← Table.pte, hnone]
  have h : mappages S v e = .ok (true, ⟨S1.mem, { S1.tbl with leaf := S1.tbl.leaf.insert v e }⟩) :=
    bind_eq_ok.2 ⟨(true, S1), hwalk, by simp only [if_true, hnone1]⟩
  obtain ⟨-, -, -, -, hrest⟩ | ⟨hb, -⟩ := mappages_ok h
  · exact ⟨_, h, hrest⟩
  · cases hb

/-- An entry is unmapped; if its page is to be freed, it is one of the allocator. -/
theorem unmapPage_total (doFree : Bool) {e : Pte} (hwf : S.tbl.Wf) (he : S.tbl.pte v = some e)
    (hfree : doFree = true → ∃ n, e.frame = .page n) : ∃ S', unmapPage S v doFree = .ok S' := by
  obtain ⟨hv, hwalks⟩ := hwf v e he
  obtain ⟨m, hm⟩ : ∃ m, (if doFree then kfree S.mem e.frame else .ok S.mem) = .ok m := by
    obtain _ | _ := doFree
    · exact ⟨S.mem, rfl⟩
    obtain ⟨n, hn⟩ := hfree rfl
    rw [hn]
    exact ⟨_, rfl⟩
  refine ⟨⟨m, { S.tbl with leaf := S.tbl.leaf.erase v }⟩,
    bind_eq_ok.2 ⟨_, walk_false hv, ?_⟩⟩
  simp only [hwalks, decide_true, if_true, he]
  exact bind_eq_ok.2 ⟨m, hm, rfl⟩

variable {n sz : ℕ}

/-- A range of user memory is unmapped and freed. -/
theorem unmapPages_total (hwf : S.tbl.Wf)
    (h : ∀ i, v ≤ i → i < v + n → ∃ e k, S.tbl.pte i = some e ∧ e.frame = .page k) :
    ∃ S', unmapPages true n v S = .ok S' := by
  induction n generalizing v S with
  | zero => exact ⟨S, rfl⟩
  | succ n ih =>
    obtain ⟨e, k, he, hk⟩ := h v (Nat.le_refl v) (by omega)
    obtain ⟨S1, h1⟩ := unmapPage_total true hwf he fun _ => ⟨k, hk⟩
    obtain ⟨_, -, -, hpte, hfree, -⟩ := unmapPage_ok h1
    obtain ⟨S', h'⟩ := ih ((hfree rfl).2.wf hwf) (v := v + 1) fun i hvi hi => by
      rw [hpte, update_of_ne (by omega)]
      exact h i (by omega) (by omega)
    exact ⟨S', bind_eq_ok.2 ⟨S1, h1, h'⟩⟩

/-- A page that is mapped is unmapped, and keeps its owner. -/
theorem uvmunmap_one_total (va : ℕ) (hwf : S.tbl.Wf) (hva : va % PGSIZE = 0)
    (he : S.tbl.pte (vpn va) ≠ none) : ∃ S', uvmunmap S va 1 false = .ok S' ∧ S'.tbl.Wf ∧
      S'.tbl.pte = update S.tbl.pte (vpn va) none := by
  obtain ⟨e, he⟩ := Option.ne_none_iff_exists'.1 he
  obtain ⟨S1, h1⟩ := unmapPage_total false hwf he (by simp)
  have h : uvmunmap S va 1 false = .ok S1 := by
    rw [uvmunmap, if_neg (by simpa using hva)]
    exact bind_eq_ok.2 ⟨S1, h1, rfl⟩
  obtain ⟨_, -, -, hpte, hedit⟩ := uvmunmap_one_ok h
  exact ⟨S1, h, hedit.wf hwf, hpte⟩

/-! ### New tables and new threads -/

variable {old : Table}

/-- The pages of user memory of `n` pages, and of the levels of its table. -/
def tablePages (n : ℕ) : ℕ := n + (n + 511) / 512 + (n + 262143) / 262144

/-- Behind a page that is mapped, a page needs new levels only where they begin. -/
theorem Table.Walks.lacks_succ {T : Table} (h : T.Walks v) :
    T.lacks (v + 1) + 1 + tablePages (v + 1) ≤ tablePages (v + 2) := by
  obtain ⟨h2, h1⟩ := h
  have hlevel : ∀ l, entry l v ∈ T.node → entry l (v + 1) ∉ T.node →
      (v + 1) / 512 ^ l ≠ v / 512 ^ l := by
    intro l hl hnot heq
    rw [entry, heq] at hnot
    exact hnot hl
  have hlevel2 := hlevel 2 h2
  have hlevel1 := hlevel 1 h1
  simp only [Table.lacks, tablePages]
  split_ifs with hmem2 hmem1 hmem1
  · omega
  · have hnew1 := hlevel1 hmem1
    omega
  · have hnew2 := hlevel2 hmem2
    omega
  · have hnew1 := hlevel1 hmem1
    have hnew2 := hlevel2 hmem2
    omega

/-- The first page needs two levels at most. -/
theorem Table.lacks_zero (T : Table) : T.lacks 0 + 1 + tablePages 0 ≤ tablePages 1 :=
  Nat.add_le_add_right (T.lacks_le 0) 1

/-- `uvmcopy` needs memory for the pages and the levels of the new table. -/
theorem uvmcopyLoop_total (hwf : old.Wf)
    (hold : ∀ i, v ≤ i → i < v + n → ∃ e, old.pte i = some e)
    (hnone : ∀ i, v ≤ i → i < v + n → S.tbl.pte i = none)
    (hlacks : S.tbl.lacks v + 1 + tablePages v ≤ tablePages (v + 1))
    (hfree : tablePages (v + n) ≤ S.mem.free + tablePages v) :
    ∃ S', uvmcopyLoop old n v S = .ok (true, S') ∧
      S.mem.free + tablePages v ≤ S'.mem.free + tablePages (v + n) := by
  induction n generalizing v S with
  | zero => exact ⟨S, rfl, Nat.le_refl _⟩
  | succ n ih =>
    obtain ⟨e, he⟩ := hold v (Nat.le_refl v) (by omega)
    obtain ⟨hv, hwalks⟩ := hwf v e he
    have hmono : tablePages (v + 1) ≤ tablePages (v + (n + 1)) := by
      simp only [tablePages]
      omega
    obtain ⟨pa, m, hk⟩ := kalloc_total (m := S.mem) (by omega)
    have hfree0 := kalloc_free hk
    have hfill : (m.fill pa (m.bytes e.frame)).free = m.free := rfl
    obtain ⟨S1, h1, hpte, hwalks1, hfree1⟩ := mappages_total
      (S := ⟨m.fill pa (m.bytes e.frame), S.tbl⟩) hv (hnone v (Nat.le_refl v) (by omega))
      (by dsimp only; omega) { e with frame := .page pa }
    dsimp only at hfree1
    have hsum : v + 1 + n = v + (n + 1) := by omega
    obtain ⟨S', h', hfree'⟩ := ih (v := v + 1) (S := S1)
      (fun i hvi hi => hold i (by omega) (by omega))
      (fun i hvi hi => by
        rw [hpte, update_of_ne (by omega)]
        exact hnone i (by omega) (by omega))
      hwalks1.lacks_succ (by rw [hsum]; omega)
    rw [hsum] at hfree'
    refine ⟨S', bind_eq_ok.2 ⟨_, walk_false hv, ?_⟩, by omega⟩
    simp only [hwalks, decide_true, if_true, he, hk]
    exact bind_eq_ok.2 ⟨_, h1, h'⟩

/-- A new table has its root, and two levels for its two entries. -/
theorem procPagetable_total {m : Mem} (h : 3 ≤ m.free) :
    ∃ T m', procPagetable m = .ok (some T, m') := by
  obtain ⟨root, m0, hk⟩ := kalloc_total (m := m) (by omega)
  have hfree := kalloc_free hk
  have htwo := (⟨root, ∅, ∅⟩ : Table).lacks_le (vpn TRAMPOLINE)
  obtain ⟨S1, h1, hpte, hwalks, -⟩ := mappages_total (S := ⟨m0, ⟨root, ∅, ∅⟩⟩)
    (v := vpn TRAMPOLINE) (by decide) rfl (by dsimp only; omega) trampolinePte
  have hne : vpn SIGRETURN ≠ vpn TRAMPOLINE := by decide
  have hnone : S1.tbl.lacks (vpn SIGRETURN) = 0 := Table.lacks_eq_zero.2 hwalks
  obtain ⟨S2, h2, -⟩ := mappages_total (S := S1) (v := vpn SIGRETURN) (by decide)
    (by rw [hpte, update_of_ne hne]; rfl) (by omega) sigreturnPte
  refine ⟨S2.tbl, S2.mem, ?_⟩
  rw [procPagetable, hk]
  exact bind_eq_ok.2 ⟨_, h1, bind_eq_ok.2 ⟨_, h2, rfl⟩⟩

/-- The first thread has its slot in the page of the trampoline. -/
theorem Table.Wf.lacks_slot {T : Table} {e : Pte} (h : T.Wf)
    (he : T.pte (vpn TRAMPOLINE) = some e) : T.lacks (slot 0) = 0 :=
  Table.lacks_eq_zero.2 (h _ _ he).2

/-- A thread gets its trap frame if the slot of its index is free. -/
theorem uvmThreadTrapframe_total {idx : ℕ} (hidx : slot idx < vpn MAXVA)
    (hnone : S.tbl.pte (slot idx) = none) (hfree : S.tbl.lacks (slot idx) + 1 ≤ S.mem.free) :
    ∃ n S', uvmThreadTrapframe S idx = .ok (some n, S') := by
  obtain ⟨n, m, hk⟩ := kalloc_total (m := S.mem) (by omega)
  have hfree0 := kalloc_free hk
  obtain ⟨S1, h1, -⟩ := mappages_total (S := ⟨m, S.tbl⟩) hidx hnone (by dsimp only; omega)
    (trapframePte (.page n))
  refine ⟨n, S1, ?_⟩
  rw [uvmThreadTrapframe, hk]
  refine bind_eq_ok.2 ⟨(true, S1), ?_, rfl⟩
  rw [vpn_threadTrapframe]
  exact h1

/-! ### The end of a table -/

/-- A table without entries is freed. -/
theorem freewalk_total (h : S.tbl.pte = fun _ => none) : ∃ m, freewalk S = .ok m := by
  have hentries : S.tbl.leaf.entries = [] := by
    rw [List.eq_nil_iff_forall_not_mem]
    intro x hx
    have hlookup : S.tbl.pte x.1 = some x.2 := AList.mem_lookup_iff.2 hx
    rw [h] at hlookup
    cases hlookup
  refine ⟨{ S.mem with freed := S.tbl.nodes ++ S.mem.freed }, ?_⟩
  rw [freewalk, if_pos (List.isEmpty_iff.2 hentries)]

/-- A table is freed that has user memory only. -/
theorem uvmfree_total (sz : ℕ) (hwf : S.tbl.Wf)
    (hlow : ∀ i < pages sz, ∃ e k, S.tbl.pte i = some e ∧ e.frame = .page k)
    (honly : ∀ i e, S.tbl.pte i = some e → i < pages sz) : ∃ m, uvmfree S sz = .ok m := by
  obtain ⟨S1, h1, hpte⟩ : ∃ S1, (if 0 < sz then uvmunmap S 0 (pages sz) true else .ok S) =
      .ok S1 ∧ S1.tbl.pte = fun _ => none := by
    by_cases hsz : 0 < sz
    · obtain ⟨S1, h1⟩ := unmapPages_total (v := 0) (n := pages sz) hwf fun i _ hi =>
        hlow i (by omega)
      obtain ⟨-, hpte, -⟩ := unmapPages_ok h1
      have hunmap : uvmunmap S 0 (pages sz) true = .ok S1 := by
        rw [uvmunmap, if_neg (by simp)]
        exact h1
      refine ⟨S1, by rw [if_pos hsz, hunmap], funext fun i => ?_⟩
      rw [hpte]
      by_cases hi : i < pages sz
      · rw [if_pos (by omega)]
      · rw [if_neg (by omega)]
        exact Option.eq_none_iff_forall_ne_some.2 fun e he => hi (honly i e he)
    · refine ⟨S, by rw [if_neg hsz], funext fun i => ?_⟩
      refine Option.eq_none_iff_forall_ne_some.2 fun e he => ?_
      have hi := honly i e he
      rw [show sz = 0 by omega, pages_zero] at hi
      omega
  obtain ⟨m, hm⟩ := freewalk_total hpte
  exact ⟨m, bind_eq_ok.2 ⟨S1, h1, hm⟩⟩

/-- **A table is freed without a panic** if it holds the trampoline, the code that returns from
a signal handler, the trap frame of the first thread, and memory below the size. -/
theorem procFreepagetable_total (hwf : S.tbl.Wf)
    (htramp : S.tbl.pte (vpn TRAMPOLINE) ≠ none) (hsig : S.tbl.pte (vpn SIGRETURN) ≠ none)
    (hslot : S.tbl.pte (slot 0) ≠ none) (hsz : pages sz ≤ slot 0)
    (hlow : ∀ i < pages sz, ∃ e k, S.tbl.pte i = some e ∧ e.frame = .page k)
    (honly : ∀ i e, S.tbl.pte i = some e → i = vpn TRAMPOLINE ∨ i = vpn SIGRETURN ∨
      i = slot 0 ∨ i < pages sz) : ∃ m, procFreepagetable S sz 1 = .ok m := by
  have hne1 : vpn SIGRETURN ≠ vpn TRAMPOLINE := by decide
  have hne2 : slot 0 < vpn SIGRETURN := by decide
  have hne3 : slot 0 < vpn TRAMPOLINE := by decide
  obtain ⟨S1, h1, hwf1, hpte1⟩ := uvmunmap_one_total TRAMPOLINE hwf (by decide) htramp
  obtain ⟨S2, h2, hwf2, hpte2⟩ := uvmunmap_one_total SIGRETURN hwf1 (by decide)
    (by rwa [hpte1, update_of_ne hne1])
  obtain ⟨S3, h3, hwf3, hpte3⟩ := uvmunmap_one_total (threadTrapframe 0) hwf2 (by decide)
    (by rwa [vpn_threadTrapframe, hpte2, update_of_ne hne2.ne, hpte1, update_of_ne hne3.ne])
  have hpte : ∀ i, S3.tbl.pte i =
      if i = slot 0 ∨ i = vpn SIGRETURN ∨ i = vpn TRAMPOLINE then none else S.tbl.pte i := by
    intro i
    simp only [hpte3, hpte2, hpte1, vpn_threadTrapframe, update_apply, ite_or]
  obtain ⟨m, hm⟩ := uvmfree_total sz hwf3
    (fun i hi => by
      rw [hpte, if_neg (by omega)]
      exact hlow i hi)
    (fun i e hi => by
      rw [hpte] at hi
      obtain ⟨hout, hi⟩ := Option.ite_none_left_eq_some.1 hi
      have hin := honly i e hi
      tauto)
  refine ⟨m, bind_eq_ok.2 ⟨S1, h1, bind_eq_ok.2 ⟨S2, h2, bind_eq_ok.2 ⟨S3, ?_, hm⟩⟩⟩⟩
  simp only [unmapTrapframes, Int.toNat_one, List.range_one, List.foldlM_cons, List.foldlM_nil,
    bind_pure]
  exact h3

end XVapor.Vm
