import XVapor.PageTable

/-!
# What the Page Table Operations Do

Every operation on a page table is described by three things: what it does to the leaf
entries, that memory only moves on (`Mem.Le`), and how it changes the **balance** between the
table and the allocator. The allocator says that a page has one owner if it is allocated and
not freed (`Mem.live`); the table says how often it refers to a page (`Table.refs`). The
`excess` of a table is the difference, and an operation that takes pages and maps them, or
unmaps pages and frees them, does not change it.
-/

namespace XVapor.Vm

open Function

/-! ### Memory -/

namespace Mem

/-- The number of owners a page has by the allocator: one from `kalloc` to `kfree`. -/
def live (m : Mem) (n : ℕ) : ℤ := (if n < m.next then 1 else 0) - m.freed.count n

/-- No more pages are in use than there are. -/
def Room (m : Mem) : Prop := m.next ≤ m.total + m.freed.length

/-- Memory after some calls of `kalloc` and `kfree`. -/
structure Le (m m' : Mem) : Prop where
  total : m'.total = m.total
  next : m.next ≤ m'.next
  freed : m.freed <:+ m'.freed
  room : m.Room → m'.Room

theorem Le.refl (m : Mem) : m.Le m := ⟨rfl, Nat.le_refl _, List.suffix_refl _, id⟩

variable {m m' : Mem}

theorem Le.trans {m'' : Mem} (h : m.Le m') (h' : m'.Le m'') : m.Le m'' :=
  ⟨h'.total.trans h.total, h.next.trans h'.next, h.freed.trans h'.freed,
    fun hr => h'.room (h.room hr)⟩

/-- The pages that were there have their bytes. -/
def Keeps (m m' : Mem) : Prop := ∀ n < m.next, m'.data n = m.data n

theorem Keeps.bytes (h : m.Keeps m') {f : Frame}
    (hf : ∀ k, f = .page k → k < m.next) : m'.bytes f = m.bytes f := by
  cases f with
  | page k => exact h k (hf k rfl)
  | kernel => rfl
  | null => rfl

theorem live_le_one (m : Mem) (n : ℕ) : m.live n ≤ 1 := by
  rw [live]
  split <;> omega

theorem one_le_live {n : ℕ} (h : 1 ≤ m.live n) : n < m.next ∧ n ∉ m.freed := by
  rw [live] at h
  split at h
  next hn => exact ⟨hn, List.count_eq_zero.1 (by omega)⟩
  next => omega

end Mem

/-- The number of references of an entry to the page `n`. -/
def Frame.refs (f : Frame) (n : ℕ) : ℤ := if f = .page n then 1 else 0

theorem Frame.refs_nonneg (f : Frame) (n : ℕ) : 0 ≤ f.refs n := by
  rw [refs]
  split <;> omega

@[simp]
theorem Frame.refs_page_self (n : ℕ) : (Frame.page n).refs n = 1 := if_pos rfl

@[simp]
theorem Frame.refs_kernel : Frame.kernel.refs = 0 := rfl

variable {m m' : Mem} {n va oldsz newsz r sz : ℕ}

theorem kalloc_eq_some (h : kalloc m = some (n, m')) :
    n = m.next ∧ m.Le m' ∧ m.Keeps m' ∧ m'.next = m.next + 1 ∧ m'.freed = m.freed ∧
      ∀ i, m'.live i = m.live i + (Frame.page n).refs i := by
  rw [kalloc] at h
  split at h
  next hlt =>
    cases h
    refine ⟨rfl, ⟨rfl, Nat.le_succ _, List.suffix_refl _, fun _ => hlt⟩, fun i hi => ?_, rfl,
      rfl, fun i => ?_⟩
    · exact update_of_ne (by omega) _ _
    · simp only [Mem.live, Mem.fill, Frame.refs, Frame.page.injEq]
      split <;> split <;> split <;> omega
  next => cases h

theorem kalloc_zero (h : kalloc m = some (n, m')) : m'.data n = fun _ => 0 := by
  rw [kalloc] at h
  obtain ⟨-, h⟩ := guard_eq_some.1 h
  cases h
  exact update_self _ _ _

/-- `kalloc` fails if and only if the free list is empty. -/
theorem kalloc_eq_none : kalloc m = none ↔ m.free = 0 := by
  rw [kalloc, Mem.free]
  split
  next h => simp only [reduceCtorEq, false_iff]; omega
  next h => simp only [true_iff]; omega

theorem kalloc_free (h : kalloc m = some (n, m')) :
    m.free = m'.free + 1 := by
  obtain ⟨-, hle, -, hnext, hfreed, -⟩ := kalloc_eq_some h
  have hne : m.free ≠ 0 := fun hzero => by
    rw [kalloc_eq_none.2 hzero] at h
    cases h
  simp only [Mem.free, hle.total, hnext, hfreed] at hne ⊢
  omega

theorem kfree_eq_ok {f : Frame} (h : kfree m f = .ok m') :
    ∃ n, f = .page n ∧ m' = { m with freed := n :: m.freed } ∧ m.Le m' ∧
      ∀ i, m'.live i = m.live i - f.refs i := by
  cases f with
  | page n =>
    cases h
    refine ⟨n, rfl, rfl, ⟨rfl, Nat.le_refl _, List.suffix_cons _ _,
      fun hr => Nat.le_succ_of_le hr⟩, fun i => ?_⟩
    simp only [Mem.live, Frame.refs, Frame.page.injEq, List.count_cons, beq_iff_eq]
    split <;> split <;> push_cast <;> omega
  | kernel => cases h
  | null => cases h

/-! ### The balance of a table -/

namespace Table

/-- The number of references of a table to the page `n`. -/
def refs (T : Table) (n : ℕ) : ℤ :=
  (if T.root = n then 1 else 0) + weight (fun x => if x = n then 1 else 0) T.node +
    weight (fun e : Pte => e.frame.refs n) T.leaf

/-- There are pages for the levels of the entry of `v`. -/
def Walks (T : Table) (v : ℕ) : Prop := entry 2 v ∈ T.node ∧ entry 1 v ∈ T.node

instance (T : Table) (v : ℕ) : Decidable (T.Walks v) :=
  inferInstanceAs (Decidable (_ ∧ _))

/-- The pages that a walk to `v` adds to a table. -/
def lacks (T : Table) (v : ℕ) : ℕ :=
  (if entry 2 v ∈ T.node then 0 else 1) + (if entry 1 v ∈ T.node then 0 else 1)

theorem lacks_le (T : Table) (v : ℕ) : T.lacks v ≤ 2 := by
  unfold lacks
  split_ifs <;> decide

theorem lacks_eq_zero {T : Table} {v : ℕ} : T.lacks v = 0 ↔ T.Walks v := by
  simp [lacks, Walks]

/-- Every entry is in a page of the table. -/
def Wf (T : Table) : Prop := ∀ v e, T.pte v = some e → v < vpn MAXVA ∧ T.Walks v

@[simp]
theorem pte_insert (T : Table) (v : ℕ) (e : Pte) :
    ({ T with leaf := T.leaf.insert v e } : Table).pte = update T.pte v (some e) := by
  funext i
  by_cases hi : i = v
  · rw [hi, update_self]
    exact AList.lookup_insert _
  · rw [update_of_ne hi]
    exact AList.lookup_insert_ne hi

@[simp]
theorem pte_erase (T : Table) (v : ℕ) :
    ({ T with leaf := T.leaf.erase v } : Table).pte = update T.pte v none := by
  funext i
  by_cases hi : i = v
  · rw [hi, update_self]
    exact AList.lookup_erase _ _
  · rw [update_of_ne hi]
    exact AList.lookup_erase_ne hi

theorem refs_root_nonneg (T : Table) (n : ℕ) :
    0 ≤ (if T.root = n then (1 : ℤ) else 0) +
      weight (fun x => if x = n then (1 : ℤ) else 0) T.node := by
  have hnode := weight_nonneg (fun x => show 0 ≤ if x = n then (1 : ℤ) else 0 by
    split <;> omega) T.node
  split <;> omega

theorem refs_nonneg (T : Table) (n : ℕ) : 0 ≤ T.refs n := by
  have hroot := T.refs_root_nonneg n
  have hleaf := weight_nonneg (fun e : Pte => e.frame.refs_nonneg n) T.leaf
  rw [refs]
  omega

variable {T : Table}

theorem one_le_refs {v n : ℕ} {e : Pte} (h : T.pte v = some e)
    (he : e.frame = .page n) : 1 ≤ T.refs n := by
  have hroot := T.refs_root_nonneg n
  have hle := le_weight (fun e : Pte => e.frame.refs_nonneg n) h
  rw [he, Frame.refs_page_self] at hle
  rw [refs]
  omega

theorem two_le_refs {v v' n : ℕ} {e e' : Pte} (hne : v ≠ v')
    (h : T.pte v = some e) (h' : T.pte v' = some e') (he : e.frame = .page n)
    (he' : e'.frame = .page n) : 2 ≤ T.refs n := by
  have hroot := T.refs_root_nonneg n
  have hle := add_le_weight (fun e : Pte => e.frame.refs_nonneg n) hne h h'
  rw [he, he', Frame.refs_page_self] at hle
  rw [refs]
  omega

theorem one_le_refs_root (T : Table) : 1 ≤ T.refs T.root := by
  have hnode := weight_nonneg (fun x => show 0 ≤ if x = T.root then (1 : ℤ) else 0 by
    split <;> omega) T.node
  have hleaf := weight_nonneg (fun e : Pte => e.frame.refs_nonneg T.root) T.leaf
  rw [refs, if_pos rfl]
  omega

end Table

namespace Space

/-- By how much the table refers to a page more often than the allocator says. -/
def excess (S : Space) (n : ℕ) : ℤ := S.tbl.refs n - S.mem.live n

/-- What every operation on the table keeps, and what it does to the balance. -/
structure Edit (S S' : Space) (d : ℕ → ℤ) : Prop where
  mem : S.mem.Le S'.mem
  data : S.mem.Keeps S'.mem
  root : S'.tbl.root = S.tbl.root
  node : ∀ i ∈ S.tbl.node, i ∈ S'.tbl.node
  wf : S.tbl.Wf → S'.tbl.Wf
  excess : ∀ n, S'.excess n = S.excess n + d n

variable {S S' S'' : Space} {d d' : ℕ → ℤ}

theorem Edit.refl (S : Space) : Edit S S 0 :=
  ⟨Mem.Le.refl _, fun _ _ => rfl, rfl, fun _ h => h, id, fun _ => (add_zero _).symm⟩

theorem Edit.trans (h : Edit S S' d) (h' : Edit S' S'' d') : Edit S S'' (d + d') :=
  ⟨h.mem.trans h'.mem, fun i hi => (h'.data i (hi.trans_le h.mem.next)).trans (h.data i hi),
    h'.root.trans h.root, fun i hi => h'.node i (h.node i hi), fun hw => h'.wf (h.wf hw),
    fun n => by rw [h'.excess, h.excess, Pi.add_apply, add_assoc]⟩

theorem Edit.trans_zero (h : Edit S S' 0) (h' : Edit S' S'' d) : Edit S S'' d := by
  have htrans := h.trans h'
  rwa [zero_add] at htrans

end Space

open Space

variable {S S' : Space} {v : ℕ}

/-! ### Walks -/

variable {b doFree : Bool}

theorem walkLevel_spec {level : ℕ} (h : walkLevel S level v true = (b, S')) :
    Edit S S' 0 ∧ S'.tbl.leaf = S.tbl.leaf ∧
      (b = true → entry level v ∈ S'.tbl.node ∧
        S'.mem.free + (if entry level v ∈ S.tbl.node then 0 else 1) = S.mem.free ∧
        ∀ l ≠ level, entry l v ∈ S'.tbl.node ↔ entry l v ∈ S.tbl.node) ∧
      (b = false → entry level v ∉ S.tbl.node ∧ S.mem.free = 0) := by
  rw [walkLevel] at h
  split at h
  · rename_i hmem
    cases h
    exact ⟨.refl S, rfl, fun _ => ⟨hmem, by rw [if_pos hmem]; rfl, fun _ _ => Iff.rfl⟩, by simp⟩
  rename_i hmem
  rw [if_pos rfl] at h
  rcases hk : kalloc S.mem with _ | ⟨n, m⟩
  · rw [hk] at h
    cases h
    exact ⟨.refl S, rfl, by simp, fun _ => ⟨hmem, kalloc_eq_none.1 hk⟩⟩
  rw [hk] at h
  cases h
  obtain ⟨-, hle, hkeeps, -, -, hlive⟩ := kalloc_eq_some hk
  have hnode : ∀ i ∈ S.tbl.node, i ∈ S.tbl.node.insert (entry level v) n :=
    fun i hi => (AList.mem_insert _).2 (.inr hi)
  refine ⟨⟨hle, hkeeps, rfl, hnode, fun hw i e hi => ?_, fun i => ?_⟩, rfl,
    fun _ => ⟨(AList.mem_insert _).2 (.inl rfl), ?_, fun l hl => ?_⟩, by simp⟩
  · have hi := hw i e hi
    exact ⟨hi.1, hnode _ hi.2.1, hnode _ hi.2.2⟩
  · simp only [excess, Table.refs, weight_insert (AList.lookup_eq_none.2 hmem), hlive,
      Frame.refs, Frame.page.injEq, Pi.zero_apply]
    omega
  · rw [if_neg hmem, kalloc_free hk]
  · have hne : entry l v ≠ entry level v := fun heq => hl (Prod.mk.inj heq).1
    simp [hne]

/-- **The memory of a walk**: it finds the page of the entry if there is memory for the levels
that are not there, and takes no more. -/
theorem walk_true_ok (h : walk S v true = .ok (b, S')) :
    v < vpn MAXVA ∧ Edit S S' 0 ∧ S'.tbl.leaf = S.tbl.leaf ∧
      (b = true → S'.tbl.Walks v ∧ S'.mem.free + S.tbl.lacks v = S.mem.free) ∧
      (b = false → S.mem.free < S.tbl.lacks v) := by
  rw [walk] at h
  obtain ⟨hv, h⟩ := ite_error_ok.1 h
  rcases h2 : walkLevel S 2 v true with ⟨_ | _, S2⟩
  all_goals
    rw [h2] at h
    obtain ⟨hedit, hleaf, hfound, hfail⟩ := walkLevel_spec h2
  · cases h
    obtain ⟨hmem, hfree⟩ := hfail rfl
    refine ⟨not_le.1 hv, hedit, hleaf, by simp, fun _ => ?_⟩
    rw [Table.lacks, if_neg hmem]
    omega
  · obtain ⟨hnode, hfree, hsame⟩ := hfound rfl
    obtain ⟨hedit', hleaf', hfound', hfail'⟩ := walkLevel_spec (Except.ok.inj h)
    simp only [hsame 1 (by decide)] at hfound' hfail'
    refine ⟨not_le.1 hv, hedit.trans_zero hedit', hleaf'.trans hleaf, fun hb => ?_, fun hb => ?_⟩
    · obtain ⟨hnode', hfree', -⟩ := hfound' hb
      refine ⟨⟨hedit'.node _ hnode, hnode'⟩, ?_⟩
      rw [Table.lacks]
      omega
    · obtain ⟨hmem, hfree'⟩ := hfail' hb
      rw [Table.lacks, if_neg hmem]
      omega

theorem walk_true_total (S : Space) (hv : v < vpn MAXVA) : ∃ b S', walk S v true = .ok (b, S') := by
  rw [walk, if_neg (not_le.2 hv)]
  rcases walkLevel S 2 v true with ⟨_ | _, S2⟩
  · exact ⟨false, S2, rfl⟩
  · exact ⟨_, _, rfl⟩

theorem walk_false (hv : v < vpn MAXVA) :
    walk S v false = .ok (decide (S.tbl.Walks v), S) := by
  rw [walk, if_neg (not_le.2 hv)]
  by_cases h2 : entry 2 v ∈ S.tbl.node
  · by_cases h1 : entry 1 v ∈ S.tbl.node <;> simp [walkLevel, h2, h1, Table.Walks]
  · simp [walkLevel, h2, Table.Walks]

theorem walk_false_ok {found : Bool} (h : walk S v false = .ok (found, S')) :
    v < vpn MAXVA ∧ S = S' := by
  have hv : v < vpn MAXVA := by
    by_contra hv
    rw [walk, if_pos (not_lt.1 hv)] at h
    cases h
  rw [walk_false hv] at h
  cases h
  exact ⟨hv, rfl⟩

/-! ### Mapping and unmapping -/

/-- A page is mapped, with memory for the levels that are not there, or there is none for them. -/
theorem mappages_ok {e : Pte} (h : mappages S v e = .ok (b, S')) :
    b = true ∧ v < vpn MAXVA ∧ S.tbl.pte v = none ∧ Edit S S' e.frame.refs ∧
        S'.tbl.pte = update S.tbl.pte v (some e) ∧ S'.tbl.Walks v ∧
        S'.mem.free + S.tbl.lacks v = S.mem.free ∨
      b = false ∧ S.mem.free < S.tbl.lacks v ∧ Edit S S' 0 ∧ S'.tbl.pte = S.tbl.pte := by
  obtain ⟨⟨found, S1⟩, hwalk, h⟩ := bind_eq_ok.1 h
  obtain ⟨hv, hedit, hleaf, hfound, hfail⟩ := walk_true_ok hwalk
  have hpte : S1.tbl.pte = S.tbl.pte := by
    funext i
    rw [Table.pte, hleaf, Table.pte]
  obtain _ | _ := found
  · cases h
    exact .inr ⟨rfl, hfail rfl, hedit, hpte⟩
  obtain ⟨hwalks, hfree⟩ := hfound rfl
  cases hold : S1.tbl.pte v with
  | some e' => simp [hold] at h
  | none =>
    simp only [if_true, hold] at h
    cases h
    refine .inl ⟨rfl, hv, by rw [← hpte, hold], ?_, by rw [Table.pte_insert, hpte], hwalks, hfree⟩
    refine hedit.trans_zero ⟨.refl _, fun _ _ => rfl, rfl, fun _ hi => hi,
      fun hw i e' hi => ?_, fun n => ?_⟩
    · rw [Table.pte_insert] at hi
      by_cases hiv : i = v
      · rw [hiv]
        exact ⟨hv, hwalks⟩
      · exact hw i e' (by rwa [update_of_ne hiv] at hi)
    · simp only [excess, Table.refs, weight_insert (show S1.tbl.leaf.lookup v = none
        from hold)]
      omega

/-- A round of `uvmunmap` takes an entry away. Its page is freed, or it has an owner less. -/
theorem unmapPage_ok (h : unmapPage S v doFree = .ok S') :
    ∃ e, S.tbl.pte v = some e ∧ v < vpn MAXVA ∧
      S'.tbl.pte = update S.tbl.pte v none ∧
      (doFree = true → (∃ n, e.frame = .page n) ∧ Edit S S' 0) ∧
      (doFree = false → S'.mem = S.mem ∧ Edit S S' (-e.frame.refs)) := by
  obtain ⟨⟨found, S1⟩, hwalk, h⟩ := bind_eq_ok.1 h
  obtain ⟨hv, rfl⟩ := walk_false_ok hwalk
  obtain _ | _ := found
  · cases h
  rcases he : S.tbl.pte v with _ | e
  · simp [he] at h
  simp only [if_true, he] at h
  obtain ⟨m, hm, hS'⟩ := bind_eq_ok.1 h
  obtain rfl := Except.ok.inj hS'
  have hwf : S.tbl.Wf → ({ S.tbl with leaf := S.tbl.leaf.erase v } : Table).Wf := by
    intro hw i e' hi
    rw [Table.pte_erase] at hi
    by_cases hiv : i = v
    · rw [hiv, update_self] at hi
      cases hi
    · exact hw i e' (by rwa [update_of_ne hiv] at hi)
  have hrefs : ∀ n, ({ S.tbl with leaf := S.tbl.leaf.erase v } : Table).refs n =
      S.tbl.refs n - e.frame.refs n := by
    intro n
    simp only [Table.refs, weight_erase (show S.tbl.leaf.lookup v = some e from he)]
    omega
  refine ⟨e, rfl, hv, Table.pte_erase _ _, ?_, ?_⟩
  · rintro rfl
    obtain ⟨n, hn, rfl, hle, hlive⟩ := kfree_eq_ok hm
    refine ⟨⟨n, hn⟩, hle, fun _ _ => rfl, rfl, fun _ hi => hi, hwf, fun i => ?_⟩
    simp only [excess, hrefs, hlive, Pi.zero_apply]
    omega
  · rintro rfl
    obtain rfl := Except.ok.inj hm
    refine ⟨rfl, .refl _, fun _ _ => rfl, rfl, fun _ hi => hi, hwf, fun i => ?_⟩
    simp only [excess, hrefs, Pi.neg_apply]
    omega

theorem unmapPages_ok (h : unmapPages true n v S = .ok S') :
    (∀ i, v ≤ i → i < v + n → ∃ e k, S.tbl.pte i = some e ∧ e.frame = .page k) ∧
      (∀ i, S'.tbl.pte i = if v ≤ i ∧ i < v + n then none else S.tbl.pte i) ∧
      Edit S S' 0 := by
  induction n generalizing v S with
  | zero =>
    cases h
    exact ⟨fun i _ _ => by omega, fun i => by rw [if_neg (by omega)], .refl _⟩
  | succ n ih =>
    obtain ⟨S1, h1, h⟩ := bind_eq_ok.1 h
    obtain ⟨e, he, -, hpte, hfree, -⟩ := unmapPage_ok h1
    obtain ⟨⟨k, hk⟩, hedit⟩ := hfree rfl
    obtain ⟨hmapped, hpte', hedit'⟩ := ih h
    refine ⟨fun i hvi hi => ?_, fun i => ?_, hedit.trans_zero hedit'⟩
    · by_cases hiv : i = v
      · exact ⟨e, k, hiv ▸ he, hk⟩
      · obtain ⟨e', k', he', hk'⟩ := hmapped i (by omega) (by omega)
        rw [hpte, update_of_ne hiv] at he'
        exact ⟨e', k', he', hk'⟩
    · rw [hpte', hpte]
      by_cases hiv : i = v
      · rw [hiv, update_self, ite_self, if_pos (by omega)]
      · rw [update_of_ne hiv]
        exact if_congr (by omega) rfl rfl

theorem uvmunmap_ok (h : uvmunmap S va n doFree = .ok S') :
    unmapPages doFree n (vpn va) S = .ok S' := by
  rw [uvmunmap] at h
  split at h
  · cases h
  · exact h

theorem uvmunmap_one_ok (h : uvmunmap S va 1 false = .ok S') :
    ∃ e, S.tbl.pte (vpn va) = some e ∧ S'.mem = S.mem ∧
      S'.tbl.pte = update S.tbl.pte (vpn va) none ∧ Edit S S' (-e.frame.refs) := by
  obtain ⟨S1, h1, h⟩ := bind_eq_ok.1 (uvmunmap_ok h)
  cases h
  obtain ⟨e, he, -, hpte, -, hkeep⟩ := unmapPage_ok h1
  exact ⟨e, he, (hkeep rfl).1, hpte, (hkeep rfl).2⟩

/-! ### Sizes -/

@[simp]
theorem vpn_mul (v : ℕ) : vpn (v * PGSIZE) = v := Nat.mul_div_cancel v (by decide)

@[simp]
theorem pages_mul (v : ℕ) : pages (v * PGSIZE) = v := by
  simp only [pages, PGSIZE]
  omega

theorem pages_mono {a b : ℕ} (h : a ≤ b) : pages a ≤ pages b :=
  Nat.div_le_div_right (by omega)

@[simp]
theorem pages_zero : pages 0 = 0 := by decide

theorem uvmdealloc_ok (h : uvmdealloc S oldsz newsz = .ok (r, S')) :
    r = min oldsz newsz ∧
      (∀ i, S'.tbl.pte i = if pages r ≤ i ∧ i < pages oldsz then none else S.tbl.pte i) ∧
      Edit S S' 0 := by
  rw [uvmdealloc] at h
  split at h
  · rename_i hle
    cases h
    exact ⟨(min_eq_left hle).symm, fun i => by rw [if_neg (by omega)], .refl _⟩
  rename_i hlt
  obtain ⟨S1, h1, h⟩ := bind_eq_ok.1 h
  cases h
  refine ⟨(min_eq_right (by omega)).symm, ?_⟩
  split at h1
  next hpages =>
    obtain ⟨-, hpte, hedit⟩ := unmapPages_ok (uvmunmap_ok h1)
    rw [vpn_mul, Nat.add_sub_cancel' hpages.le] at hpte
    exact ⟨hpte, hedit⟩
  next hpages =>
    cases h1
    exact ⟨fun i => by rw [if_neg (by omega)], .refl _⟩

/-! ### The loops -/

variable {d : ℕ → ℤ}

theorem Edit.of_mem {c : ℕ → ℤ} (hle : S.mem.Le m) (hkeeps : S.mem.Keeps m)
    (hlive : ∀ i, m.live i = S.mem.live i + c i) (h : Edit ⟨m, S.tbl⟩ S' d) :
    Edit S S' (d - c) := by
  refine ⟨hle.trans h.mem, fun i hi => (h.data i (hi.trans_le hle.next)).trans (hkeeps i hi),
    h.root, h.node, h.wf, fun i => ?_⟩
  rw [h.excess]
  simp only [excess, hlive, Pi.sub_apply]
  omega

theorem Edit.of_kalloc (hk : kalloc S.mem = some (n, m))
    (h : Edit ⟨m, S.tbl⟩ S' d) : Edit S S' (d - (Frame.page n).refs) := by
  obtain ⟨-, hle, hkeeps, -, -, hlive⟩ := kalloc_eq_some hk
  exact Edit.of_mem hle hkeeps hlive h

theorem Edit.of_kalloc_fill {f : ℕ → UInt8}
    (hk : kalloc S.mem = some (n, m)) (h : Edit ⟨m.fill n f, S.tbl⟩ S' d) :
    Edit S S' (d - (Frame.page n).refs) := by
  obtain ⟨rfl, hle, hkeeps, -, -, hlive⟩ := kalloc_eq_some hk
  have hfill : S.mem.Le (m.fill S.mem.next f) := ⟨hle.total, hle.next, hle.freed, hle.room⟩
  refine Edit.of_mem hfill (fun i hi => ?_) hlive h
  rw [← hkeeps i hi]
  exact update_of_ne (by omega) _ _

theorem Edit.of_kfree (hk : kfree S.mem (.page n) = .ok m)
    (h : Edit ⟨m, S.tbl⟩ S' d) : Edit S S' (d + (Frame.page n).refs) := by
  obtain ⟨k, hn, rfl, hle, hlive⟩ := kfree_eq_ok hk
  have hedit := Edit.of_mem (c := -(Frame.page n).refs) hle (fun _ _ => rfl) hlive h
  rwa [sub_neg_eq_add] at hedit

/-- **A loop that maps new pages.** It has mapped the `n` pages from `v` on, with entries and
contents as in `P`, or it has failed and has unmapped the pages from `lo` on. -/
structure Fills (lo v n : ℕ) (P : ℕ → Pte → (ℕ → UInt8) → Prop) (S S' : Space) (b : Bool) : Prop where
  edit : Edit S S' 0
  inside : b = true → ∀ i, v ≤ i → i < v + n → S.tbl.pte i = none ∧ ∃ e k,
    S'.tbl.pte i = some e ∧ e.frame = .page k ∧ S.mem.next ≤ k ∧ P i e (S'.mem.data k)
  outside : b = true → ∀ i, ¬ (v ≤ i ∧ i < v + n) → S'.tbl.pte i = S.tbl.pte i
  undone : b = false → ∀ i, S'.tbl.pte i = if lo ≤ i ∧ i < v then none else S.tbl.pte i

section

variable {lo : ℕ} {P : ℕ → Pte → (ℕ → UInt8) → Prop}

theorem Fills.zero : Fills lo v 0 P S S true :=
  ⟨.refl _, fun _ i _ _ => by omega, fun _ _ _ => rfl, by simp⟩

/-- One round, and the rest of the loop. -/
theorem Fills.cons {S1 : Space} {e : Pte} {pa : ℕ} (hS : Edit S S1 0) (hnone : S.tbl.pte v = none)
    (hpte : S1.tbl.pte = update S.tbl.pte v (some e)) (he : e.frame = .page pa)
    (hpa : S.mem.next ≤ pa ∧ pa < S1.mem.next) (hP : P v e (S1.mem.data pa)) (hlo : lo ≤ v)
    (h : Fills lo (v + 1) n P S1 S' b) : Fills lo v (n + 1) P S S' b where
  edit := hS.trans_zero h.edit
  inside hb i hvi hi := by
    obtain rfl | hiv := eq_or_ne i v
    · refine ⟨hnone, e, pa, ?_, he, hpa.1, ?_⟩
      · rw [h.outside hb i (by omega), hpte, update_self]
      · rwa [h.edit.data pa hpa.2]
    · obtain ⟨hi1, e', k, he', hk, hle, hP'⟩ := h.inside hb i (by omega) (by omega)
      rw [hpte, update_of_ne hiv] at hi1
      exact ⟨hi1, e', k, he', hk, hS.mem.next.trans hle, hP'⟩
  outside hb i hi := by rw [h.outside hb i (by omega), hpte, update_of_ne (by omega)]
  undone hb i := by
    rw [h.undone hb, hpte]
    obtain rfl | hiv := eq_or_ne i v
    · rw [if_pos (by omega), if_neg (by omega)]
      exact hnone.symm
    · rw [update_of_ne hiv]
      exact if_congr (by omega) rfl rfl

end

theorem uvmallocLoop_ok {lo : ℕ} (h : uvmallocLoop lo n v S = .ok (b, S')) (hlo : lo ≤ v) :
    Fills lo v n (fun _ e d => (∃ k, e = userPte k) ∧ d = fun _ => 0) S S' b := by
  induction n generalizing v S with
  | zero =>
    cases h
    exact .zero
  | succ n ih =>
    rw [uvmallocLoop] at h
    cases hk : kalloc S.mem with
    | none =>
      rw [hk] at h
      obtain ⟨⟨r, S1⟩, h1, h⟩ := bind_eq_ok.1 h
      cases h
      obtain ⟨rfl, hpte, hedit⟩ := uvmdealloc_ok h1
      rw [min_eq_right (Nat.mul_le_mul_right _ hlo), pages_mul, pages_mul] at hpte
      exact ⟨hedit, by simp, by simp, fun _ => hpte⟩
    | some x =>
      obtain ⟨pa, m⟩ := x
      rw [hk] at h
      obtain ⟨hpa, -, -, hnext, -, -⟩ := kalloc_eq_some hk
      obtain ⟨⟨mapped, S1⟩, h1, h⟩ := bind_eq_ok.1 h
      obtain ⟨rfl, -, hnone, hedit, hpte, -⟩ | ⟨rfl, -, hedit, hpte⟩ := mappages_ok h1
      · have hlt : pa < m.next := by omega
        refine .cons (by simpa [userPte] using Edit.of_kalloc hk hedit) hnone hpte rfl
          ⟨hpa.ge, hlt.trans_le hedit.mem.next⟩ ⟨⟨pa, rfl⟩, ?_⟩ hlo (ih h (hlo.trans (Nat.le_succ v)))
        rw [hedit.data pa hlt, kalloc_zero hk]
      · obtain ⟨m', hm', h⟩ := bind_eq_ok.1 h
        obtain ⟨⟨r, S2⟩, h2, h⟩ := bind_eq_ok.1 h
        cases h
        obtain ⟨rfl, hpte', hedit'⟩ := uvmdealloc_ok h2
        rw [min_eq_right (Nat.mul_le_mul_right _ hlo), pages_mul, pages_mul] at hpte'
        refine ⟨?_, by simp, by simp, fun _ i => by rw [hpte', hpte]⟩
        simpa using Edit.of_kalloc hk (hedit.trans_zero (Edit.of_kfree hm' hedit'))

/-- `uvmalloc` maps new pages up to the new size, or fails and leaves the entries as they
were. -/
theorem uvmalloc_ok (h : uvmalloc S oldsz newsz = .ok (r, S')) :
    Edit S S' 0 ∧
      (r = 0 ∧ S'.tbl.pte = S.tbl.pte ∨
        r = max oldsz newsz ∧
          (∀ i, pages oldsz ≤ i → i < pages r →
            S.tbl.pte i = none ∧ ∃ k, S'.tbl.pte i = some (userPte k) ∧ S.mem.next ≤ k ∧
              S'.mem.data k = fun _ => 0) ∧
          ∀ i, ¬ (pages oldsz ≤ i ∧ i < pages r) → S'.tbl.pte i = S.tbl.pte i) := by
  rw [uvmalloc] at h
  split at h
  · rename_i hlt
    cases h
    exact ⟨.refl _, .inr ⟨(max_eq_left hlt.le).symm, fun i _ _ => by omega, fun _ _ => rfl⟩⟩
  rename_i hle
  obtain ⟨⟨done, S1⟩, h1, h⟩ := bind_eq_ok.1 h
  cases h
  have hfills := uvmallocLoop_ok h1 (Nat.le_refl _)
  refine ⟨hfills.edit, ?_⟩
  obtain _ | _ := done
  · refine .inl ⟨rfl, funext fun i => ?_⟩
    rw [hfills.undone rfl, if_neg (by omega)]
  have hpages : pages oldsz + (pages newsz - pages oldsz) = pages newsz :=
    Nat.add_sub_cancel' (pages_mono (by omega))
  have hin := hfills.inside rfl
  have hout := hfills.outside rfl
  rw [hpages] at hin hout
  refine .inr ⟨(max_eq_right (not_lt.1 hle)).symm, fun i hlo hhi => ?_, hout⟩
  obtain ⟨hnone, e, k, he, hk, hle, ⟨k', rfl⟩, hdata⟩ := hin i hlo hhi
  obtain rfl := Frame.page.inj hk
  exact ⟨hnone, k', he, hle, hdata⟩

theorem uvmalloc_size (h : uvmalloc S oldsz newsz = .ok (r, S')) (hr : r ≠ 0)
    (hle : oldsz ≤ newsz) : r = newsz := by
  obtain ⟨-, ⟨hzero, -⟩ | ⟨hmax, -, -⟩⟩ := uvmalloc_ok h
  · exact absurd hzero hr
  · rw [hmax, max_eq_right hle]

variable {old : Table}

theorem uvmcopyLoop_ok (h : uvmcopyLoop old n v S = .ok (b, S')) (hkeeps : m.Keeps S.mem)
    (hnext : m.next ≤ S.mem.next)
    (hold : ∀ i e k, old.pte i = some e → e.frame = .page k → k < m.next) :
    Fills 0 v n (fun i e d => ∃ e', old.pte i = some e' ∧ e = { e' with frame := e.frame } ∧
      d = m.bytes e'.frame) S S' b := by
  induction n generalizing v S with
  | zero =>
    cases h
    exact .zero
  | succ n ih =>
    obtain ⟨⟨found, S0⟩, -, h⟩ := bind_eq_ok.1 h
    obtain _ | _ := found
    · cases h
    simp only [if_true] at h
    rcases he : old.pte v with _ | e
    · simp [he] at h
    simp only [he] at h
    cases hk : kalloc S.mem with
    | none =>
      rw [hk] at h
      obtain ⟨S1, h1, h⟩ := bind_eq_ok.1 h
      cases h
      obtain ⟨-, hpte, hedit⟩ := unmapPages_ok (uvmunmap_ok h1)
      rw [vpn, Nat.zero_div, Nat.zero_add] at hpte
      exact ⟨hedit, by simp, by simp, fun _ => hpte⟩
    | some x =>
      obtain ⟨pa, m1⟩ := x
      rw [hk] at h
      obtain ⟨hpa, -, hkeeps1, hnext1, -, -⟩ := kalloc_eq_some hk
      obtain ⟨⟨mapped, S1⟩, h1, h⟩ := bind_eq_ok.1 h
      obtain ⟨rfl, -, hnone, hedit, hpte, -⟩ | ⟨rfl, -, hedit, hpte⟩ := mappages_ok h1
      · have hlt : pa < m1.next := by omega
        have hzero : Edit S S1 0 := by simpa using Edit.of_kalloc_fill hk hedit
        have hrest := ih h (fun i hi => (hzero.data i (hi.trans_le hnext)).trans (hkeeps i hi))
          (hnext.trans hzero.mem.next)
        refine .cons hzero hnone hpte rfl ⟨hpa.ge, hlt.trans_le hedit.mem.next⟩
          ⟨e, he, rfl, ?_⟩ (Nat.zero_le v) hrest
        calc S1.mem.data pa = m1.bytes e.frame := (hedit.data pa hlt).trans (update_self _ _ _)
          _ = S.mem.bytes e.frame :=
            hkeeps1.bytes fun k hfr => (hold v e k he hfr).trans_le hnext
          _ = m.bytes e.frame := hkeeps.bytes (hold v e · he)
      · obtain ⟨m', hm', h⟩ := bind_eq_ok.1 h
        obtain ⟨S2, h2, h⟩ := bind_eq_ok.1 h
        cases h
        obtain ⟨-, hpte', hedit'⟩ := unmapPages_ok (uvmunmap_ok h2)
        rw [vpn, Nat.zero_div, Nat.zero_add] at hpte'
        refine ⟨?_, by simp, by simp, fun _ i => by rw [hpte', hpte]⟩
        simpa using Edit.of_kalloc_fill hk (hedit.trans_zero (Edit.of_kfree hm' hedit'))

/-- `uvmcopy` gives every page below the size a page of its own with the same bytes, or fails
and leaves the entries as they were. -/
theorem uvmcopy_ok (h : uvmcopy old S sz = .ok (b, S'))
    (hold : ∀ i e k, old.pte i = some e → e.frame = .page k → k < S.mem.next) :
    Edit S S' 0 ∧
      (b = false ∧ S'.tbl.pte = S.tbl.pte ∨
        b = true ∧
          (∀ i < pages sz, S.tbl.pte i = none ∧ ∃ e k, old.pte i = some e ∧
            S'.tbl.pte i = some { e with frame := .page k } ∧
            S'.mem.data k = S.mem.bytes e.frame ∧ S.mem.next ≤ k) ∧
          ∀ i, pages sz ≤ i → S'.tbl.pte i = S.tbl.pte i) := by
  have hfills := uvmcopyLoop_ok h (fun _ _ => rfl) (Nat.le_refl _) hold
  refine ⟨hfills.edit, ?_⟩
  obtain _ | _ := b
  · exact .inl ⟨rfl, funext fun i => by rw [hfills.undone rfl, if_neg (by omega)]⟩
  refine .inr ⟨rfl, fun i hi => ?_, fun i hi => hfills.outside rfl i (by omega)⟩
  obtain ⟨hnone, e, k, he, hk, hle, e', he', heq, hdata⟩ :=
    hfills.inside rfl i (Nat.zero_le i) (by omega)
  rw [hk] at heq
  exact ⟨hnone, e', k, he', heq ▸ he, hdata, hle⟩

/-! ### The end of a table -/

/-- `freewalk` of a table without entries gives back all its pages. -/
theorem freewalk_ok (h : freewalk S = .ok m) :
    S.tbl.pte = (fun _ => none) ∧ S.mem.Le m ∧ ∀ n, m.live n = S.mem.live n - S.tbl.refs n := by
  rw [freewalk] at h
  split at h
  next hempty =>
    cases h
    have hentries : S.tbl.leaf.entries = [] := List.isEmpty_iff.1 hempty
    refine ⟨funext fun v => ?_, ⟨rfl, Nat.le_refl _, List.suffix_append _ _, fun hr => ?_⟩,
      fun n => ?_⟩
    · rw [Table.pte, AList.lookup_eq_none, AList.mem_keys, AList.keys, hentries]
      simp
    · rw [Mem.Room] at hr ⊢
      simp only [List.length_append]
      omega
    · have hroot : (([S.tbl.root].count n : ℕ) : ℤ) = if S.tbl.root = n then 1 else 0 := by
        rw [List.count_singleton, beq_eq_decide]
        split <;> simp_all
      simp only [Mem.live, Table.refs, Table.nodes, List.count_append,
        weight_of_entries hentries, weight_eq_count, Nat.cast_add, hroot]
      omega
  next => cases h


theorem uvmfree_ok (h : uvmfree S sz = .ok m) :
    (∀ v e, S.tbl.pte v = some e → v < pages sz) ∧ S.mem.Le m ∧
      ∀ n, m.live n = S.mem.live n - S.tbl.refs n := by
  obtain ⟨S1, h1, h⟩ := bind_eq_ok.1 h
  obtain ⟨hnone, hle, hlive⟩ := freewalk_ok h
  obtain ⟨hpte, hedit⟩ : (∀ i, S1.tbl.pte i = if i < pages sz then none else S.tbl.pte i) ∧
      Edit S S1 0 := by
    split at h1
    · obtain ⟨-, hpte, hedit⟩ := unmapPages_ok (uvmunmap_ok h1)
      simp only [vpn, Nat.zero_div, Nat.zero_le, true_and, Nat.zero_add] at hpte
      exact ⟨hpte, hedit⟩
    rename_i hsz
    cases h1
    obtain rfl : sz = 0 := by omega
    exact ⟨fun i => by rw [if_neg (by simp)], .refl _⟩
  refine ⟨fun v e he => ?_, hedit.mem.trans hle, fun n => ?_⟩
  · by_contra hv
    have hv' := hpte v
    rw [if_neg hv, he, hnone] at hv'
    cases hv'
  · have hex := hedit.excess n
    simp only [excess, Pi.zero_apply] at hex
    rw [hlive]
    omega

/-- The page of the trap frame of a thread. -/
def slot (idx : ℕ) : ℕ := vpn (threadTrapframe idx)

theorem vpn_threadTrapframe (idx : ℕ) : vpn (threadTrapframe idx) = slot idx := by rw [slot]

/-- The trap frames are unmapped one after the other; `d` are the references to them. -/
theorem unmapTrapframes_ok (h : unmapTrapframes S n = .ok S') :
    S'.mem = S.mem ∧ (∀ i < n, S.tbl.pte (slot i) ≠ none ∧ S'.tbl.pte (slot i) = none) ∧
      (∀ v, (∀ i < n, v ≠ slot i) → S'.tbl.pte v = S.tbl.pte v) ∧
      ∃ d, Edit S S' (-d) ∧
        (n = 1 → ∃ e, S.tbl.pte (slot 0) = some e ∧ d = e.frame.refs) ∧ (n = 0 → d = 0) := by
  induction n generalizing S' with
  | zero =>
    cases h
    exact ⟨rfl, by simp, fun _ _ => rfl, 0, by simpa using Edit.refl _, by simp, by simp⟩
  | succ n ih =>
    simp only [unmapTrapframes, List.range_succ, List.foldlM_append, List.foldlM_cons,
      List.foldlM_nil, bind_pure] at h
    obtain ⟨S1, h1, h2⟩ := bind_eq_ok.1 h
    obtain ⟨hmem, hmapped, hpte, d, hedit, -, hzero⟩ := ih h1
    obtain ⟨e, he, hmem', hpte', hedit'⟩ := uvmunmap_one_ok h2
    rw [vpn_threadTrapframe] at he hpte'
    -- the entry is still the one of the beginning, for a slot is unmapped once
    have hout : ∀ i < n, slot n ≠ slot i := by
      intro i hi heq
      rw [heq, (hmapped i hi).2] at he
      cases he
    have hold : S.tbl.pte (slot n) = some e := by rwa [hpte _ hout] at he
    refine ⟨hmem'.trans hmem, fun i hi => ?_, fun v hv => ?_, d + e.frame.refs, ?_, ?_, ?_⟩
    · rw [hpte']
      rcases Nat.lt_succ_iff_lt_or_eq.1 hi with hi | rfl
      · rw [update_of_ne (hout i hi).symm]
        exact hmapped i hi
      · rw [update_self, hold]
        exact ⟨by simp, rfl⟩
    · rw [hpte', update_of_ne (hv n (Nat.lt_succ_self n))]
      exact hpte v fun i hi => hv i (Nat.lt_succ_of_lt hi)
    · have htrans := hedit.trans hedit'
      rwa [← neg_add] at htrans
    · intro hn
      obtain rfl : n = 0 := by omega
      exact ⟨e, hold, by rw [hzero rfl, zero_add]⟩
    · omega

/-- **The end of a page table.** A table that `proc_freepagetable` frees has only entries that
are unmapped on the way, and all its pages are given back. The pages `d` of the trap frames
that are unmapped have other owners. -/
theorem procFreepagetable_ok {cnt : ℤ} (h : procFreepagetable S sz cnt = .ok m)
    (htramp : ∀ e, S.tbl.pte (vpn TRAMPOLINE) = some e → e.frame = .kernel)
    (hsig : ∀ e, S.tbl.pte (vpn SIGRETURN) = some e → e.frame = .kernel) :
    S.mem.Le m ∧ (∀ i < cnt.toNat, S.tbl.pte (slot i) ≠ none) ∧
      (∀ v e, S.tbl.pte v = some e → v = vpn TRAMPOLINE ∨ v = vpn SIGRETURN ∨
        (∃ i < cnt.toNat, v = slot i) ∨ v < pages sz) ∧
      ∃ d, (∀ n, m.live n = S.mem.live n - S.tbl.refs n + d n) ∧
        (cnt = 1 → ∃ e, S.tbl.pte (slot 0) = some e ∧ d = e.frame.refs) ∧ (cnt = 0 → d = 0) := by
  obtain ⟨S1, h1, h⟩ := bind_eq_ok.1 h
  obtain ⟨S2, h2, h⟩ := bind_eq_ok.1 h
  obtain ⟨S3, h3, h⟩ := bind_eq_ok.1 h
  obtain ⟨e1, he1, hmem1, hpte1, hedit1⟩ := uvmunmap_one_ok h1
  obtain ⟨e2, he2, hmem2, hpte2, hedit2⟩ := uvmunmap_one_ok h2
  obtain ⟨hmem3, hslots, hpte3, d, hedit3, hone, hzero⟩ := unmapTrapframes_ok h3
  obtain ⟨hlow, hle, hlive⟩ := uvmfree_ok h
  -- an entry that is left is one of the beginning
  have hsub : ∀ v e, S2.tbl.pte v = some e → S.tbl.pte v = some e := by
    intro v e hv
    rw [hpte2, hpte1] at hv
    simp only [update_apply] at hv
    split at hv
    · cases hv
    split at hv
    · cases hv
    · exact hv
  have hk1 : e1.frame.refs = 0 := by rw [htramp e1 he1, Frame.refs_kernel]
  have hk2 : e2.frame.refs = 0 := by
    have hne : vpn SIGRETURN ≠ vpn TRAMPOLINE := by decide
    rw [hpte1, update_of_ne hne] at he2
    rw [hsig e2 he2, Frame.refs_kernel]
  rw [hk1, neg_zero] at hedit1
  rw [hk2, neg_zero] at hedit2
  have hedit := (hedit1.trans_zero hedit2).trans_zero hedit3
  refine ⟨hedit.mem.trans hle, fun i hi hnone => ?_, fun v e hv => ?_, d, fun n => ?_, ?_, ?_⟩
  · obtain ⟨e, he⟩ := Option.ne_none_iff_exists'.1 (hslots i hi).1
    rw [hsub _ _ he] at hnone
    cases hnone
  · by_cases hv1 : v = vpn TRAMPOLINE
    · exact .inl hv1
    by_cases hv2 : v = vpn SIGRETURN
    · exact .inr (.inl hv2)
    by_cases hv3 : ∃ i < cnt.toNat, v = slot i
    · exact .inr (.inr (.inl hv3))
    refine .inr (.inr (.inr (hlow v e ?_)))
    rw [hpte3 v fun i hi hvi => hv3 ⟨i, hi, hvi⟩, hpte2, update_of_ne hv2, hpte1, update_of_ne hv1, hv]
  · have hex := hedit.excess n
    simp only [excess, Pi.neg_apply] at hex
    rw [hlive]
    omega
  · rintro rfl
    obtain ⟨e, he, hd⟩ := hone rfl
    exact ⟨e, hsub _ _ he, hd⟩
  · rintro rfl
    exact hzero rfl

/-! ### A new page table -/

/-- The entries of a table without user memory. -/
def bareEntries : ℕ → Option Pte :=
  update (update (fun _ => none) (vpn TRAMPOLINE) (some trampolinePte))
    (vpn SIGRETURN) (some sigreturnPte)

/-- `proc_pagetable` makes a table with two entries, whose pages are new, or fails for lack
of memory. -/
theorem procPagetable_ok {T : Option Table} (h : procPagetable m = .ok (T, m')) :
    m.Le m' ∧
      (T = none ∧ m.free ≤ 2 ∧ (∀ n, m'.live n = m.live n) ∨
        ∃ T', T = some T' ∧ T'.root = m.next ∧ T'.Wf ∧ T'.pte = bareEntries ∧ m.Keeps m' ∧
          m.free = m'.free + 3 ∧ ∀ n, T'.refs n = m'.live n - m.live n) := by
  rw [procPagetable] at h
  rcases hk : kalloc m with _ | ⟨root, m0⟩
  · rw [hk] at h
    cases h
    have hzero := kalloc_eq_none.1 hk
    exact ⟨.refl m, .inl ⟨rfl, by omega, fun _ => rfl⟩⟩
  rw [hk] at h
  obtain ⟨hroot, hle, hkeeps, hnext, -, hlive⟩ := kalloc_eq_some hk
  have hfree := kalloc_free hk
  -- the root page is the only one of the empty table
  have hexcess : ∀ n, excess ⟨m0, ⟨root, ∅, ∅⟩⟩ n = -m.live n := by
    intro n
    simp only [excess, Table.refs, weight_empty, hlive, Frame.refs, Frame.page.injEq]
    omega
  obtain ⟨⟨mapped, S1⟩, h1, h⟩ := bind_eq_ok.1 h
  have htwo : (⟨root, ∅, ∅⟩ : Table).lacks (vpn TRAMPOLINE) = 2 := rfl
  obtain ⟨rfl, -, -, hedit1, hpte1, hwalks, hfree1⟩ | ⟨rfl, hlow, hedit1, -⟩ := mappages_ok h1
  · -- the second entry is in the same page as the first
    have hnone : S1.tbl.lacks (vpn SIGRETURN) = 0 := Table.lacks_eq_zero.2 hwalks
    dsimp only at hfree1
    obtain ⟨⟨mapped, S2⟩, h2, h⟩ := bind_eq_ok.1 h
    obtain ⟨rfl, -, -, hedit2, hpte2, -, hfree2⟩ | ⟨rfl, hlow, -⟩ := mappages_ok h2
    · cases h
      have hedit : Edit ⟨m0, ⟨root, ∅, ∅⟩⟩ S2 0 := hedit1.trans_zero hedit2
      refine ⟨hle.trans hedit.mem, .inr ⟨_, rfl, hedit.root.trans hroot, ?_, ?_, ?_, ?_, ?_⟩⟩
      · refine hedit.wf fun v e hv => ?_
        cases hv
      · rw [hpte2, hpte1, bareEntries]
        rfl
      · exact fun n hn => (hedit.data n (hn.trans_le hle.next)).trans (hkeeps n hn)
      · omega
      · intro n
        have hex := hedit.excess n
        rw [hexcess, Pi.zero_apply, add_zero] at hex
        simp only [excess] at hex
        omega
    · omega
  · dsimp only at hlow
    obtain ⟨m1, h1, h⟩ := bind_eq_ok.1 h
    cases h
    obtain ⟨-, hle1, hlive1⟩ := uvmfree_ok h1
    refine ⟨(hle.trans hedit1.mem).trans hle1, .inl ⟨rfl, by omega, fun n => ?_⟩⟩
    have hex := hedit1.excess n
    rw [hexcess, Pi.zero_apply, add_zero] at hex
    simp only [excess] at hex
    rw [hlive1]
    omega

theorem uvmThreadTrapframe_ok {idx : ℕ} {tf : Option ℕ}
    (h : uvmThreadTrapframe S idx = .ok (tf, S')) :
    tf = none ∧ S.mem.free ≤ S.tbl.lacks (slot idx) ∨
      ∃ n, tf = some n ∧ slot idx < vpn MAXVA ∧ S.tbl.pte (slot idx) = none ∧ Edit S S' 0 ∧
        S'.tbl.pte = update S.tbl.pte (slot idx) (some (trapframePte (.page n))) ∧
        S'.mem.free + S.tbl.lacks (slot idx) + 1 = S.mem.free := by
  rw [uvmThreadTrapframe] at h
  cases hk : kalloc S.mem with
  | none =>
    have hzero := kalloc_eq_none.1 hk
    rw [hk] at h
    obtain ⟨⟨mapped, S1⟩, -, h⟩ := bind_eq_ok.1 h
    cases mapped with
    | true =>
      cases h
      exact .inl ⟨rfl, by omega⟩
    | false =>
      obtain ⟨m, hm, -⟩ := bind_eq_ok.1 h
      cases hm
  | some x =>
    obtain ⟨n, m⟩ := x
    have hfree := kalloc_free hk
    rw [hk] at h
    obtain ⟨⟨mapped, S1⟩, h1, h⟩ := bind_eq_ok.1 h
    rw [vpn_threadTrapframe] at h1
    obtain ⟨rfl, hmax, hnone, hedit, hpte, -, hfree1⟩ | ⟨rfl, hlow, -, -⟩ := mappages_ok h1
    · cases h
      refine .inr ⟨n, rfl, hmax, hnone, ?_, hpte, by rw [hfree1, hfree]⟩
      simpa [trapframePte] using Edit.of_kalloc hk hedit
    · obtain ⟨m', hm', h⟩ := bind_eq_ok.1 h
      cases h
      dsimp only at hlow
      exact .inl ⟨rfl, by omega⟩

/-! ### Writes to user memory -/

theorem uvmclear_ok (h : uvmclear S v = .ok S') :
    Edit S S' 0 ∧ ∀ i, S'.tbl.pte i =
      if i = v then (S.tbl.pte v).map ({ · with u := false }) else S.tbl.pte i := by
  obtain ⟨⟨found, S1⟩, hwalk, h⟩ := bind_eq_ok.1 h
  obtain ⟨hv, rfl⟩ := walk_false_ok hwalk
  obtain _ | _ := found
  · cases h
  simp only [if_true] at h
  cases he : S.tbl.pte v with
  | none =>
    rw [he] at h
    obtain rfl := Except.ok.inj h
    refine ⟨.refl _, fun i => ?_⟩
    by_cases hi : i = v
    · rw [if_pos hi, hi, he, Option.map_none]
    · rw [if_neg hi]
  | some e =>
    rw [he] at h
    obtain rfl := Except.ok.inj h
    refine ⟨⟨.refl _, fun _ _ => rfl, rfl, fun _ hi => hi, fun hw i e' hi => ?_,
      fun n => ?_⟩, fun i => ?_⟩
    · rw [Table.pte_insert] at hi
      by_cases hiv : i = v
      · rw [hiv]
        exact hw v e he
      · exact hw i e' (by rwa [update_of_ne hiv] at hi)
    · simp only [excess, Table.refs,
        weight_insert_of_lookup (show S.tbl.leaf.lookup v = some e from he),
        Pi.zero_apply]
      omega
    · rw [Table.pte_insert, update_apply]
      rfl

end XVapor.Vm
