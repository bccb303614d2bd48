import XVapor.Fork

/-!
# What the Kernel Stores in User Memory

A system call gives its results to the user with `copyout`, at addresses that the user has
chosen. Each round of `copyout` is a `memmove` to the page that `walkaddr` has found. Here the
rounds are recorded, with the page, the frame behind it, and the bytes.

`walkaddr` asks for a page that is valid and for the user. **It does not ask whether the page may be
written.** Every process has such a page: the code that returns from a signal handler is mapped at
`SIGRETURN`, readable and executable, and it is one and the same page of the kernel for all of
them. So physical memory has, beside the pages of the allocator, the pages of the kernel's code,
each named by the page at which all tables map it.

## Main results

* `callStores_protected`: a call stores only to writable pages if and only if the pages that it
  reaches are writable; then no other process sees it.
* `accesses_private`: what user code stores, no other process sees.
-/

namespace XVapor.Vm

open Files (ProcId ProcState)
open Space

/-! ### Stores -/

/-- A `memmove` of `copyout`: the page of the user, the frame behind it, the offset, and the
bytes. -/
structure Store where
  page : ℕ
  frame : Frame
  off : ℕ
  bytes : List UInt8

/-- The stores of the loop of `copyout`, and whether it comes to its end. -/
def storesLoop (S : Space) : ℕ → ℕ → List UInt8 → Bool × List Store
  | 0, _, _ => (true, [])
  | rounds + 1, dst, d =>
    if d = [] then (true, [])
    else match walkaddr S (vpn dst) with
      | none => (false, [])
      | some f =>
        let n := min (PGSIZE - dst % PGSIZE) d.length
        let (done, stores) := storesLoop S rounds ((vpn dst + 1) * PGSIZE) (d.drop n)
        (done, ⟨vpn dst, f, dst % PGSIZE, d.take n⟩ :: stores)

/-- The stores of `copyout`. -/
def copyoutStores (S : Space) (dst : ℕ) (d : List UInt8) : Bool × List Store :=
  storesLoop S d.length dst d

/-- A store in the pages of the allocator. -/
def Mem.store (m : Mem) (s : Store) : Mem := m.write s.frame s.off s.bytes

variable {S : Space} {T T' : Table} {k : Kernel} {p q : ProcId} {rounds dst : ℕ} {d : List UInt8}

theorem walkaddr_mem (m m' : Mem) (T : Table) (v : ℕ) :
    walkaddr ⟨m, T⟩ v = walkaddr ⟨m', T⟩ v := by
  by_cases hv : vpn MAXVA ≤ v
  · simp only [walkaddr, if_pos hv]
  · simp only [walkaddr, if_neg hv, walk_false (not_le.1 hv)]
    by_cases hw : T.Walks v <;> simp [hw]

theorem storesLoop_mem (m m' : Mem) (T : Table) (rounds dst : ℕ) (d : List UInt8) :
    storesLoop ⟨m, T⟩ rounds dst d = storesLoop ⟨m', T⟩ rounds dst d := by
  induction rounds generalizing dst d with
  | zero => rfl
  | succ rounds ih => simp only [storesLoop, walkaddr_mem m m' T, ih]

theorem copyoutLoop_eq_stores : copyoutLoop rounds S dst d = ((storesLoop S rounds dst d).1,
      ⟨(storesLoop S rounds dst d).2.foldl Mem.store S.mem, S.tbl⟩) := by
  induction rounds generalizing S dst d with
  | zero => rfl
  | succ rounds ih =>
    rw [copyoutLoop, storesLoop]
    split
    · rfl
    obtain _ | f := walkaddr S (vpn dst)
    · rfl
    dsimp only
    rw [ih, storesLoop_mem _ S.mem]
    rfl

/-- **`copyout` is its stores.** -/
theorem copyout_eq_stores : copyout S dst d =
    ((copyoutStores S dst d).1, ⟨(copyoutStores S dst d).2.foldl Mem.store S.mem, S.tbl⟩) :=
  copyoutLoop_eq_stores

variable {s : Store}

theorem storesLoop_entry (h : s ∈ (storesLoop S rounds dst d).2) :
    ∃ e, S.tbl.pte s.page = some e ∧ e.u = true ∧ e.frame = s.frame := by
  induction rounds generalizing dst d with
  | zero => simp [storesLoop] at h
  | succ rounds ih =>
    rw [storesLoop] at h
    split at h
    · simp at h
    split at h
    · simp at h
    rename_i f hf
    rcases List.mem_cons.1 h with rfl | h
    · exact walkaddr_some hf
    · exact ih h

/-- The copy of `n` bytes to `dst` reaches the page of its byte `i`. -/
def Reaches (S : Space) (dst i : ℕ) : Prop :=
  ∀ j ≤ i, (walkaddr S (vpn (dst + j))).isSome = true

theorem forall_reaches_iff {n : ℕ} {f : Frame} {Q : ℕ → Prop} (hf : walkaddr S (vpn dst) = some f)
    (hn : 0 < n) : (∀ i < n, Reaches S dst i → Q i) ↔
      (∀ i < min (PGSIZE - dst % PGSIZE) n, Q i) ∧
        ∀ i < n - min (PGSIZE - dst % PGSIZE) n, Reaches S ((vpn dst + 1) * PGSIZE) i →
          Q (min (PGSIZE - dst % PGSIZE) n + i) := by
  have hsame : ∀ j < min (PGSIZE - dst % PGSIZE) n,
      (walkaddr S (vpn (dst + j))).isSome = true := by
    intro j hj
    rw [vpn_round hj, hf]
    rfl
  constructor
  · intro hall
    refine ⟨fun i hi => hall i (by omega) fun j hj => hsame j (by omega), fun i hi hreach => ?_⟩
    rw [next_round (n := n) (by omega)] at hreach
    refine hall _ (by omega) fun j hj => ?_
    by_cases hjr : j < min (PGSIZE - dst % PGSIZE) n
    · exact hsame j hjr
    · have hj' := hreach (j - min (PGSIZE - dst % PGSIZE) n) (by omega)
      rwa [Nat.add_assoc, Nat.add_sub_cancel' (by omega)] at hj'
  · rintro ⟨hhere, hrest⟩ i hi hreach
    by_cases hir : i < min (PGSIZE - dst % PGSIZE) n
    · exact hhere i hir
    have hi' := hrest (i - min (PGSIZE - dst % PGSIZE) n) (by omega)
    rw [next_round (n := n) (by omega), Nat.add_sub_cancel' (by omega)] at hi'
    refine hi' fun j hj => ?_
    rw [Nat.add_assoc]
    exact hreach _ (by omega)

variable {P : ℕ → Prop}

theorem storesLoop_pages_iff (hd : d.length ≤ rounds) :
    (∀ s ∈ (storesLoop S rounds dst d).2, P s.page) ↔
      ∀ i < d.length, Reaches S dst i → P (vpn (dst + i)) := by
  induction rounds generalizing dst d with
  | zero =>
    obtain rfl : d = [] := List.eq_nil_of_length_eq_zero (by omega)
    simp [storesLoop]
  | succ rounds ih =>
    rw [storesLoop]
    split
    · rename_i hnil
      simp [hnil]
    rename_i hnil
    have hlen : 0 < d.length := List.length_pos_iff.2 hnil
    have hround := round_pos dst hlen
    rcases hf : walkaddr S (vpn dst) with _ | f
    · simp only [List.not_mem_nil, false_implies, implies_true, true_iff]
      intro i _ hreach
      have h0 := hreach 0 (Nat.zero_le _)
      simp [hf] at h0
    rw [List.forall_mem_cons, ih (by rw [List.length_drop]; omega), List.length_drop,
      forall_reaches_iff hf hlen]
    refine and_congr ⟨fun h i hi => ?_, fun h => ?_⟩
      (forall₂_congr fun i hi => forall_congr' fun _ => ?_)
    · rw [vpn_round hi]
      exact h
    · have h0 := h 0 hround
      rwa [vpn_round hround] at h0
    · rw [next_round (n := d.length) (by omega), Nat.add_assoc]

/-- **The pages that a copy stores to** are those of the bytes that it reaches. -/
theorem stores_pages_iff : (∀ s ∈ (copyoutStores S dst d).2, P s.page) ↔
    ∀ i < d.length, Reaches S dst i → P (vpn (dst + i)) :=
  storesLoop_pages_iff (Nat.le_refl _)

/-! ### Physical memory -/

/-- Physical memory: the pages of the allocator, and the code of the kernel that the tables map, by
the page at which all of them have it. -/
structure Phys where
  mem : Mem
  code : ℕ → ℕ → UInt8

/-- A store in physical memory. -/
def Phys.move (M : Phys) (s : Store) : Phys :=
  match s.frame with
  | .kernel => { M with code := Function.update M.code s.page fun i =>
    if s.off ≤ i then s.bytes.getD (i - s.off) (M.code s.page i) else M.code s.page i }
  | _ => { M with mem := M.mem.store s }

/-- The byte that the hardware finds at an address. -/
def Phys.fetch (M : Phys) (T : Table) (va : ℕ) : Option UInt8 :=
  (T.pte (vpn va)).map fun e =>
    match e.frame with
    | .kernel => M.code (vpn va) (va % PGSIZE)
    | f => M.mem.bytes f (va % PGSIZE)

@[simp]
theorem Phys.move_mem (M : Phys) (s : Store) : (M.move s).mem = M.mem.store s := by
  rw [Phys.move]
  split
  next hf => rw [Mem.store, hf]; rfl
  next => rfl

theorem Phys.foldl_move_mem (M : Phys) (l : List Store) :
    (l.foldl Phys.move M).mem = l.foldl Mem.store M.mem := by
  induction l generalizing M with
  | nil => rfl
  | cons s l ih => rw [List.foldl_cons, List.foldl_cons, ih, Phys.move_mem]

/-! ### Calls -/

/-- The copies that a call makes through the table of its process, one after the other: what it has
stored, and physical memory after it. -/
def callStores (T : Table) : Phys → List (ℕ × List UInt8) → List Store × Phys
  | M, [] => ([], M)
  | M, (dst, d) :: copies =>
    let l := (copyoutStores ⟨M.mem, T⟩ dst d).2
    let (l', M') := callStores T (l.foldl Phys.move M) copies
    (l ++ l', M')

theorem callStores_mem (M : Phys) (copies : List (ℕ × List UInt8)) :
    (⟨(callStores T M copies).2.mem, T⟩ : Space) =
      copies.foldl (fun S c => (copyout S c.1 c.2).2) ⟨M.mem, T⟩ := by
  induction copies generalizing M with
  | nil => rfl
  | cons c copies ih =>
    rw [callStores, List.foldl_cons, ih, Phys.foldl_move_mem, copyout_eq_stores]

theorem callStores_snd (M : Phys) (copies : List (ℕ × List UInt8)) :
    (callStores T M copies).2 = (callStores T M copies).1.foldl Phys.move M := by
  induction copies generalizing M with
  | nil => rfl
  | cons c copies ih => rw [callStores, List.foldl_append, ih]

/-- A store to a page that the table maps for the user, with the permission to write. -/
def Store.Permitted (T : Table) (s : Store) : Prop :=
  ∃ e, T.pte s.page = some e ∧ e.frame = s.frame ∧ e.u = true ∧ e.w = true

/-- The pages that the copies of a call reach may be written. -/
def MayWrite (S : Space) (copies : List (ℕ × List UInt8)) : Prop :=
  ∀ c ∈ copies, ∀ i < c.2.length, Reaches S c.1 i →
    ∃ e, S.tbl.pte (vpn (c.1 + i)) = some e ∧ e.w = true

theorem Reaches.mem {m m' : Mem} {i : ℕ} (h : Reaches ⟨m, T⟩ dst i) : Reaches ⟨m', T⟩ dst i := by
  intro j hj
  rw [walkaddr_mem m' m]
  exact h j hj

theorem copyoutStores_permitted_iff {m : Mem} :
    (∀ s ∈ (copyoutStores ⟨m, T⟩ dst d).2, s.Permitted T) ↔ MayWrite ⟨m, T⟩ [(dst, d)] := by
  simp only [MayWrite, List.mem_singleton, forall_eq]
  rw [← stores_pages_iff (P := fun v => ∃ e, T.pte v = some e ∧ e.w = true)]
  refine forall₂_congr fun s hs => ?_
  obtain ⟨e, he, hu, hf⟩ := storesLoop_entry hs
  constructor
  · rintro ⟨e', he', -, -, hw⟩
    exact ⟨e', he', hw⟩
  · rintro ⟨e', he', hw⟩
    obtain rfl : e = e' := Option.some.inj (he.symm.trans he')
    exact ⟨e, he, hf, hu, hw⟩

theorem callStores_permitted_iff (M : Phys) (copies : List (ℕ × List UInt8)) :
    (∀ s ∈ (callStores T M copies).1, s.Permitted T) ↔ MayWrite ⟨M.mem, T⟩ copies := by
  induction copies generalizing M with
  | nil => simp [callStores, MayWrite]
  | cons c copies ih =>
    rw [callStores]
    simp only [List.mem_append, or_imp, forall_and]
    rw [copyoutStores_permitted_iff, ih]
    simp only [MayWrite, List.mem_cons, List.not_mem_nil, or_false, forall_eq, or_imp,
      forall_and]
    refine and_congr_right fun _ => forall₄_congr fun c' _ i _ => ?_
    exact ⟨fun h hr => h hr.mem, fun h hr => h hr.mem⟩

/-! ### Other processes -/

/-- Pages of the kernel's code may not be written, and every other entry that may has a page of the
allocator. -/
theorem Shape.page_of_writable {sz : ℕ} {ths : List Tcb} {vmas : List Vma} {v : ℕ} {e : Pte}
    (hs : Shape T sz ths vmas) (he : T.pte v = some e) (hw : e.w = true) : ∃ n, e.frame = .page n := by
  rcases hs.only v e he with rfl | rfl | ⟨t, ht, rfl⟩ | hlow | ⟨-, hpage⟩
  · rw [hs.tramp] at he
    cases he
    cases hw
  · rw [hs.sig] at he
    cases he
    cases hw
  · obtain ⟨n, -, hn⟩ := hs.frame t ht
    obtain rfl := Option.some.inj (hn.symm.trans he)
    exact ⟨n, rfl⟩
  · obtain ⟨e', n, he', hn⟩ := hs.low v hlow
    obtain rfl := Option.some.inj (he'.symm.trans he)
    exact ⟨n, hn⟩
  · exact hpage

theorem Inv.shape (hk : Inv k) (hT : k.table p = some T) :
    ∃ sz ths vmas, Shape T sz ths vmas := by
  have hfits := hk.fits p
  rw [hT] at hfits
  cases hfits with
  | used _ hs | zombie _ hs => exact ⟨_, _, _, hs⟩

/-- **A store that is permitted is not seen by another process.** -/
theorem fetch_move (hk : Inv k) (hne : q ≠ p) (hT : k.table p = some T) (hT' : k.table q = some T')
    (hs : s.Permitted T) (M : Phys) (va : ℕ) :
    (M.move s).fetch T' va = M.fetch T' va := by
  obtain ⟨e, he, hf, -, hw⟩ := hs
  obtain ⟨sz, ths, vmas, hshape⟩ := hk.shape hT
  obtain ⟨n, hn⟩ := hshape.page_of_writable he hw
  have hrefs := Table.one_le_refs he hn
  rw [hf] at hn
  rw [Phys.move, hn]
  simp only [Phys.fetch]
  rcases he' : T'.pte (vpn va) with _ | e'
  · rfl
  rw [Option.map_some, Option.map_some]
  cases hf' : e'.frame with
  | kernel => rfl
  | null => rfl
  | page n' =>
    -- the page is in the table of `p`, so it is not in that of `q`
    have hrefs' := Table.one_le_refs he' hf'
    have hadd := hk.core.refs_add_le hne.symm hT hT' n'
    have hnn : n' ≠ n := by
      rintro rfl
      omega
    simp only [Mem.bytes, Mem.store, hn, Mem.write, Mem.fill, Function.update_of_ne hnn]

theorem fetch_foldl_move (hk : Inv k) (hne : q ≠ p) (hT : k.table p = some T)
    (hT' : k.table q = some T') {l : List Store} (hl : ∀ s ∈ l, s.Permitted T) (M : Phys) (va : ℕ) :
    (l.foldl Phys.move M).fetch T' va = M.fetch T' va := by
  induction l generalizing M with
  | nil => rfl
  | cons s l ih =>
    rw [List.foldl_cons, ih fun x hx => hl x (List.mem_cons_of_mem _ hx)]
    exact fetch_move hk hne hT hT' (hl s (by simp)) M va

/-- **Protection of the copies of a call**, which are those of `copyout`. All its stores go to pages that its process may write if
and only if the pages that it reaches may be written. In this case every other process finds the
bytes that it has found before at all addresses. -/
theorem callStores_protected (hT : k.table p = some T) (code : ℕ → ℕ → UInt8)
    (copies : List (ℕ × List UInt8)) :
    (⟨(callStores T ⟨k.mem, code⟩ copies).2.mem, T⟩ : Space) =
      copies.foldl (fun S c => (copyout S c.1 c.2).2) ⟨k.mem, T⟩ ∧
    ((∀ s ∈ (callStores T ⟨k.mem, code⟩ copies).1, s.Permitted T) ↔
      MayWrite ⟨k.mem, T⟩ copies) ∧
    (Inv k → MayWrite ⟨k.mem, T⟩ copies → ∀ q T', q ≠ p → k.table q = some T' → ∀ va,
      (callStores T ⟨k.mem, code⟩ copies).2.fetch T' va = Phys.fetch ⟨k.mem, code⟩ T' va) := by
  refine ⟨callStores_mem _ copies, callStores_permitted_iff _ copies, fun hk hw q T' hne hT' va => ?_⟩
  rw [callStores_snd]
  exact fetch_foldl_move hk hne hT hT' ((callStores_permitted_iff _ copies).2 hw) _ va

/-! ### The code of the signal return -/

/-- The copy of a byte to `SIGRETURN`, by any process, is a store to the code of the kernel. -/
theorem callStores_sigreturn (hk : Inv k) (hT : k.table p = some T) (code : ℕ → ℕ → UInt8)
    (b : UInt8) : (callStores T ⟨k.mem, code⟩ [(SIGRETURN, [b])]).1 =
      [⟨vpn SIGRETURN, .kernel, 0, [b]⟩] := by
  obtain ⟨sz, ths, vmas, hs⟩ := hk.shape hT
  obtain ⟨hv, hwalks⟩ := hs.wf _ _ hs.sig
  have haddr : walkaddr ⟨k.mem, T⟩ (vpn SIGRETURN) = some .kernel := by
    rw [walkaddr, if_neg (not_le.2 hv), walk_false hv]
    simp [hwalks, hs.sig, sigreturnPte]
  simp only [callStores, copyoutStores, List.length_singleton, storesLoop, haddr]
  rfl

/-- Every process reads and executes the byte that one of them has copied there. -/
theorem fetch_sigreturn (hk : Inv k) (hT : k.table p = some T) (hT' : k.table q = some T')
    (code : ℕ → ℕ → UInt8) (b : UInt8) :
    (callStores T ⟨k.mem, code⟩ [(SIGRETURN, [b])]).2.fetch T' SIGRETURN = some b ∧
      Phys.fetch ⟨k.mem, code⟩ T' SIGRETURN = some (code (vpn SIGRETURN) 0) := by
  obtain ⟨sz, ths, vmas, hs⟩ := hk.shape hT'
  rw [callStores_snd, callStores_sigreturn hk hT]
  simp only [Phys.fetch, hs.sig, List.foldl_cons, List.foldl_nil, Phys.move]
  exact ⟨by simp [sigreturnPte, show SIGRETURN % PGSIZE = 0 by decide], rfl⟩

theorem exists_two : ∃ (k : Kernel) (T T' : Table) (e : Pte), spaceMachine.Reach Careful k ∧
    k.table initproc = some T ∧ k.table childProc = some T' ∧ T.pte 0 = some e ∧ e.w = true := by
  obtain ⟨k, hk, hq, T, hT, e, he, hw⟩ : ∃ k ∈ spaceMachine.exec smallStart
      [initAct (.clone forkArgs)], (k.table childProc).isSome ∧
        ∃ T ∈ k.table initproc, ∃ e ∈ T.pte 0, e.w = true := by decide +kernel
  obtain ⟨T', hT'⟩ := Option.isSome_iff_exists.1 hq
  exact ⟨k, T, T', e, (Machine.Reach.init smallStart_init).exec_along (by decide +kernel) hk, hT,
    hT', he, hw⟩

/-- A copy to the first page of the first process, which has a child. -/
theorem callStores_protected_low : ∃ (k : Kernel) (T T' : Table), k.table initproc = some T ∧
    k.table childProc = some T' ∧
    (∀ s ∈ (callStores T ⟨k.mem, fun _ _ => 0⟩ [(0, [1])]).1, s.Permitted T) ∧
    ∀ va, (callStores T ⟨k.mem, fun _ _ => 0⟩ [(0, [1])]).2.fetch T' va =
      Phys.fetch ⟨k.mem, fun _ _ => 0⟩ T' va := by
  obtain ⟨k, T, T', e, hreach, hT, hT', he, hew⟩ := exists_two
  have hw : MayWrite ⟨k.mem, T⟩ [(0, [1])] := by
    intro c hc i hi _
    obtain rfl := List.mem_singleton.1 hc
    obtain rfl : i = 0 := by simpa using hi
    exact ⟨e, he, hew⟩
  obtain ⟨-, hiff, hiso⟩ := callStores_protected hT (fun _ _ => 0) [(0, [1])]
  exact ⟨k, T, T', hT, hT', hiff.2 hw, hiso (inv_of_reach hreach) hw childProc T' (by decide) hT'⟩

/-- **A call of the first process changes the code of its child**: it stores a byte at `SIGRETURN`,
to a page that its own table does not let it write. -/
theorem sigreturn_overwritten : ∃ (k : Kernel) (T T' : Table), spaceMachine.Reach Careful k ∧
    k.table initproc = some T ∧ k.table childProc = some T' ∧
    (∃ s ∈ (callStores T ⟨k.mem, fun _ _ => 0⟩ [(SIGRETURN, [1])]).1, ¬ s.Permitted T) ∧
    Phys.fetch ⟨k.mem, fun _ _ => 0⟩ T' SIGRETURN = some 0 ∧
    (callStores T ⟨k.mem, fun _ _ => 0⟩ [(SIGRETURN, [1])]).2.fetch T' SIGRETURN = some 1 := by
  obtain ⟨k, T, T', -, hreach, hT, hT', -, -⟩ := exists_two
  have hk := inv_of_reach hreach
  obtain ⟨hafter, hbefore⟩ := fetch_sigreturn hk hT hT' (fun _ _ => 0) 1
  obtain ⟨sz, ths, vmas, hs⟩ := hk.shape hT
  refine ⟨k, T, T', hreach, hT, hT', ⟨⟨vpn SIGRETURN, .kernel, 0, [1]⟩, ?_, ?_⟩, hbefore, hafter⟩
  · rw [callStores_sigreturn hk hT]
    exact List.mem_singleton_self _
  · rintro ⟨e, he, -, -, hw⟩
    obtain rfl := Option.some.inj (hs.sig.symm.trans he)
    cases hw

/-! ### What user code stores -/

/-- A load or a store of user code. -/
def Call.isAccess : Call → Bool
  | .load _ | .store _ _ => true
  | _ => false

/-- **What an access leaves of another process**, with the page fault it may take. -/
theorem access_frame {k' : Kernel} {a : Act} (hk : Inv k) (he : a.enabled k = true)
    (ha : a.call.isAccess = true) (hne : q ≠ a.p) (hT : k.table q = some T)
    (h : perform k a = .ok k') :
    k'.table q = some T ∧ ∀ n, 1 ≤ T.refs n → k'.mem.data n = k.mem.data n := by
  have hs := (Act.enabled_iff.1 he).1
  obtain ⟨p, t, call⟩ := a
  cases call with
  | load va =>
    obtain ⟨x, hx⟩ := map_snd_eq_ok h
    have haccess := (userLoad_ok hx).1
    refine ⟨((access_inv hk hs haccess).2.1.table q hne).trans hT, fun n hn => ?_⟩
    exact (access_keeps haccess).2 n (hk.core.page_lt hT hn).1
  | store va x =>
    obtain ⟨-, htable, -, hdata⟩ := userStore_frame hk hs hne hT h
    exact ⟨htable, hdata⟩
  | _ => cases ha

/-- **User memory is private**: however the other processes load and store, at any addresses and
with any page faults, a process keeps its page table and the bytes of all its pages. -/
theorem accesses_private (h : spaceMachine.Reach Careful k) (hT : k.table q = some T)
    {k' : Kernel} {as : List Act} (has : ∀ a ∈ as, a.p ≠ q ∧ a.call.isAccess = true)
    (hrun : spaceMachine.exec k as = some k') :
    k'.table q = some T ∧ ∀ n, 1 ≤ T.refs n → k'.mem.data n = k.mem.data n := by
  induction as generalizing k with
  | nil =>
    cases hrun
    exact ⟨hT, fun _ _ => rfl⟩
  | cons a as ih =>
    obtain ⟨k1, hstep, hrun⟩ := Option.bind_eq_some_iff.1 hrun
    obtain ⟨⟨hne, ha⟩, has⟩ := List.forall_mem_cons.1 has
    obtain ⟨he, hp⟩ := mem_spaceMachine_step.1 hstep
    have hcare : Careful k a := by
      obtain ⟨p, t, call⟩ := a
      cases call <;> trivial
    obtain ⟨hT1, hdata1⟩ := access_frame (inv_of_reach h) he ha hne.symm hT hp
    obtain ⟨hT', hdata⟩ := ih (h.step hcare hstep) hT1 has hrun
    exact ⟨hT', fun n hn => (hdata n hn).trans (hdata1 n hn)⟩

/-- A process stores to its first page, and its child keeps its own. -/
theorem accesses_private_child : ∃ k k' T, spaceMachine.exec k [initAct (.store 0 1)] = some k' ∧
    k'.table childProc = some T ∧ ∀ n, 1 ≤ T.refs n → k'.mem.data n = k.mem.data n := by
  obtain ⟨k, hk, T, hT, hsome⟩ : ∃ k ∈ spaceMachine.exec smallStart [initAct (.clone forkArgs)],
      ∃ T ∈ k.table childProc, (spaceMachine.exec k [initAct (.store 0 1)]).isSome := by
    decide +kernel
  obtain ⟨k', hk'⟩ := Option.isSome_iff_exists.1 hsome
  have hreach : spaceMachine.Reach Careful k :=
    (Machine.Reach.init smallStart_init).exec_along (by decide +kernel) hk
  exact ⟨k, k', T, hk', accesses_private hreach hT (by decide) hk'⟩

end XVapor.Vm
