import XVapor.PageTable

/-!
# The Count of the Free Pages

The allocator of `mm/kalloc.c` on RISC-V: the free list, linked through the pages, and
`g_freecnt`, which is meant to be its length. A call changes the list with `kmem.lock` held, and
counts afterwards, without the lock; any number of calls can be between the two. `kinit` is a
sequence of `kfree`s. What the owner of a page writes to it is left out.

**`kalloc` and `kzalloc` count up as well**, also when there is no page. So `g_freecnt` is right
in the runs in which pages are only freed.

## Main results

* `freemem_of_reach`: in these runs both calls report the free list.
-/

namespace XVapor.FreeMemory

open Function Vm

def KERNBASE : ℕ := 0x80200000

def PHYSTOP : ℕ := KERNBASE + 512 * 1024 * 1024

/-- The symbol `end`, the first address after the kernel, which is linked at `KERNBASE`. -/
structure Image where
  stop : ℕ
  base_le : KERNBASE ≤ stop

/-- The words `next` of the pages, where 0 is `NULL`, the list, the counter, and how many calls
have not counted yet. -/
structure Kmem where
  next : ℕ → ℕ
  freelist : ℕ
  freecnt : BitVec 32
  pending : ℕ

/-- A call, up to `atomic_inc_return`, or that. -/
inductive Act where
  | kfree (pa : ℕ)
  | kalloc
  | kzalloc
  | kmalloc (size : BitVec 32)
  | kcalloc (n size : BitVec 32)
  | count

/-- `kalloc` and `kzalloc`, which have the same text. The page is zeroed. -/
def kalloc (s : Kmem) : Kmem :=
  { s with
    next := if s.freelist = 0 then s.next else update s.next s.freelist 0
    freelist := if s.freelist = 0 then 0 else s.next s.freelist
    pending := s.pending + 1 }

/-- Whether the call comes to the list of `kalloc`. The product in `kcalloc` has 32 bits. -/
def Act.allocates : Act → Bool
  | .kalloc | .kzalloc => true
  | .kmalloc size => size.toNat ≤ PGSIZE
  | .kcalloc n size => (n * size).toNat ≤ PGSIZE
  | .kfree _ | .count => false

/-- A step; `kfree` may panic. -/
def step (img : Image) (s : Kmem) : Act → Option Kmem
  | .kfree pa =>
    if pa % PGSIZE ≠ 0 ∨ pa < img.stop ∨ PHYSTOP ≤ pa then none
    else some { s with
      next := update s.next pa s.freelist, freelist := pa, pending := s.pending + 1 }
  | .count =>
    if s.pending = 0 then none
    else some { s with freecnt := s.freecnt + 1, pending := s.pending - 1 }
  | a => some (if a.allocates then kalloc s else s)

def kmemMachine (img : Image) : Machine Kmem Act where
  init s := s.freelist = 0 ∧ s.freecnt = 0 ∧ s.pending = 0
  step := step img

/-- `kinit`: the loop of `freerange`. -/
def kinit (img : Image) : List Act :=
  (List.range' (pages img.stop) (vpn PHYSTOP - pages img.stop)).flatMap fun v =>
    [.kfree (v * PGSIZE), .count]

/-- `freemem_pages`: the `int` of the counter as a `uint64`. -/
def freememPages (s : Kmem) : BitVec 64 := s.freecnt.signExtend 64

/-- `freemem_bytes`: the product is an `int`. -/
def freememBytes (s : Kmem) : BitVec 64 := (s.freecnt * BitVec.ofNat 32 PGSIZE).signExtend 64

/-- The pages on a list that begins at `p`. -/
def Chain (next : ℕ → ℕ) : ℕ → List ℕ → Prop
  | p, [] => p = 0
  | p, a :: l => p = a ∧ a ≠ 0 ∧ Chain next (next a) l

/-- **The accounting is right** when no call is in progress. -/
def Accounted (s : Kmem) : Prop :=
  s.pending = 0 → ∃ l, Chain s.next s.freelist l ∧
    (freememPages s).toNat = l.length ∧ (freememBytes s).toNat = PGSIZE * l.length

/-- No call comes to the list of `kalloc`, and no page is freed that is on the list. -/
def FreesOnly (s : Kmem) (a : Act) : Prop :=
  a.allocates = false ∧ ∀ pa l, a = .kfree pa → Chain s.next s.freelist l → pa ∉ l

/-- The list has pages behind the kernel, each once; the counter lacks the calls that have not
counted. -/
structure Inv (s : Kmem) (l : List ℕ) : Prop where
  chain : Chain s.next s.freelist l
  nodup : l.Nodup
  isPage : ∀ p ∈ l, p % PGSIZE = 0 ∧ KERNBASE ≤ p ∧ p < PHYSTOP
  count : s.freecnt = BitVec.ofInt 32 (l.length - s.pending)

variable {img : Image} {s s' : Kmem} {l : List ℕ}

/-- There are no more pages than memory has. -/
theorem Inv.length_le (h : Inv s l) {n : ℕ} (hn : PHYSTOP = KERNBASE + PGSIZE * n) :
    l.length ≤ n := by
  have hsub : l ⊆ (List.range n).map (KERNBASE + PGSIZE * ·) := by
    intro p hp
    have hpage := h.isPage p hp
    refine List.mem_map.2 ⟨(p - KERNBASE) / PGSIZE, List.mem_range.2 ?_, ?_⟩ <;>
      simp only [KERNBASE, PGSIZE] at * <;> omega
  simpa using (List.subperm_of_subset h.nodup hsub).length_le

/-- A list depends on the words of its pages only. -/
theorem Chain.congr {next next' : ℕ → ℕ} {p : ℕ} (h : Chain next p l)
    (hnext : ∀ a ∈ l, next' a = next a) : Chain next' p l := by
  induction l generalizing p with
  | nil => exact h
  | cons a l ih =>
    obtain ⟨rfl, hne, h⟩ := h
    obtain ⟨hp, hnext⟩ := List.forall_mem_cons.1 hnext
    exact ⟨rfl, hne, hp ▸ ih h hnext⟩

/-- Under the condition every step keeps the invariant. -/
theorem Inv.step (h : Inv s l) {a : Act} (hok : FreesOnly s a)
    (hs : step img s a = some s') : ∃ l', Inv s' l' := by
  cases a with
  | kfree pa =>
    obtain ⟨hpage, rfl⟩ := Option.ite_none_left_eq_some.1 hs |>.imp_right Option.some.inj
    have hbase := img.base_le
    simp only [not_or, not_not, not_lt, not_le] at hpage
    have hpa := hok.2 pa l rfl h.chain
    refine ⟨pa :: l, ⟨rfl, ?_, ?_⟩, List.nodup_cons.2 ⟨hpa, h.nodup⟩, ?_, ?_⟩
    · rintro rfl
      exact absurd (hbase.trans hpage.2.1) (by decide)
    · simp only [update_self]
      exact h.chain.congr fun a ha => update_of_ne (ne_of_mem_of_not_mem ha hpa) _ _
    · exact List.forall_mem_cons.2 ⟨⟨hpage.1, hbase.trans hpage.2.1, hpage.2.2⟩, h.isPage⟩
    · simp [h.count]
  | count =>
    obtain ⟨hpos, rfl⟩ := Option.ite_none_left_eq_some.1 hs |>.imp_right Option.some.inj
    have hint : (l.length - s.pending : ℤ) + 1 = l.length - (s.pending - 1 : ℕ) := by omega
    refine ⟨l, h.chain, h.nodup, h.isPage, ?_⟩
    rw [← hint, BitVec.ofInt_add, ← h.count]
    rfl
  | kalloc | kzalloc | kmalloc | kcalloc =>
    simp only [FreeMemory.step, hok.1] at hs
    exact ⟨l, Option.some.inj hs ▸ h⟩

theorem toNat_signExtend {x : BitVec 32} (h : x.toNat < 2 ^ 31) :
    (x.signExtend 64).toNat = x.toNat := by
  rw [BitVec.signExtend_eq_setWidth_of_msb_false (by simpa [BitVec.msb_eq_decide] using h),
    BitVec.toNat_setWidth_of_le (by decide)]

/-- **The count of the free pages**: `freemem_pages` and `freemem_bytes` are right in every run in
which no call comes to the list of `kalloc` and no page is freed twice. -/
theorem freemem_of_reach (h : (kmemMachine img).Reach FreesOnly s) : Accounted s := by
  obtain ⟨l, hinv⟩ : ∃ l, Inv s l := by
    refine h.invariant (I := fun s => ∃ l, Inv s l) (fun s h0 => ?_) ?_
    · exact ⟨[], h0.1, List.nodup_nil, nofun, by simp [h0.2.1, h0.2.2]⟩
    · rintro s a s' ⟨l, hi⟩ hok hs
      exact hi.step hok hs
  intro hidle
  have hlen : l.length ≤ 131072 := hinv.length_le rfl
  have hcnt : s.freecnt = BitVec.ofNat 32 l.length := by simp [hinv.count, hidle]
  refine ⟨l, hinv.chain, ?_, ?_⟩
  · rw [freememPages, hcnt, toNat_signExtend] <;> rw [BitVec.toNat_ofNat] <;> omega
  · rw [freememBytes, hcnt, ← BitVec.ofNat_mul, toNat_signExtend] <;>
      rw [BitVec.toNat_ofNat, PGSIZE] <;> omega

theorem Chain.unique {next : ℕ → ℕ} {p : ℕ} {m : List ℕ} (h : Chain next p l)
    (h' : Chain next p m) : l = m := by
  induction l generalizing p m with
  | nil =>
    cases m with
    | nil => rfl
    | cons a m => exact absurd (h'.1.symm.trans h) h'.2.1
  | cons a l ih =>
    obtain ⟨rfl, hne, h⟩ := h
    cases m with
    | nil => exact absurd h' hne
    | cons b m =>
      obtain ⟨rfl, -, h'⟩ := h'
      rw [ih h h']

/-- The last two pages of memory are freed by `kinit`, and a `kmalloc` of two pages fails. -/
theorem freemem_kinit : ∃ s, (kmemMachine ⟨PHYSTOP - 2 * PGSIZE, by decide⟩).exec ⟨0, 0, 0, 0⟩
    (kinit ⟨PHYSTOP - 2 * PGSIZE, by decide⟩ ++ [.kmalloc 8192]) = some s ∧
      s.freelist = PHYSTOP - PGSIZE ∧ Accounted s := by
  have h : (kmemMachine ⟨PHYSTOP - 2 * PGSIZE, by decide⟩).Reach FreesOnly ⟨0, 0, 0, 0⟩ :=
    .init ⟨rfl, rfl, rfl⟩
  have h1 := h.step (a := Act.kfree (PHYSTOP - 2 * PGSIZE))
    ⟨rfl, fun _ _ _ hl => hl.unique (m := []) rfl ▸ List.not_mem_nil⟩ rfl
  have h2 := h1.step (a := Act.count) ⟨rfl, nofun⟩ rfl
  have h3 := h2.step (a := Act.kfree (PHYSTOP - PGSIZE)) ⟨rfl, fun pa l hpa hl => by
    rw [hl.unique (m := [PHYSTOP - 2 * PGSIZE]) ⟨rfl, by decide, rfl⟩, ← Act.kfree.inj hpa]
    decide⟩ rfl
  have h4 := h3.step (a := Act.count) ⟨rfl, nofun⟩ rfl
  have h5 := h4.step (a := Act.kmalloc 8192) ⟨rfl, nofun⟩ rfl
  exact ⟨_, rfl, rfl, freemem_of_reach h5⟩

/-- The page is allocated, the list is empty, and two pages are free by the count. -/
theorem kalloc_counts_up : ∃ s, (kmemMachine ⟨PHYSTOP - PGSIZE, by decide⟩).exec ⟨0, 0, 0, 0⟩
    (kinit ⟨PHYSTOP - PGSIZE, by decide⟩ ++ [.kalloc, .count]) = some s ∧ s.pending = 0 ∧
      s.freelist = 0 ∧ freememPages s = 2 ∧ freememBytes s = 8192 ∧ ¬ Accounted s := by
  refine ⟨_, rfl, rfl, rfl, rfl, rfl, fun h => ?_⟩
  obtain ⟨l, hl, hlen, -⟩ := h rfl
  cases l with
  | nil => cases hlen
  | cons a l => exact hl.2.1 hl.1.symm

end XVapor.FreeMemory
