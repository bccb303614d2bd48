import XVapor.FreeMemory

/-!
# The Pages of the Allocator

The free list of `mm/kalloc.c` on RISC-V as it is in memory: the first word of a free page is the
address of the next one, and the owners of the other pages write to them as they like. The calls
come one after the other; `g_freecnt` is left out. Which pages are allocated is read off the
calls: a result that is not `NULL` is, until it is the argument of `kfree`.

## Main results

* `kalloc_contract`: **an allocated page is zero and has no other owner**, and the list has the
  pages that are not allocated.
-/

namespace XVapor.Kalloc

open Function
open Vm (PGSIZE pages vpn)
open FreeMemory (Image PHYSTOP Chain)

/-- Memory, where `mem i` is the word of 64 bits at the address `8 * i`, and the list, where 0 is
`NULL`. -/
structure Heap where
  mem : ℕ → ℕ
  freelist : ℕ

/-- `memset(pa, c, PGSIZE)`. -/
def memset (mem : ℕ → ℕ) (pa c : ℕ) (i : ℕ) : ℕ :=
  if pa ≤ 8 * i ∧ 8 * i < pa + PGSIZE then c * 0x0101010101010101 else mem i

/-- `kfree`, which may panic. -/
def kfree (img : Image) (s : Heap) (pa : ℕ) : Option Heap :=
  if pa % PGSIZE ≠ 0 ∨ pa < img.stop ∨ PHYSTOP ≤ pa then none
  else some ⟨update (memset s.mem pa 1) (pa / 8) s.freelist, pa⟩

/-- The addresses of the loop in `freerange`. -/
def managed (img : Image) : List ℕ :=
  (List.range' (pages img.stop) (vpn PHYSTOP - pages img.stop)).map (· * PGSIZE)

/-- `kinit`, which frees them one by one. -/
def kinit (img : Image) (mem : ℕ → ℕ) : Option Heap :=
  (managed img).foldlM (kfree img) ⟨mem, 0⟩

/-- `kalloc`, with the page or `NULL`. -/
def kalloc (s : Heap) : ℕ × Heap :=
  let r := s.freelist
  if r = 0 then (0, s) else (r, ⟨memset s.mem r 0, s.mem (r / 8)⟩)

/-- `kzalloc`, which has the same text. -/
def kzalloc : Heap → ℕ × Heap := kalloc

def kmalloc (s : Heap) (size : BitVec 32) : ℕ × Heap :=
  if PGSIZE < size.toNat then (0, s) else kalloc s

inductive Request
  | kalloc
  | kzalloc
  | kmalloc (size : BitVec 32)

def Request.run (s : Heap) : Request → ℕ × Heap
  | .kalloc => Kalloc.kalloc s
  | .kzalloc => Kalloc.kzalloc s
  | .kmalloc size => Kalloc.kmalloc s size

/-- The request is for at most a page. -/
def Request.Fits : Request → Prop
  | .kmalloc size => size.toNat ≤ PGSIZE
  | _ => True

/-- A call, or a store of an owner to the word at `8 * i`. -/
inductive Act
  | alloc (q : Request)
  | kfree (pa : ℕ)
  | store (i v : ℕ)

/-- The heap; and, not in the source, the pages that calls have returned and no call has freed. -/
structure Owned where
  heap : Heap
  allocated : List ℕ

/-- Calls and stores after `kinit`. A page is freed, and is written to, while it is allocated. -/
def heapMachine (img : Image) : Machine Owned Act where
  init s := (∃ mem, kinit img mem = some s.heap) ∧ s.allocated = []
  step s
    | .alloc q =>
      let r := (q.run s.heap).1
      some ⟨(q.run s.heap).2, if r = 0 then s.allocated else r :: s.allocated⟩
    | .kfree pa =>
      if pa ∈ s.allocated then (kfree img s.heap pa).map (⟨·, s.allocated.erase pa⟩) else none
    | .store i v =>
      if 8 * i / PGSIZE * PGSIZE ∈ s.allocated then
        some { s with heap.mem := update s.heap.mem i v }
      else none

/-- The pages on the free list. -/
def Heap.Free (s : Heap) (l : List ℕ) : Prop := Chain (fun p => s.mem (p / 8)) s.freelist l

def IsPage (img : Image) (p : ℕ) : Prop := p % PGSIZE = 0 ∧ img.stop ≤ p ∧ p < PHYSTOP

/-- A page is free, or one of `own`. -/
def Inv (img : Image) (s : Heap) (l own : List ℕ) : Prop :=
  s.Free l ∧ (l ++ own).Perm (managed img)

variable {img : Image} {s s' : Heap} {l own : List ℕ} {p pa i r : ℕ} {q : Request}

theorem mem_managed : p ∈ managed img ↔ IsPage img p := by
  have htop : PHYSTOP = 655872 * 4096 := rfl
  simp only [managed, List.mem_map, List.mem_range'_1, pages, vpn, IsPage, PGSIZE, htop]
  constructor
  · rintro ⟨v, hv, rfl⟩
    omega
  · intro h
    exact ⟨p / 4096, by omega, by omega⟩

/-- The words of one page are not those of another. -/
theorem word_iff (hp : IsPage img p) (hpa : IsPage img pa) :
    (pa ≤ 8 * (p / 8) ∧ 8 * (p / 8) < pa + PGSIZE ↔ p = pa) ∧ (p / 8 = pa / 8 ↔ p = pa) := by
  rw [IsPage, PGSIZE] at *
  omega

section

variable (h : Inv img s l own)
include h

theorem Inv.nodup : (l ++ own).Nodup :=
  h.2.nodup_iff.2 (List.Nodup.map (fun _ _ => Nat.mul_right_cancel (by decide)) List.nodup_range')

theorem Inv.isPage (hp : p ∈ l ++ own) : IsPage img p :=
  mem_managed.1 (h.2.mem_iff.1 hp)

theorem Inv.ne_of_free (hp : p ∈ l) (hpa : pa ∈ own) : p ≠ pa :=
  fun heq => List.disjoint_of_nodup_append h.nodup hp (heq ▸ hpa)

/-- A page of an owner can be freed, and is then on the list. -/
theorem Inv.kfree (hpa : pa ∈ own) : ∃ s', Kalloc.kfree img s pa = some s' ∧
    Inv img s' (pa :: l) (own.erase pa) := by
  have hpage := h.isPage (List.mem_append_right l hpa)
  refine ⟨_, if_neg ?_, ⟨rfl, ?_, ?_⟩, ?_⟩
  · rw [IsPage] at hpage
    omega
  · rintro rfl
    exact absurd (img.base_le.trans hpage.2.1) (by decide)
  · simp only [update_self]
    refine h.1.congr fun p hp => ?_
    have hne := h.ne_of_free hp hpa
    obtain ⟨hword, hfirst⟩ := word_iff (h.isPage (List.mem_append_left _ hp)) hpage
    rw [update_of_ne (mt hfirst.1 hne), memset, if_neg (mt hword.1 hne)]
  · exact (List.perm_middle.symm.trans ((List.perm_cons_erase hpa).symm.append_left l)).trans h.2

/-- What `kalloc` finds on the list. -/
theorem Inv.kalloc : s.freelist = 0 ∧ Kalloc.kalloc s = (0, s) ∨
    ∃ l', l = s.freelist :: l' ∧ s.freelist ≠ 0 ∧ (Kalloc.kalloc s).1 = s.freelist ∧
      (Kalloc.kalloc s).2.mem = memset s.mem s.freelist 0 ∧
      Inv img (Kalloc.kalloc s).2 l' (s.freelist :: own) := by
  obtain ⟨hl, hperm⟩ := id h
  cases l with
  | nil => exact .inl ⟨hl, if_pos hl⟩
  | cons a l =>
    obtain ⟨rfl, hne, hl⟩ := hl
    refine .inr ⟨l, rfl, hne, ?_⟩
    simp only [Kalloc.kalloc, if_neg hne]
    refine ⟨trivial, trivial, hl.congr fun p hp => ?_, List.perm_middle.trans hperm⟩
    refine if_neg fun hin => (List.nodup_cons.1 h.nodup).1 (List.mem_append_left _ ?_)
    rwa [← (word_iff (h.isPage (by simp [hp])) (h.isPage (by simp))).1.1 hin]

/-- An owner does not write to the links. -/
theorem Inv.store {v : ℕ} (hi : 8 * i / PGSIZE * PGSIZE ∈ own) :
    Inv img { s with mem := update s.mem i v } l own := by
  refine ⟨h.1.congr fun p hp => update_of_ne ?_ _ _, h.2⟩
  rintro rfl
  refine h.ne_of_free hp hi ?_
  have hpage := (h.isPage (List.mem_append_left _ hp)).1
  rw [PGSIZE] at *
  omega

end

/-- A request is `kalloc`, or is for more than a page. -/
theorem Request.run_cases (q : Request) :
    q.run s = Kalloc.kalloc s ∨ ¬ q.Fits ∧ q.run s = (0, s) := by
  cases q with
  | kalloc | kzalloc => exact .inl rfl
  | kmalloc size =>
    rw [Request.run, Kalloc.kmalloc]
    split
    next hbig => exact .inr ⟨Nat.not_le.2 hbig, rfl⟩
    next => exact .inl rfl

/-- Pages of an owner are freed one after the other. -/
theorem foldlM_kfree (ps : List ℕ) (h : Inv img s l ps) :
    ∃ s' l', ps.foldlM (Kalloc.kfree img) s = some s' ∧ Inv img s' l' [] := by
  induction ps generalizing s l with
  | nil => exact ⟨s, l, rfl, h⟩
  | cons p ps ih =>
    obtain ⟨s1, hfree, h1⟩ := h.kfree List.mem_cons_self
    rw [List.foldlM_cons, hfree]
    rw [List.erase_cons_head] at h1
    exact ih h1

/-- **`kinit` ends, and then every page is on the list.** -/
theorem kinit_inv (img : Image) (mem : ℕ → ℕ) : ∃ s l, kinit img mem = some s ∧ Inv img s l [] :=
  foldlM_kfree (s := ⟨mem, 0⟩) (l := []) _ ⟨rfl, .refl _⟩

theorem inv_of_reach {s : Owned} (h : (heapMachine img).Reach Machine.anyStep s) :
    ∃ l, Inv img s.heap l s.allocated := by
  refine h.invariant (I := fun s => ∃ l, Inv img s.heap l s.allocated) ?_ ?_
  · rintro s ⟨⟨mem, hs⟩, hnone⟩
    obtain ⟨s', l, hs', hinv⟩ := kinit_inv img mem
    rw [hnone]
    exact ⟨l, Option.some.inj (hs'.symm.trans hs) ▸ hinv⟩
  · rintro s a s' ⟨l, hinv⟩ _ hstep
    cases a with
    | alloc q =>
      cases hstep
      obtain hq | ⟨-, hq⟩ := q.run_cases (s := s.heap) <;> rw [hq]
      · obtain ⟨-, hk⟩ | ⟨l', -, hne, hr, -, hinv'⟩ := hinv.kalloc
        · exact ⟨l, by simpa [hk] using hinv⟩
        · exact ⟨l', by rwa [hr, if_neg hne]⟩
      · exact ⟨l, hinv⟩
    | kfree pa =>
      obtain ⟨hpa, hstep⟩ := Option.ite_none_right_eq_some.1 hstep
      obtain ⟨s1, hs1, hinv1⟩ := hinv.kfree hpa
      rw [hs1] at hstep
      cases hstep
      exact ⟨_, hinv1⟩
    | store i v =>
      obtain ⟨hi, hstep⟩ := Option.ite_none_right_eq_some.1 hstep
      cases hstep
      exact ⟨l, hinv.store hi⟩

/-- **An allocated page is zero and has no other owner**; the free list has the pages that are not
allocated, each once, and only an empty list gives `NULL`. Neither `kinit` nor the `kfree` of an
allocated page panics. -/
theorem kalloc_contract {s : Owned} (h : (heapMachine img).Reach Machine.anyStep s) :
    (∃ l, s.heap.Free l ∧ l.Nodup ∧ ∀ p, p ∈ l ↔ IsPage img p ∧ p ∉ s.allocated) ∧
    (∀ (q : Request) r heap, q.run s.heap = (r, heap) →
      (r ≠ 0 → IsPage img r ∧ r ∉ s.allocated ∧
        ∀ i, r ≤ 8 * i → 8 * i < r + PGSIZE → heap.mem i = 0) ∧
      (q.Fits → r = 0 → s.heap.freelist = 0)) ∧
    (∀ pa ∈ s.allocated, (kfree img s.heap pa).isSome) ∧ ∀ mem, (kinit img mem).isSome := by
  obtain ⟨l, hinv⟩ := inv_of_reach h
  refine ⟨⟨l, hinv.1, hinv.nodup.of_append_left, fun p => ⟨fun hp => ?_, fun hp => ?_⟩⟩,
    fun q r heap hrun => ?_, fun pa hpa => ?_, fun mem => ?_⟩
  · exact ⟨hinv.isPage (List.mem_append_left _ hp), fun hown => hinv.ne_of_free hp hown rfl⟩
  · exact (List.mem_append.1 (hinv.2.mem_iff.2 (mem_managed.2 hp.1))).resolve_right hp.2
  · have hnull : (0, s.heap) = (r, heap) → r = 0 := fun heq => (congrArg Prod.fst heq).symm
    obtain hq | ⟨hbig, hq⟩ := q.run_cases (s := s.heap) <;> rw [hq] at hrun
    · obtain ⟨h0, hk⟩ | ⟨l', rfl, -, hr, hmem, -⟩ := hinv.kalloc
      · exact ⟨fun hne => absurd (hnull (hk ▸ hrun)) hne, fun _ _ => h0⟩
      rw [hrun] at hr hmem
      obtain rfl : r = s.heap.freelist := hr
      refine ⟨fun _ => ⟨hinv.isPage List.mem_cons_self, fun hown => ?_, fun i h1 h2 => ?_⟩, ?_⟩
      · exact hinv.ne_of_free List.mem_cons_self hown rfl
      · exact (congrFun hmem i).trans ((if_pos ⟨h1, h2⟩).trans (Nat.zero_mul _))
      · exact fun _ => id
    · exact ⟨fun hne => absurd (hnull hrun) hne, fun hfits => absurd hfits hbig⟩
  · obtain ⟨s', hfree, -⟩ := hinv.kfree hpa
    exact Option.isSome_of_eq_some hfree
  · obtain ⟨s', -, hinit, -⟩ := kinit_inv img mem
    exact Option.isSome_of_eq_some hinit

/-- Two pages: both are allocated, one is written to and freed, and it is allocated again. -/
theorem kalloc_contract_page : ∃ img s, (heapMachine img).Reach Machine.anyStep s ∧
    s.allocated = [PHYSTOP - PGSIZE, PHYSTOP - 2 * PGSIZE] ∧ s.heap.freelist = 0 ∧
    (∃ l, s.heap.Free l ∧ l.Nodup ∧ ∀ p, p ∈ l ↔ IsPage img p ∧ p ∉ s.allocated) ∧
    ∀ pa ∈ s.allocated, (kfree img s.heap pa).isSome := by
  have h0 : (heapMachine ⟨PHYSTOP - 2 * PGSIZE, by decide⟩).Reach Machine.anyStep ⟨_, []⟩ :=
    .init ⟨⟨fun _ => 0, rfl⟩, rfl⟩
  have h1 := h0.step (a := .alloc .kalloc) trivial rfl
  have h2 := h1.step (a := .alloc (.kmalloc 16)) trivial rfl
  have h3 := h2.step (a := .store ((PHYSTOP - PGSIZE) / 8) 7) trivial rfl
  have h4 := h3.step (a := .kfree (PHYSTOP - PGSIZE)) trivial rfl
  have h5 := h4.step (a := .alloc .kzalloc) trivial rfl
  exact ⟨_, _, h5, rfl, rfl, (kalloc_contract h5).1, (kalloc_contract h5).2.2.1⟩

end XVapor.Kalloc
