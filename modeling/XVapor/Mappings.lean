import XVapor.AddressSpace

/-!
# Mappings

`do_mmap` (`mm/mmap.c`), with the fields of a `vma_struct` that a call sets, but `valid` and `type`.
It lowers `max_vma` and takes a reference to the file before it looks whether the range is allowed.

## Main results

* `mmap_iff`: a call does nothing or makes the mapping it is asked for, if and only if it fails
  early, or its length goes with `max_vma` and the range is allowed.
-/

namespace XVapor.Mappings

open Vm (PGSIZE MMAP_END_ADDRESS pages)

/-- `PGROUNDDOWN`. -/
def pgrounddown (a : BitVec 64) : BitVec 64 := .ofNat 64 (a.toNat / PGSIZE * PGSIZE)

def MAP_ANONYMOUS : BitVec 32 := 0x20

/-- What a call asks for. -/
structure Request where
  prot : BitVec 32
  flags : BitVec 32
  fd : BitVec 32
  file : Option ℕ
  offset : BitVec 64
  /-- `sys_mmap` passes no file if the mapping is anonymous. -/
  anonymous : flags &&& MAP_ANONYMOUS ≠ 0 ↔ file = none

/-- A `vma_struct`. -/
structure Vma extends Request where
  start : BitVec 64
  stop : BitVec 64

/-- The `mm` of a process, the files, and the free list. -/
structure Mm where
  maxVma : BitVec 64
  vmas : List Vma
  writable : ℕ → Bool
  ref : ℕ → ℤ
  free : List ℕ

variable (s : Mm) (length : BitVec 64) (r : Request)

/-- The file is not open for the writes that the mapping allows. -/
def refused : Bool :=
  r.file.any (!s.writable ·) && r.prot &&& 2 ≠ 0 && r.flags &&& 1 ≠ 0

/-- The counts of the files, with the reference of the mapping. -/
def refs (ref : ℕ → ℤ) (f : ℕ) : ℤ :=
  if r.flags &&& MAP_ANONYMOUS ≠ 0 then ref f
  else if r.file = some f then ref f + 1
  else ref f

/-- `do_mmap`; `none` is `-1`. -/
def doMmap : Option (BitVec 64) × Mm :=
  if refused s r then (none, s)
  else match s.free with
    | [] => (none, s)
    | page :: free =>
      let v : Vma := ⟨r, pgrounddown (s.maxVma - length), pgrounddown s.maxVma⟩
      let s := { s with maxVma := v.start, ref := refs r s.ref, free }
      if v.start.toNat < MMAP_END_ADDRESS then (none, { s with free := page :: free })
      else (some v.start, { s with vmas := s.vmas ++ [v] })

/-- **What a call is to do**: nothing, or one new mapping. -/
def MmapOk : Prop :=
  match doMmap s length r with
  | (none, s') => s' = s
  | (some a, s') => a.toNat % PGSIZE = 0 ∧ s'.ref = refs r s.ref ∧
      ∃ v : Vma, s'.vmas = s.vmas ++ [v] ∧ v.toRequest = r ∧ v.start = a ∧
        v.stop.toNat = a.toNat + pages length.toNat * PGSIZE

/-- **The condition**: the call fails before it does anything, or the length does not exceed
`max_vma` and goes with how far that is from a page boundary, and the range is allowed. A range that
is not allowed must be empty. -/
def MmapGood : Prop :=
  refused s r = true ∨ s.free = [] ∨
    if (pgrounddown (s.maxVma - length)).toNat < MMAP_END_ADDRESS then
      r.file = none ∧ pgrounddown (s.maxVma - length) = s.maxVma
    else length.toNat ≤ s.maxVma.toNat ∧ (length.toNat % PGSIZE = 0 ∨
      s.maxVma.toNat % PGSIZE < length.toNat % PGSIZE)

theorem pgrounddown_toNat (x : BitVec 64) :
    (pgrounddown x).toNat = x.toNat / PGSIZE * PGSIZE := by
  have hx := x.isLt
  rw [pgrounddown, BitVec.toNat_ofNat, Nat.mod_eq_of_lt]
  exact (Nat.div_mul_le_self _ _).trans_lt hx

theorem refs_eq_iff {r : Request} {ref : ℕ → ℤ} : refs r ref = ref ↔ r.file = none := by
  rw [← r.anonymous]
  by_cases hanon : r.flags &&& MAP_ANONYMOUS ≠ 0
  · exact iff_of_true (funext fun _ => if_pos hanon) hanon
  · obtain ⟨f, hf⟩ := Option.ne_none_iff_exists'.1 (mt r.anonymous.2 hanon)
    simp only [funext_iff, refs, hanon, hf, if_false, iff_false, not_forall]
    exact ⟨f, by simp⟩

/-- The end of the mapping is where it is to be. -/
theorem length_iff (m l : BitVec 64) :
    (pgrounddown m).toNat = (pgrounddown (m - l)).toNat + pages l.toNat * PGSIZE ↔
      l.toNat ≤ m.toNat ∧ (l.toNat % PGSIZE = 0 ∨ m.toNat % PGSIZE < l.toNat % PGSIZE) := by
  have hm := m.isLt
  have hl := l.isLt
  rw [pgrounddown_toNat, pgrounddown_toNat, BitVec.toNat_sub, pages, PGSIZE]
  omega

/-- **`do_mmap` is atomic and exact** if and only if the condition holds. -/
theorem mmap_iff (s : Mm) (length : BitVec 64) (r : Request) :
    MmapOk s length r ↔ MmapGood s length r := by
  unfold MmapOk MmapGood doMmap
  by_cases href : refused s r = true
  · simp [href]
  rcases hfree : s.free with _ | ⟨page, free⟩
  · simp [href]
  rw [if_neg href]
  by_cases hlow : (pgrounddown (s.maxVma - length)).toNat < MMAP_END_ADDRESS
  · simp only [hlow, if_true, href, false_or, reduceCtorEq]
    rw [← @refs_eq_iff r s.ref]
    constructor
    · intro h
      exact ⟨congrArg Mm.ref h, congrArg Mm.maxVma h⟩
    · rintro ⟨hr, hmax⟩
      rw [hr, hmax, ← hfree]
  · simp only [hlow, if_false, href, false_or, reduceCtorEq]
    rw [← length_iff]
    constructor
    · rintro ⟨-, -, v, hv, -, -, hstop⟩
      obtain rfl := List.singleton_inj.1 (List.append_cancel_left hv)
      exact hstop
    · intro hstop
      refine ⟨?_, trivial, _, rfl, rfl, rfl, hstop⟩
      rw [pgrounddown_toNat, Nat.mul_mod_left]

/-- A mapping of a page when no room is left: the call fails, `max_vma` is lower, and the file has a
reference more. -/
theorem mmap_leaks : ∃ (s : Mm) (r : Request), (doMmap s 4096 r).1 = none ∧
    (doMmap s 4096 r).2.maxVma ≠ s.maxVma ∧ (doMmap s 4096 r).2.ref 0 = s.ref 0 + 1 ∧
    ¬ MmapOk s 4096 r := by
  refine ⟨⟨.ofNat 64 MMAP_END_ADDRESS, [], fun _ => true, fun _ => 1, [0]⟩,
    ⟨1, 2, 3, some 0, 0, by decide⟩, by decide, by decide, by decide, ?_⟩
  intro h
  exact absurd (congrArg Mm.maxVma h) (by decide)

end XVapor.Mappings
