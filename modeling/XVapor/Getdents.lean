import Mathlib

/-!
# Listing a Directory

`sys_getdents64` (`fs/sysfile.c`, `fs/ext4fs.c`), called again and again until it returns 0. The
iterator `ext4_dir_entry_next` gives the entries one after the other. A call takes the next entry
before it knows whether the record fits, and ends with a record that does not fit or fills the
buffer: **this entry is lost**, as the next call begins behind it.

The buffers are mapped, so that `copyout` succeeds and the count is an `int`. A call that finds no
page returns 0.

## Main results

* `listed_iff`: a directory is listed if and only if the first call has room for all its records.
-/

namespace XVapor.Getdents

/-- `ext4_direntry`, with the `next_off` of the directory after it. -/
structure Entry where
  inode : ℕ
  inodeType : ℕ
  name : List UInt8
  nextOff : ℕ
  name_le : name.length ≤ 255

/-- `struct linux_dirent64`. -/
structure Dirent where
  ino : ℕ
  off : ℕ
  reclen : ℕ
  type : ℕ
  name : List UInt8

/-- From `EXT4_DE_REG_FILE`, `DIR`, `CHRDEV`, `BLKDEV`, `FIFO`, `SOCK` and `SYMLINK`. -/
def dType : ℕ → ℕ
  | 1 => 8
  | 2 => 4
  | 3 => 2
  | 4 => 6
  | 5 => 1
  | 6 => 12
  | 7 => 10
  | _ => 0

/-- The size of the structure is 24, although the name begins at 19. -/
def Entry.reclen (e : Entry) : ℕ := 24 + e.name.length + 1

def Entry.dirent (e : Entry) (off : ℕ) : Dirent :=
  ⟨e.inode, off, e.reclen % 2 ^ 16, dType e.inodeType, e.name⟩

/-- What a call does: the records it stores, each with its place in the buffer, what it returns,
and the entries that the iterator still has. -/
structure Result where
  out : List (ℕ × Dirent)
  ret : ℕ
  left : List Entry

/-- The loop of `ext4_temp_vgentdents`. -/
def loop (count : ℕ) : ℕ → ℕ → List Entry → Result
  | totlen, _, [] => ⟨[], totlen, []⟩
  | totlen, off, e :: es =>
    if totlen + e.reclen ≥ count then ⟨[], totlen, es⟩
    else
      let r := loop count (totlen + e.reclen) e.nextOff es
      { r with out := (totlen, e.dirent off) :: r.out }

def ext4TempVgentdents (page : Bool) (count : ℕ) (es : List Entry) : Result :=
  if count = 0 ∨ page = false then ⟨[], 0, es⟩ else loop count 0 0 es

/-- From `pos` on, the records are found by their lengths, up to `stop`. -/
def Parses : ℕ → List (ℕ × Dirent) → ℕ → Prop
  | pos, [], stop => pos = stop
  | pos, (a, d) :: l, stop => a = pos ∧ Parses (pos + d.reclen) l stop

/-- What a record says of its entry. -/
def Dirent.lists (d : Dirent) : ℕ × ℕ × List UInt8 := (d.ino, d.type, d.name)

def Entry.listed (e : Entry) : ℕ × ℕ × List UInt8 := (e.inode, dType e.inodeType, e.name)

section

variable (page : ℕ → Bool) (count : ℕ → ℕ) (es : List Entry)

/-- The entries that are left before the `k`th call. -/
def left : ℕ → List Entry
  | 0 => es
  | k + 1 => (ext4TempVgentdents (page k) (count k) (left k)).left

/-- The `k`th call of `sys_getdents64`. -/
def call (k : ℕ) : Result := ext4TempVgentdents (page k) (count k) (left page count es k)

/-- What the first `k` calls list. -/
def listing (k : ℕ) : List (ℕ × ℕ × List UInt8) :=
  (List.range k).flatMap fun j => (call page count es j).out.map (·.2.lists)

/-- **The directory is listed**: each buffer has its records one behind the other, the first call
that returns 0 is made at the end of the directory, and the calls list its entries in order. -/
def Listed : Prop :=
  (∀ k, Parses 0 (call page count es k).out (call page count es k).ret ∧
    (call page count es k).ret ≤ count k) ∧
  ∃ k, (∀ j < k, (call page count es j).ret ≠ 0) ∧ (call page count es k).ret = 0 ∧
    left page count es k = [] ∧ listing page count es k = es.map Entry.listed

end

variable {page : ℕ → Bool} {count : ℕ → ℕ} {es : List Entry} {n totlen off k : ℕ}

theorem loop_parses (h : totlen ≤ n) :
    Parses totlen (loop n totlen off es).out (loop n totlen off es).ret ∧
      (loop n totlen off es).ret ≤ n := by
  induction es generalizing totlen off with
  | nil => exact ⟨rfl, h⟩
  | cons e es ih =>
    rw [loop]
    split
    · exact ⟨rfl, h⟩
    rename_i hfit
    have hlen : e.reclen % 2 ^ 16 = e.reclen := by
      have := e.name_le
      rw [Entry.reclen]
      omega
    obtain ⟨hp, hle⟩ := @ih (totlen + e.reclen) e.nextOff (by omega)
    refine ⟨⟨rfl, ?_⟩, hle⟩
    rwa [Entry.dirent, hlen]

/-- What fits is listed. -/
theorem loop_fits (h : totlen + (es.map Entry.reclen).sum < n) :
    (loop n totlen off es).left = [] ∧
      (loop n totlen off es).ret = totlen + (es.map Entry.reclen).sum ∧
      (loop n totlen off es).out.map (·.2.lists) = es.map Entry.listed := by
  induction es generalizing totlen off with
  | nil => exact ⟨rfl, rfl, rfl⟩
  | cons e es ih =>
    rw [List.map_cons, List.sum_cons, ← Nat.add_assoc] at h ⊢
    obtain ⟨hleft, hret, hout⟩ := @ih _ e.nextOff h
    rw [loop, if_neg (by omega), List.map_cons, List.map_cons, hout]
    exact ⟨hleft, hret, rfl⟩

/-- No entry is both listed and left, and one that does not fit is neither. -/
theorem loop_length :
    (loop n totlen off es).out.length + (loop n totlen off es).left.length ≤ es.length ∧
      (es ≠ [] → n ≤ totlen + (es.map Entry.reclen).sum →
        (loop n totlen off es).out.length + (loop n totlen off es).left.length < es.length) := by
  induction es generalizing totlen off with
  | nil => simp [loop]
  | cons e es ih =>
    rw [loop]
    split
    · simp
    rename_i hfit
    obtain ⟨hle, hlost⟩ := @ih (totlen + e.reclen) e.nextOff
    rw [List.length_cons, List.map_cons, List.sum_cons]
    dsimp only [List.length_cons]
    refine ⟨by omega, fun _ hsum => ?_⟩
    obtain rfl | hne := eq_or_ne es []
    · exact absurd hsum hfit
    · have := hlost hne (by omega)
      omega

theorem call_parses : Parses 0 (call page count es k).out (call page count es k).ret ∧
    (call page count es k).ret ≤ count k := by
  rw [call, ext4TempVgentdents]
  split
  · exact ⟨rfl, Nat.zero_le _⟩
  · exact loop_parses (Nat.zero_le _)

/-- Each call goes on with what the one before has left. -/
theorem call_length : (call page count es k).out.length + (left page count es (k + 1)).length ≤
    (left page count es k).length := by
  rw [call, left, ext4TempVgentdents]
  split
  · simp
  · exact loop_length.1

/-- A directory that does not fit into the first buffer loses an entry for good. -/
theorem listing_length (hne : es ≠ []) (hpos : (call page count es 0).ret ≠ 0)
    (hsum : count 0 ≤ (es.map Entry.reclen).sum) :
    (listing page count es (k + 1)).length + (left page count es (k + 1)).length < es.length := by
  induction k with
  | zero =>
    rw [call, ext4TempVgentdents, left] at hpos
    rw [listing, List.range_one, List.flatMap_singleton, List.length_map, left, call, left,
      ext4TempVgentdents]
    split at hpos
    · exact absurd rfl hpos
    rename_i h
    rw [if_neg h]
    exact loop_length.2 hne (by omega)
  | succ k ih =>
    have := @call_length page count es (k + 1)
    rw [listing, List.range_succ, List.flatMap_append, List.length_append, List.flatMap_singleton,
      List.length_map]
    rw [listing] at ih
    omega

/-- **A directory is listed if and only if** it is empty, or the first call finds a page and its
buffer has room for all records and a byte more. -/
theorem listed_iff (page : ℕ → Bool) (count : ℕ → ℕ) (es : List Entry) :
    Listed page count es ↔
      es = [] ∨ page 0 = true ∧ (es.map Entry.reclen).sum < count 0 := by
  constructor
  · rintro ⟨-, k, hpos, -, -, hall⟩
    by_contra hcon
    obtain ⟨hne, hsum⟩ := not_or.1 hcon
    obtain _ | k := k
    · simp [listing, hne] at hall
    have hfirst := hpos 0 (Nat.succ_pos k)
    have hpage : page 0 = true := by
      by_contra hp
      rw [call, ext4TempVgentdents, if_pos (.inr (by simpa using hp))] at hfirst
      exact hfirst rfl
    have hle := Nat.le_of_not_lt fun hlt => hsum ⟨hpage, hlt⟩
    have hlost := listing_length (k := k) hne hfirst hle
    rw [hall, List.length_map] at hlost
    omega
  · intro h
    have hnil : ∀ b n, (ext4TempVgentdents b n []).ret = 0 := by
      intro b n
      rw [ext4TempVgentdents]
      split <;> rfl
    refine ⟨fun k => call_parses, ?_⟩
    obtain _ | ⟨e, es⟩ := es
    · exact ⟨0, nofun, hnil _ _, rfl, rfl⟩
    obtain ⟨hpage, hsum⟩ := h.resolve_left (List.cons_ne_nil e es)
    obtain ⟨hleft, hret, hout⟩ := @loop_fits (e :: es) (count 0) 0 0
      (show 0 + ((e :: es).map Entry.reclen).sum < count 0 by rwa [Nat.zero_add])
    have hcall : ext4TempVgentdents (page 0) (count 0) (e :: es) = loop (count 0) 0 0 (e :: es) :=
      if_neg (by simp [hpage]; omega)
    have hone : left page count (e :: es) 1 = [] := by rw [left, left, hcall, hleft]
    refine ⟨1, fun j hj => ?_, ?_, hone, ?_⟩
    · obtain rfl : j = 0 := by omega
      rw [call, left, hcall, hret, List.map_cons, List.sum_cons, Entry.reclen]
      omega
    · rw [call, hone]
      exact hnil _ _
    · simpa [listing, call, left, hcall] using hout

/-- **The second entry is lost**: its record ends behind the buffer of the first call, and the
second call finds the end of the directory. -/
theorem second_entry_lost :
    let es := [⟨2, 2, [46], 12, by decide⟩, ⟨2, 2, [46, 46], 24, by decide⟩]
    (∀ e ∈ es, e.reclen ≤ 50) ∧ (call (fun _ => true) (fun _ => 50) es 0).ret = 26 ∧
      (call (fun _ => true) (fun _ => 50) es 1).ret = 0 ∧
      listing (fun _ => true) (fun _ => 50) es 2 = [(2, 4, [46])] ∧
      ¬ Listed (fun _ => true) (fun _ => 50) es := by
  refine ⟨by decide, rfl, rfl, rfl, fun h => ?_⟩
  obtain ⟨-, k, hpos, -, -, hall⟩ := h
  match k with
  | 0 | 1 => cases hall
  | k + 2 => exact hpos 1 (by omega) rfl

end XVapor.Getdents
