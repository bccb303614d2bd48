import Mathlib

/-!
# Vectored Reads and Writes

`generic_readv` and `generic_writev` (`fs/sysfile.c`) copy the array of iovecs into a page and go
through it, and so does `ext4_vwritev` (`fs/ext4fs.c`) for regular files. The three loops use the
iovec `kvec[i]`, and advance **both** `i` and `kvec` after a transfer: the next iovec is left out,
and the last round uses one behind the array.

What a transfer does to the file is a parameter, of which nothing is assumed.

## Main results

* `vectored_iff`: a call is one transfer of the whole if and only if only its last iovec transfers.
-/

namespace XVapor.Vectored

structure Iovec where
  base : ℕ
  len : ℕ

abbrev Mem := ℕ → UInt8

/-- A file: the bytes that a read of `n` bytes gives, and a write. Both can fail. -/
structure Ops (φ : Type) where
  read : φ → ℕ → Option (List UInt8 × φ)
  write : φ → List UInt8 → Option φ
  length_le : ∀ {f n r}, read f n = some r → r.1.length ≤ n

/-- The three loops: `generic_readv`, `generic_writev` of a pipe or a device, and `ext4_vwritev`,
which does not ask whether the file was opened for writing. -/
inductive Loop
  | genericReadv
  | genericWritev
  | ext4Vwritev (writable : Bool)
  deriving DecidableEq

def store (mem : Mem) (base : ℕ) (bs : List UInt8) : Mem := fun a =>
  if base ≤ a then bs.getD (a - base) (mem a) else mem a

def load (mem : Mem) (v : Iovec) : List UInt8 := (List.range v.len).map fun i => mem (v.base + i)

/-- The test for an iovec that is left out. -/
def Loop.skip : Loop → Iovec → Bool
  | .ext4Vwritev _, v => v.len = 0
  | _, v => v.len = 0 ∨ v.base = 0

variable {φ : Type}

/-- The transfer of a buffer, at the position of the file: the count, and what it leaves. -/
def Loop.io (D : Ops φ) (c : Loop) (x : φ × Mem) (v : Iovec) : Option (ℕ × φ × Mem) :=
  if c = .genericReadv then
    (D.read x.1 v.len).map fun r => (r.1.length, r.2, store x.2 v.base r.1)
  else (D.write x.1 (load x.2 v)).map fun f => (v.len, f, x.2)

/-- The variables of a loop. The count is `none` after a failure. -/
structure Run (φ : Type) where
  x : φ × Mem
  cnt : Option ℕ
  /-- History: no iovec behind the array was used. -/
  inside : Bool

/-- The loop over `iovcnt` iovecs, in round `i` of which `kvec` has been advanced `k` times, with
`n` rounds left. -/
def Loop.rounds (D : Ops φ) (c : Loop) (kvec : ℕ → Iovec) (iovcnt : ℕ) :
    (n i k : ℕ) → Run φ → Run φ
  | 0, _, _, r => r
  | n + 1, i, k, r =>
    let v := kvec (i + k)
    let r := { r with inside := r.inside && decide (i + k < iovcnt) }
    if c.skip v then c.rounds D kvec iovcnt n (i + 1) k r
    else match c.io D r.x v with
      | none => { r with cnt := none }
      | some (m, x) =>
        c.rounds D kvec iovcnt n (i + 1) (k + 1) { r with x, cnt := r.cnt.map (· + m) }

/-- The page that the array was copied into; `junk` is what it held before. -/
def kvecs (iovs : List Iovec) (junk : ℕ → Iovec) (i : ℕ) : Iovec := (iovs[i]?).getD (junk i)

def Loop.run (D : Ops φ) (c : Loop) (x : φ × Mem) (iovs : List Iovec) (junk : ℕ → Iovec) : Run φ :=
  c.rounds D (kvecs iovs junk) iovs.length iovs.length 0 0 ⟨x, some 0, true⟩

/-! ### One transfer -/

def total (iovs : List Iovec) : ℕ := (iovs.map Iovec.len).sum

/-- The bytes are put into the buffers in order. -/
def scatter (mem : Mem) : List Iovec → List UInt8 → Mem
  | [], _ => mem
  | v :: vs, bs => scatter (store mem v.base (bs.take v.len)) vs (bs.drop v.len)

/-- One read of the total length, or one write of the concatenation, which fails if the file was
not opened for writing. -/
def Loop.once (D : Ops φ) (c : Loop) (x : φ × Mem) (iovs : List Iovec) : Option (ℕ × φ × Mem) :=
  if total iovs = 0 then some (0, x)
  else if c = .genericReadv then
    (D.read x.1 (total iovs)).map fun r => (r.1.length, r.2, scatter x.2 iovs r.1)
  else if c = .ext4Vwritev false then none
  else (D.write x.1 (iovs.flatMap (load x.2))).map fun f => (total iovs, f, x.2)

/-- A call does what one transfer would, and uses no iovec outside of the array. -/
def Run.Equals (r : Run φ) (once : Option (ℕ × φ × Mem)) : Prop :=
  r.cnt.map (·, r.x) = once ∧ r.inside = true

/-- The last iovec is used, and used rightly. -/
def Loop.Good : Loop → Iovec → Prop
  | .ext4Vwritev writable, _ => writable = true
  | _, v => v.base ≠ 0

/-- The condition: all iovecs but the last are empty, and the last is empty or good. -/
def OnlyLast (good : Iovec → Prop) (iovs : List Iovec) : Prop :=
  (∀ v ∈ iovs.dropLast, v.len = 0) ∧ ∀ v ∈ iovs.getLast?, v.len = 0 ∨ good v

/-! ### The rounds -/

variable {D : Ops φ} {c : Loop} {kvec junk : ℕ → Iovec} {iovcnt n m i k : ℕ} {r : Run φ}
  {iovs pre : List Iovec} {x : φ × Mem} {v : Iovec} {good : Iovec → Prop}

theorem rounds_skip (h : ∀ j < n, c.skip (kvec (i + j)) = true) (hle : i + n ≤ iovcnt) :
    c.rounds D kvec iovcnt (n + m) i 0 r = c.rounds D kvec iovcnt m (i + n) 0 r := by
  induction n generalizing i with
  | zero => rw [Nat.zero_add, Nat.add_zero]
  | succ n ih =>
    have h0 : c.skip (kvec (i + 0)) = true := h 0 (Nat.succ_pos n)
    have hlt : i + 0 < iovcnt := by omega
    rw [Nat.add_right_comm, Loop.rounds, if_pos h0, decide_eq_true hlt, Bool.and_true,
      ih (fun j hj => ?_) (by omega), Nat.add_right_comm i 1 n, Nat.add_assoc]
    have := h (j + 1) (by omega)
    rwa [Nat.add_right_comm, Nat.add_assoc]

/-- Once `kvec` has been advanced, the last round uses an iovec behind the array. So all rounds
before the last leave their iovec out. -/
theorem skip_of_inside (hio : ∀ x v, ∃ x', c.io D x v = some (v.len, x'))
    (hcnt : iovcnt = i + n + 1) (h : (c.rounds D kvec iovcnt (n + 1) i k r).inside = true) :
    k = 0 ∧ r.inside = true ∧ ∀ j < n, c.skip (kvec (i + j)) = true := by
  induction n generalizing i k r with
  | zero =>
    obtain ⟨x', hx'⟩ := hio r.x (kvec (i + k))
    simp only [Loop.rounds, hx', ite_self, apply_ite Run.inside, Bool.and_eq_true,
      decide_eq_true_eq] at h
    exact ⟨by omega, h.1, nofun⟩
  | succ n ih =>
    obtain ⟨x', hx'⟩ := hio r.x (kvec (i + k))
    rw [Loop.rounds] at h
    simp only [hx'] at h
    split at h
    next hskip =>
      obtain ⟨rfl, hin, hrest⟩ := ih (by omega) h
      refine ⟨rfl, (Bool.and_eq_true _ _ ▸ hin).1, ?_⟩
      rintro (_ | j) hj
      · exact hskip
      · have := hrest j (by omega)
        rwa [Nat.add_right_comm, Nat.add_assoc] at this
    next => exact absurd (ih (by omega) h).1 (Nat.succ_ne_zero k)

theorem kvecs_of_lt {j : ℕ} (hj : j < pre.length) : kvecs (pre ++ [v]) junk j ∈ pre := by
  rw [kvecs, List.getElem?_append_left hj, List.getElem?_eq_getElem hj]
  exact List.getElem_mem hj

/-- One transfer, if all iovecs before the last are left out. -/
theorem run_concat (h : ∀ j < pre.length, c.skip (kvecs (pre ++ [v]) junk j) = true) :
    c.run D x (pre ++ [v]) junk = if c.skip v then ⟨x, some 0, true⟩ else
      (c.io D x v).elim ⟨x, none, true⟩ fun y => ⟨y.2, some y.1, true⟩ := by
  have hlast : kvecs (pre ++ [v]) junk pre.length = v := by simp [kvecs]
  have hlen : (pre ++ [v]).length = pre.length + 1 := by simp
  rw [Loop.run, hlen, rounds_skip (by simpa using h) (by omega), Nat.zero_add]
  simp only [Loop.rounds, Nat.add_zero, hlast, Nat.lt_succ_self, decide_true, Bool.and_true]
  cases hv : c.io D x v <;> simp

theorem total_eq_zero : total iovs = 0 ↔ ∀ v ∈ iovs, v.len = 0 := by
  induction iovs with
  | nil => simp [total]
  | cons v iovs ih => simpa [total] using fun _ => ih

theorem total_concat : total (pre ++ [v]) = total pre + v.len := by simp [total]

theorem onlyLast_concat :
    OnlyLast good (pre ++ [v]) ↔ total pre = 0 ∧ (v.len = 0 ∨ good v) := by
  simp [OnlyLast, total_eq_zero]

/-! ### The last iovec -/

theorem skip_of_len (h : v.len = 0) : c.skip v = true := by
  cases c <;> simp [Loop.skip, h]

theorem scatter_concat {mem : Mem} {bs : List UInt8} (hpre : total pre = 0)
    (hle : bs.length ≤ v.len) : scatter mem (pre ++ [v]) bs = store mem v.base bs := by
  induction pre with
  | nil => simp [scatter, List.take_of_length_le hle]
  | cons w pre ih =>
    obtain ⟨hw, hpre⟩ : w.len = 0 ∧ total pre = 0 := by simpa [total] using hpre
    have hnil : store mem w.base [] = mem := by
      funext a
      simp [store]
    simpa [scatter, hw, hnil] using ih hpre

theorem once_concat (hpre : total pre = 0) (h0 : v.len ≠ 0) (hg : c.Good v) :
    c.once D x (pre ++ [v]) = c.io D x v := by
  have htot : total (pre ++ [v]) = v.len := by rw [total_concat, hpre, Nat.zero_add]
  have hflat : pre.flatMap (load x.2) = [] := List.flatMap_eq_nil_iff.2 fun w hw => by
    simp [load, total_eq_zero.1 hpre w hw]
  rw [Loop.once, Loop.io, htot, if_neg h0]
  split_ifs with hc hw
  · refine Option.map_congr fun r hr => ?_
    rw [scatter_concat hpre (D.length_le hr)]
  · cases hw.symm ▸ hg
  · rw [List.flatMap_append, hflat]
    simp

/-- A file that is never at its end, and takes everything. -/
def endless : Ops Unit where
  read _ n := some (List.replicate n 0, ())
  write _ _ := some ()
  length_le h := by simp [← Option.some.inj h]

theorem once_endless {m : ℕ} {x x' : Unit × Mem} (h0 : total iovs ≠ 0)
    (h : some (m, x') = c.once endless x iovs) : m = total iovs ∧ c ≠ .ext4Vwritev false := by
  rw [Loop.once, if_neg h0] at h
  split_ifs at h with hc hw
  · rw [(Prod.mk.inj (Option.some.inj h)).1, hc]
    exact ⟨List.length_replicate, nofun⟩
  · exact ⟨(Prod.mk.inj (Option.some.inj h)).1, hw⟩

/-- **Vectored I/O is scalar I/O if and only if** all iovecs but the last are empty, and the last is
empty, or its address is not null (in a regular file: or the file was opened for writing). -/
theorem vectored_iff (c : Loop) (iovs : List Iovec) :
    (∀ (φ : Type) (D : Ops φ) x junk, (c.run D x iovs junk).Equals (c.once D x iovs)) ↔
      OnlyLast c.Good iovs := by
  obtain rfl | ⟨pre, v, rfl⟩ := iovs.eq_nil_or_concat'
  · exact ⟨fun _ => ⟨nofun, nofun⟩, fun _ φ D x junk => ⟨rfl, rfl⟩⟩
  rw [onlyLast_concat]
  constructor
  · intro h
    obtain ⟨hcnt, hin⟩ := h Unit endless ((), fun _ => 0) fun _ => ⟨0, 0⟩
    have hio : ∀ x v, ∃ x', c.io endless x v = some (v.len, x') := by
      intro x v
      rw [Loop.io]
      split_ifs <;> simp [endless]
    have hlen : (pre ++ [v]).length = pre.length + 1 := by simp
    rw [Loop.run, hlen] at hin
    have hskip := (skip_of_inside hio (by omega) hin).2.2
    simp only [Nat.zero_add] at hskip
    obtain ⟨x', hx'⟩ := hio ((), fun _ => 0) v
    by_cases h0 : total (pre ++ [v]) = 0
    · rw [total_concat] at h0
      exact ⟨by omega, .inl (by omega)⟩
    rw [run_concat hskip, hx'] at hcnt
    cases hs : c.skip v <;> rw [hs] at hcnt <;> obtain ⟨hm, hc⟩ := once_endless h0 hcnt
    · rw [total_concat] at hm
      refine ⟨by omega, .inr ?_⟩
      rcases c with _ | _ | _ | _ <;> simp_all [Loop.skip, Loop.Good]
    · exact absurd hm.symm h0
  · rintro ⟨hpre, hv⟩ φ D x junk
    rw [run_concat fun j hj => skip_of_len (total_eq_zero.1 hpre _ (kvecs_of_lt hj))]
    by_cases h0 : v.len = 0
    · rw [if_pos (skip_of_len h0), Loop.once, if_pos (by rw [total_concat, hpre, h0])]
      exact ⟨rfl, rfl⟩
    · have hg := hv.resolve_left h0
      have hns : c.skip v = false := by cases c <;> simp_all [Loop.skip, Loop.Good]
      rw [hns, once_concat hpre h0 hg]
      cases c.io D x v <;> exact ⟨rfl, rfl⟩

/-- Of two iovecs of a byte the second is not used, but the one behind the array; and a file that is
only open for reading is written. -/
theorem second_left_out :
    (∀ c : Loop, let r := c.run endless ((), fun _ => 0) [⟨8, 1⟩, ⟨16, 1⟩] fun _ => ⟨0, 0⟩
      r.cnt = some 1 ∧ r.inside = false) ∧
    ((Loop.ext4Vwritev false).run endless ((), fun _ => 0) [⟨8, 1⟩] fun _ => ⟨0, 0⟩).cnt = some 1 ∧
    (Loop.ext4Vwritev false).once endless ((), fun _ => 0) [⟨8, 1⟩] = none := by
  refine ⟨fun c => ?_, rfl, rfl⟩
  cases c <;> exact ⟨rfl, rfl⟩

end XVapor.Vectored
