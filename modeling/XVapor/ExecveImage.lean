import XVapor.Execve
import XVapor.SpaceShape
import XVapor.UserCopy

/-!
# The New Image of `execve`

What the first part of `execve` builds: a page table whose pages have all been taken since the
call began, and which holds the trampolines and user memory up to its size. Whatever the file
contains, and wherever the first part stops, the table is in this state.

The only other thing that changes are the numbers of free entries of `ftable` and
`ext4_fpool`. **The entry of `ftable` is not given back.**
-/

namespace XVapor.Vm

open Files (ProcId)
open Space

variable {k k' k'' : Kernel} {m : Mem} {S S' : Space} {sz : ℕ}

/-! ### Entries of the tables of files -/

/-- Files have been opened and closed, and entries of `ftable` taken. -/
structure Opens (k k' : Kernel) : Prop where
  same : k' = { k with nfile := k'.nfile, npool := k'.npool }
  nfile : k'.nfile ≤ k.nfile

theorem Opens.refl (k : Kernel) : Opens k k := ⟨rfl, Nat.le_refl _⟩

section

variable (h : Opens k k')
include h

theorem Opens.trans (h' : Opens k' k'') : Opens k k'' :=
  ⟨h'.same.trans (by rw [h.same]), h'.nfile.trans h.nfile⟩

theorem Opens.mem : k'.mem = k.mem := by rw [h.same]

theorem Opens.proc : k'.proc = k.proc := by rw [h.same]

theorem Opens.tables : k'.tables = k.tables := by rw [h.same]

end

/-- An entry of `ftable` is taken. -/
theorem filealloc_ok (h : filealloc k = some k') : Opens k k' ∧ k'.nfile < k.nfile := by
  rw [filealloc, Option.ite_none_left_eq_some] at h
  obtain ⟨hpos, h⟩ := h
  cases h
  refine ⟨⟨rfl, Nat.sub_le _ _⟩, ?_⟩
  dsimp only
  omega

variable {path : String} {f : Option (List UInt8)}

theorem vfopen_ok (h : vfopen k path = some (f, k')) : Opens k k' := by
  rw [vfopen] at h
  split at h
  · cases h
    exact .refl _
  · rw [Option.ite_none_left_eq_some] at h
    obtain ⟨-, rfl⟩ := Prod.mk.inj (Option.some.inj h.2)
    exact ⟨rfl, Nat.le_refl _⟩
  · cases h

theorem vfclose_ok (k : Kernel) (f : Option (List UInt8)) : Opens k (vfclose k f) := by
  cases f with
  | none => exact .refl k
  | some bytes => exact ⟨rfl, Nat.le_refl _⟩

/-! ### The new page table -/

/-- Memory that can be in no more use than there is. -/
structure Roomy (m : Mem) : Prop where
  room : m.Room
  total : m.total ≤ 131072
  live : ∀ n, 0 ≤ m.live n

/-- A page table of the size `sz` that has been built since memory was `m`, with pages that
are its own. -/
structure Built (m : Mem) (S : Space) (sz : ℕ) : Prop where
  le : m.Le S.mem
  root : S.tbl.root = m.next
  refs : ∀ n, S.tbl.refs n = S.mem.live n - m.live n
  shape : Shape S.tbl sz [] []

section

variable (h : Built m S sz)
include h

/-- The table is changed, and keeps a shape. -/
theorem Built.edit {sz' : ℕ} (he : Edit S S' 0)
    (hs : Shape S'.tbl sz' [] []) : Built m S' sz' := by
  refine ⟨h.le.trans he.mem, he.root.trans h.root, fun n => ?_, hs⟩
  have hex := he.excess n
  simp only [excess, Pi.zero_apply] at hex
  have hn := h.refs n
  omega

/-- Bytes are stored in user memory. -/
theorem Built.writes (hw : S.Writes S') : Built m S' sz := by
  refine ⟨h.le.trans hw.le, ?_, fun n => ?_, ?_⟩
  · rw [hw.tbl, h.root]
  · rw [hw.tbl, hw.live, h.refs]
  · rw [hw.tbl]
    exact h.shape

theorem Built.pages_le (hm : Roomy m) : pages sz ≤ 131072 := by
  have hle := h.shape.pages_le (h.le.room hm.room) fun n => by
    have hn := h.refs n
    have hpos := hm.live n
    omega
  rw [h.le.total] at hle
  exact hle.trans hm.total

theorem Built.slot_eq_none (hm : Roomy m) {idx : ℕ} (hidx : idx < 2 ^ 19) :
    S.tbl.pte (slot idx) = none := by
  refine Option.eq_none_iff_forall_ne_some.2 fun e he => ?_
  have hsz := h.pages_le hm
  have hslot := slot_eq hidx
  obtain hi | hi | ⟨t, ht, -⟩ | hi | ⟨⟨w, hw, -⟩, -⟩ := h.shape.only _ e he
  · rw [vpn_tramp] at hi
    omega
  · rw [vpn_sig] at hi
    omega
  · cases ht
  · omega
  · cases hw

end

/-- A new table is the image of an empty program. -/
theorem procPagetable_built {T : Table} {m' : Mem} (h : procPagetable m = .ok (some T, m')) :
    Built m ⟨m', T⟩ 0 := by
  obtain ⟨hle, ⟨hnone, -⟩ | ⟨T', hT', hroot, hwf, hpte, -, -, hrefs⟩⟩ := procPagetable_ok h
  · cases hnone
  · cases hT'
    exact ⟨hle, hroot, hrefs, Shape.bare hwf hpte⟩

/-! ### Loading -/

variable {bytes : List UInt8} {offset len base : ℕ} {b : Bool}

theorem floadsegLoop_writes {rounds v i : ℕ}
    (h : floadsegLoop bytes offset len rounds v i S = .ok (b, S')) : S.Writes S' := by
  induction rounds generalizing v i S with
  | zero =>
    cases h
    exact .refl _
  | succ rounds ih =>
    rw [floadsegLoop] at h
    split at h
    · cases h
    rename_i f hf
    obtain ⟨e, he, -, rfl⟩ := walkaddr_some hf
    dsimp only at h
    split at h
    · exact (Writes.write he _ _).trans (ih h)
    cases h
    exact Writes.write he _ _

theorem floadseg_writes {va : ℕ} (h : floadseg S bytes va offset len = .ok (b, S')) : S.Writes S' := by
  rw [floadseg] at h
  split at h
  · cases h
  · exact floadsegLoop_writes h

variable {l l' : Load}

/-- A segment adds user memory. -/
theorem loadSegment_built {ph : Proghdr}
    (hl : Built m l.S l.sz) (h : loadSegment base bytes ph l = .ok (b, l')) :
    Built m l'.S l'.sz := by
  rw [loadSegment] at h
  split at h
  · cases h
    exact hl
  split at h
  · cases h
    exact hl
  obtain ⟨⟨r, S⟩, h1, h⟩ := bind_eq_ok.1 h
  obtain ⟨hedit, hshape⟩ := hl.shape.uvmalloc h1
  dsimp only at h
  split at h
  next hr =>
    cases h
    rw [if_pos hr] at hshape
    exact hl.edit hedit hshape
  next hr =>
    obtain ⟨⟨c, S'⟩, h2, h⟩ := bind_eq_ok.1 h
    cases h
    rw [if_neg hr] at hshape
    exact (hl.edit hedit hshape).writes (floadseg_writes h2)

theorem loadSegments_built {n : ℕ} {off : ℤ}
    (hl : Built m l.S l.sz) (h : loadSegments base bytes n off l = .ok (b, l')) :
    Built m l'.S l'.sz := by
  induction n generalizing off l with
  | zero =>
    cases h
    exact hl
  | succ n ih =>
    rw [loadSegments] at h
    dsimp only at h
    split at h
    · cases h
      exact hl
    split at h
    · exact ih (by exact hl) h
    obtain ⟨⟨c, l1⟩, h1, h⟩ := bind_eq_ok.1 h
    have hl1 : Built m l1.S l1.sz := loadSegment_built (by exact hl) h1
    cases c with
    | true => exact ih hl1 h
    | false =>
      cases h
      exact hl1

/-- The interpreter is loaded into the same image. -/
theorem loadInterp_ok (h : loadInterp k l = .ok (b, k', l')) :
    Opens k k' ∧ (Built m l.S l.sz → Built m l'.S l'.sz) := by
  rw [loadInterp] at h
  split at h
  · obtain ⟨-, rfl, rfl⟩ := by simpa using Except.ok.inj h
    exact ⟨.refl _, id⟩
  rename_i k1 h1
  have ho1 := (filealloc_ok h1).1
  split at h
  · obtain ⟨-, rfl, rfl⟩ := by simpa using Except.ok.inj h
    exact ⟨ho1, id⟩
  rename_i f k2 h2
  have ho2 := ho1.trans (vfopen_ok h2)
  split at h
  · obtain ⟨-, rfl, rfl⟩ := by simpa using Except.ok.inj h
    exact ⟨ho2, id⟩
  rename_i bytes elf hf
  split at h
  · obtain ⟨-, rfl, rfl⟩ := by simpa using Except.ok.inj h
    exact ⟨ho2.trans (vfclose_ok _ _), id⟩
  obtain ⟨⟨c, l1⟩, h3, h⟩ := bind_eq_ok.1 h
  obtain ⟨-, rfl, rfl⟩ := by simpa using Except.ok.inj h
  refine ⟨?_, fun hl => ?_⟩
  swap
  · have hl1 := loadSegments_built hl h3
    exact hl1
  split
  · exact ho2.trans (vfclose_ok _ _)
  · exact ho2

/-! ### The stack -/

theorem push_writes (S : Space) (sp : ℕ) (d : List UInt8) : S.Writes (push S sp d).2.1 :=
  copyout_writes _ _ _

theorem pushWords_writes (stackbase : ℕ) (S : Space) (sp : ℕ) (ws : List ℕ) :
    S.Writes (pushWords stackbase S sp ws).2.1 := by
  rw [pushWords]
  split
  · exact .refl S
  · exact push_writes _ _ _

theorem pushStrings_writes (limit stackbase : ℕ) (ss : List (List UInt8)) (S : Space) (sp : ℕ)
    (ptrs : List ℕ) : S.Writes (pushStrings limit stackbase ss S sp ptrs).2.1 := by
  induction ss generalizing S sp ptrs with
  | nil => exact .refl S
  | cons s ss ih =>
    rw [pushStrings]
    split
    · exact .refl S
    dsimp only
    split
    · exact .refl S
    generalize u64 (sp - (s.length + 1)) - u64 (sp - (s.length + 1)) % 16 = sp'
    have hw := copyout_writes S sp' (s ++ [0])
    generalize copyout S sp' (s ++ [0]) = r at hw ⊢
    obtain ⟨_ | _, S'⟩ := r
    · exact hw
    · exact hw.trans (ih _ _ _)

/-- The initial stack is stored in user memory. -/
theorem fillStack_writes (S : Space) (top stackbase : ℕ) (aux : ℕ → List ℕ)
    (argv envp : List (List UInt8)) : S.Writes (fillStack S top stackbase aux argv envp).2.1 := by
  rw [fillStack]
  have h1 := pushStrings_writes MAXENV stackbase envp S (u64 (top - 16)) []
  generalize pushStrings MAXENV stackbase envp S (u64 (top - 16)) [] = r at h1 ⊢
  obtain ⟨_ | _, S1, sp1, estack⟩ := r
  · exact h1
  have h2 := pushStrings_writes MAXARG stackbase argv S1 sp1 []
  dsimp only
  generalize pushStrings MAXARG stackbase argv S1 sp1 [] = r at h2 ⊢
  obtain ⟨_ | _, S2, sp2, ustack⟩ := r
  · exact h1.trans h2
  have h3 := push_writes S2 (u64 (sp2 - 16)) ((aux (u64 (sp2 - 16))).flatMap wordBytes)
  dsimp only
  generalize push S2 (u64 (sp2 - 16)) ((aux (u64 (sp2 - 16))).flatMap wordBytes) = r at h3 ⊢
  obtain ⟨_ | _, S3, sp3⟩ := r
  · exact (h1.trans h2).trans h3
  have h4 := pushWords_writes stackbase S3 sp3 (estack ++ [0])
  dsimp only
  generalize pushWords stackbase S3 sp3 (estack ++ [0]) = r at h4 ⊢
  obtain ⟨_ | _, S4, sp4⟩ := r
  · exact ((h1.trans h2).trans h3).trans h4
  · exact (((h1.trans h2).trans h3).trans h4).trans (pushWords_writes _ _ _ _)

/-! ### The outcomes -/

/-- What every outcome of the first part has in common. -/
def Prep.Meets (r : Prep) (fail : Kernel → Prop) (image : Kernel → Space → ℕ → Prop) : Prop :=
  match r with
  | .fail k => fail k
  | .bad k S sz => image k S sz
  | .ready k img => image k img.S img.sz

variable {argv envp : List (List UInt8)} {r : Prep}

/-- The stack is added to the image. -/
theorem prepareStack_ok {aux : ℕ → List ℕ} (h : prepareStack k l aux argv envp = .ok r) :
    r.Meets (fun _ => False) fun k' S sz =>
      k' = k ∧ (Roomy m → Built m l.S l.sz → Built m S sz) := by
  obtain ⟨⟨sz, S1⟩, h1, h⟩ := bind_eq_ok.1 h
  have hbuilt : Built m l.S l.sz →
      Built m S1 (if sz = 0 then pages l.sz * PGSIZE else sz) := by
    intro hl
    have hround : Shape l.S.tbl (pages l.sz * PGSIZE) [] [] := hl.shape.of_pages (pages_mul _)
    obtain ⟨hedit, hshape⟩ := hround.uvmalloc h1
    exact hl.edit hedit hshape
  dsimp only at h
  split at h
  · rename_i hsz
    cases h
    rw [if_pos hsz] at hbuilt
    exact ⟨rfl, fun _ => hbuilt⟩
  rename_i hsz
  rw [if_neg hsz] at hbuilt
  obtain ⟨S2, h2, h⟩ := bind_eq_ok.1 h
  have htop := uvmalloc_size h1 hsz (by omega)
  have hclear : Roomy m → Built m l.S l.sz → Built m S2 sz := by
    intro hm hl
    have hb := hbuilt hl
    obtain ⟨hedit, hshape⟩ := hb.shape.uvmclear h2 (by
      rw [htop, Nat.add_sub_cancel, vpn_mul, ← Nat.add_mul, pages_mul]
      omega) (hb.pages_le hm) (by simp)
    exact hb.edit hedit hshape
  have hw := fillStack_writes S2 sz (sz - 63 * PGSIZE) aux argv envp
  generalize fillStack S2 sz (sz - 63 * PGSIZE) aux argv envp = x at h hw
  obtain ⟨_ | _, S3, sp⟩ := x
  all_goals
    cases h
    exact ⟨rfl, fun hm hl => (hclear hm hl).writes hw⟩

theorem Prep.Meets.mono {fail fail' : Kernel → Prop}
    {image image' : Kernel → Space → ℕ → Prop} (h : r.Meets fail image)
    (hf : ∀ k, fail k → fail' k) (hi : ∀ k S sz, image k S sz → image' k S sz) :
    r.Meets fail' image' := by
  cases r with
  | fail k => exact hf k h
  | bad k S sz => exact hi k S sz h
  | ready k img => exact hi k img.S img.sz h

theorem prepareImage_ok {elf : Elfhdr} (h : prepareImage k f bytes elf S argv envp = .ok r) :
    r.Meets (fun _ => False) fun k' S' sz =>
      Opens k k' ∧ (Roomy m → Built m S 0 → Built m S' sz) := by
  obtain ⟨⟨loaded, l⟩, h1, h⟩ := bind_eq_ok.1 h
  have hl : Built m S 0 → Built m l.S l.sz := fun hS => loadSegments_built (by exact hS) h1
  have hclose := vfclose_ok k f
  dsimp only at h
  split at h
  · cases h
    exact ⟨hclose, fun _ => hl⟩
  split at h
  next =>
    obtain ⟨⟨loaded', k1, l'⟩, h2, h⟩ := bind_eq_ok.1 h
    obtain ⟨hopens, hl'⟩ := loadInterp_ok (m := m) h2
    split at h
    · cases h
      exact ⟨hclose.trans hopens, fun _ hS => hl' (hl hS)⟩
    refine (prepareStack_ok (m := m) h).mono (fun _ => id) fun k' S' sz hk' => ?_
    rw [hk'.1]
    exact ⟨hclose.trans hopens, fun hm hS => hk'.2 hm (hl' (hl hS))⟩
  next =>
    refine (prepareStack_ok (m := m) h).mono (fun _ => id) fun k' S' sz hk' => ?_
    rw [hk'.1]
    exact ⟨hclose, fun hm hS => hk'.2 hm (hl hS)⟩

/-- **The outcomes of the first part.** It fails without a page table, and memory is as it was
but for pages that were taken and given back; or it has a page table of its own. -/
theorem prepare_ok (h : prepare k path argv envp = .ok r) :
    r.Meets
      (fun k' => k' = k ∧ k.nfile = 0 ∨ k'.nfile < k.nfile ∧
        ∃ k1, Opens k k1 ∧ k' = { k1 with mem := k'.mem } ∧ k.mem.Le k'.mem ∧
          ∀ n, k'.mem.live n = k.mem.live n)
      fun k' S sz => k'.nfile < k.nfile ∧ Opens k k' ∧ (Roomy k.mem → Built k.mem S sz) := by
  rw [prepare] at h
  split at h
  next hnone =>
    cases h
    refine .inl ⟨rfl, ?_⟩
    rw [filealloc] at hnone
    split at hnone
    next hzero => exact hzero
    next => cases hnone
  next k1 h1 =>
    obtain ⟨ho1, hlt⟩ := filealloc_ok h1
    -- a failure that leaves memory alone
    have hfail : ∀ k2, Opens k1 k2 → Prep.Meets (.fail k2)
        (fun k' => k' = k ∧ k.nfile = 0 ∨ k'.nfile < k.nfile ∧
          ∃ k1, Opens k k1 ∧ k' = { k1 with mem := k'.mem } ∧ k.mem.Le k'.mem ∧
            ∀ n, k'.mem.live n = k.mem.live n)
        fun k' S sz => k'.nfile < k.nfile ∧ Opens k k' ∧ (Roomy k.mem → Built k.mem S sz) := by
      intro k2 ho2
      have ho := ho1.trans ho2
      refine .inr ⟨ho2.nfile.trans_lt hlt, k2, ho, rfl, ?_, ?_⟩
      · rw [ho.mem]
        exact .refl _
      · rw [ho.mem]
        exact fun _ => rfl
    split at h
    · cases h
      exact hfail k1 (.refl _)
    rename_i f k2 h2
    have ho2 := vfopen_ok h2
    split at h
    · cases h
      exact hfail _ (ho2.trans (vfclose_ok _ _))
    rename_i bytes elf hf
    split at h
    · cases h
      exact hfail _ (ho2.trans (vfclose_ok _ _))
    obtain ⟨⟨T, m⟩, h3, h⟩ := bind_eq_ok.1 h
    rw [ho2.mem, ho1.mem] at h3
    cases T with
    | none =>
      cases h
      obtain ⟨hle, ⟨-, -, hlive⟩ | ⟨T', hT', -⟩⟩ := procPagetable_ok h3
      · have ho := (ho1.trans ho2).trans (vfclose_ok k2 f)
        refine .inr ⟨?_, vfclose k2 f, ho, ?_, ?_, ?_⟩
        · cases f with
          | none | some b => exact ho2.nfile.trans_lt hlt
        · cases f with
          | none => rfl
          | some b => rfl
        · cases f with
          | none => exact hle
          | some b => exact hle
        · cases f with
          | none | some b => exact hlive
      · cases hT'
    | some T =>
      refine (prepareImage_ok (m := k.mem) h).mono (fun _ => False.elim)
        fun k' S sz ⟨ho, hb⟩ => ⟨ho.nfile.trans_lt (ho2.nfile.trans_lt hlt),
          (ho1.trans ho2).trans ho, fun hm => hb hm (procPagetable_built h3)⟩

end XVapor.Vm
