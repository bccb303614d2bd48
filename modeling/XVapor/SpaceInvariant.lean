import XVapor.SpaceShape
import XVapor.UserCopy
import XVapor.Tally

/-!
# The Invariant of the Address Spaces

Memory is balanced: **a page has an owner by the allocator exactly as often as the page tables
of the processes refer to it**. With at most one owner by the allocator, no two tables share a
page, no page of a table has been freed, and a page that has not been freed is in a table.

A call changes the address space of one process. `Apart p` says that the others are as they
were, and `Core.update` that the balance is kept if the references of that process change as
the owners do.
-/

namespace XVapor.Vm

open Files (ProcId ProcState)
open Space

variable {k k' k'' : Kernel} {p q : ProcId} {P : Proc} {S : Space} {T : Table}

/-! ### Tables of processes -/

/-- The page table of a process. -/
def Kernel.table (k : Kernel) (p : ProcId) : Option Table :=
  (k.proc p).pagetable.bind k.tables.lookup

theorem Kernel.space_eq_ok : k.space p = .ok S ↔ ∃ T, k.table p = some T ∧ S = ⟨k.mem, T⟩ := by
  rw [Kernel.space, Kernel.table]
  rcases hr : (k.proc p).pagetable with _ | r
  · simp
  cases hT : k.tables.lookup r with
  | none => simp [hT]
  | some T => simp [hT, eq_comm]

section

variable {α : Type} {f : Space → Except Panic α} {x : α}

theorem Kernel.bind_space (hT : k.table p = some T) : k.space p >>= f = f ⟨k.mem, T⟩ := by
  rw [Kernel.space_eq_ok.2 ⟨T, hT, rfl⟩]
  rfl

theorem Kernel.bind_space_ok :
    k.space p >>= f = .ok x ↔ ∃ T, k.table p = some T ∧ f ⟨k.mem, T⟩ = .ok x := by
  rw [bind_eq_ok]
  constructor
  · rintro ⟨S, hS, h⟩
    obtain ⟨T, hT, rfl⟩ := Kernel.space_eq_ok.1 hS
    exact ⟨T, hT, h⟩
  · rintro ⟨T, hT, h⟩
    exact ⟨_, Kernel.space_eq_ok.2 ⟨T, hT, rfl⟩, h⟩

end

namespace Kernel

@[simp]
theorem setProc_self (k : Kernel) (p : ProcId) (P : Proc) : (k.setProc p P).proc p = P :=
  Function.update_self _ _ _

@[simp]
theorem setProc_ne (k : Kernel) (P : Proc) (h : q ≠ p) : (k.setProc p P).proc q = k.proc q :=
  Function.update_of_ne h _ _

@[simp]
theorem setProc_mem (k : Kernel) (p : ProcId) (P : Proc) : (k.setProc p P).mem = k.mem := rfl

@[simp]
theorem put_proc (k : Kernel) (S : Space) : (k.put S).proc = k.proc := rfl

@[simp]
theorem put_mem (k : Kernel) (S : Space) : (k.put S).mem = S.mem := rfl

theorem setProc_setProc (k : Kernel) (p : ProcId) (P P' : Proc) :
    (k.setProc p P).setProc p P' = k.setProc p P' := by
  simp only [setProc, Function.update_idem]

theorem setProc_table_self (k : Kernel) (p : ProcId) (P : Proc) :
    (k.setProc p P).table p = P.pagetable.bind k.tables.lookup := by
  rw [table, setProc_self]
  rfl

theorem setProc_table_ne (k : Kernel) (P : Proc) (h : q ≠ p) :
    (k.setProc p P).table q = k.table q := by
  rw [table, setProc_ne k P h]
  rfl

end Kernel

/-! ### Processes -/

/-- The threads of a process that runs. Their trap frames are at different pages. -/
structure Group (P : Proc) : Prop where
  exist : P.threads ≠ []
  ghosts : P.ghosts = 0
  count : P.threadCnt = P.threads.length
  nodup : (P.threads.map (·.tidx)).Nodup
  idx : ∀ t ∈ P.threads, t.tidx < P.threadIdx
  bound : P.threadIdx ≤ 2 ^ 19

theorem Group.eq_singleton {P : Proc} {t : Tcb} (h : Group P) (ht : t ∈ P.threads)
    (hcnt : P.threadCnt = 1) : P.threads = [t] := by
  have hlen := h.count
  obtain ⟨t', ht'⟩ := List.length_eq_one_iff.1 (show P.threads.length = 1 by omega)
  rw [ht'] at ht ⊢
  rw [List.mem_singleton.1 ht]

/-- The mappings of a process lie in the area for them. -/
structure Area (P : Proc) : Prop where
  vmas : ∀ w ∈ P.vmas, MMAP_END_ADDRESS ≤ w.start ∧ w.start ≤ w.stop ∧
    w.stop ≤ MMAP_MAX_ADDR_START
  max : P.maxVma ≤ MMAP_MAX_ADDR_START

/-- A process with its page table. -/
inductive Fits (P : Proc) : Option Table → Prop
  | unused : P.state = .unused → P.pagetable = none → P.sz = 0 → Fits P none
  | used {T : Table} : P.state = .used → Shape T P.sz P.threads P.vmas → Group P → Area P →
      Fits P (some T)
  | zombie {T : Table} : P.state = .zombie → Shape T P.sz [] [] → P.threads = [] →
      P.ghosts = 0 → Fits P (some T)

variable {o : Option Table}

theorem Fits.parent (h : Fits P o) (parent : Option ProcId) :
    Fits { P with parent } o := by
  cases h with
  | unused hs hp hz => exact .unused hs hp hz
  | used hs hT hg ha =>
    exact .used hs hT ⟨hg.exist, hg.ghosts, hg.count, hg.nodup, hg.idx, hg.bound⟩
      ⟨ha.vmas, ha.max⟩
  | zombie hs hT ht hg => exact .zombie hs hT ht hg

theorem Fits.of_used (h : Fits P o) (hs : P.state = .used) :
    ∃ T, o = some T ∧ Shape T P.sz P.threads P.vmas ∧ Group P ∧ Area P := by
  cases h with
  | unused hs' | zombie hs' => simp [hs] at hs'
  | used _ hT hg ha => exact ⟨_, rfl, hT, hg, ha⟩

theorem Fits.of_unused (h : Fits P o) (hs : P.state = .unused) :
    o = none ∧ P.pagetable = none ∧ P.sz = 0 := by
  cases h with
  | unused _ hp hz => exact ⟨rfl, hp, hz⟩
  | used hs' | zombie hs' => simp [hs] at hs'

theorem Fits.of_zombie (h : Fits P o) (hs : P.state = .zombie) :
    ∃ T, o = some T ∧ Shape T P.sz [] [] ∧ P.threads = [] ∧ P.ghosts = 0 := by
  cases h with
  | unused hs' | used hs' => simp [hs] at hs'
  | zombie _ hT ht hg => exact ⟨_, rfl, hT, ht, hg⟩

/-! ### The balance -/

/-- The references of a table, if there is one. -/
def owned (o : Option Table) (n : ℕ) : ℤ := o.elim 0 (·.refs n)

@[simp]
theorem owned_none (n : ℕ) : owned none n = 0 := rfl

@[simp]
theorem owned_some (T : Table) (n : ℕ) : owned (some T) n = T.refs n := rfl

theorem owned_nonneg (o : Option Table) (n : ℕ) : 0 ≤ owned o n := by
  cases o with
  | none => exact Int.le_refl 0
  | some T => exact T.refs_nonneg n

/-- **The balance.** Every page has as many owners as there are references to it, and no two
processes have the same page table. -/
structure Core (k : Kernel) : Prop where
  room : k.mem.Room
  total : k.mem.total ≤ 131072
  key : ∀ p r, (k.proc p).pagetable = some r → ∃ T, k.table p = some T ∧ T.root = r
  inj : ∀ p q r, (k.proc p).pagetable = some r → (k.proc q).pagetable = some r → p = q
  balance : ∀ n, k.mem.live n = ∑ p, owned (k.table p) n

section

variable (h : Core k)
include h

/-- A process names its table by the root. -/
theorem Core.root (hT : k.table p = some T) :
    (k.proc p).pagetable = some T.root := by
  cases hr : (k.proc p).pagetable with
  | none =>
    rw [Kernel.table, hr] at hT
    cases hT
  | some r =>
    obtain ⟨T', hT', rfl⟩ := h.key p r hr
    rw [Option.some.inj (hT'.symm.trans hT)]

section

variable (hT : k.table p = some T)
include hT

/-- The pages of a table are allocated, and used once. -/
theorem Core.refs_le (n : ℕ) :
    T.refs n ≤ k.mem.live n := by
  have hle := Finset.single_le_sum (f := fun q => owned (k.table q) n)
    (fun q _ => owned_nonneg (k.table q) n) (Finset.mem_univ p)
  rwa [← h.balance, hT, owned_some] at hle

/-- A page of a table is not freed. -/
theorem Core.page_lt {n : ℕ} (hn : 1 ≤ T.refs n) :
    n < k.mem.next ∧ n ∉ k.mem.freed :=
  Mem.one_le_live (hn.trans (h.refs_le hT n))

theorem Core.simple : T.Simple :=
  fun _ _ _ _ _ hv hv' he he' => Table.pte_inj (h.refs_le hT) hv hv' he he'

theorem Core.pages_le {sz : ℕ} {ths : List Tcb}
    {vmas : List Vma} (hs : Shape T sz ths vmas) : pages sz ≤ 131072 :=
  (hs.pages_le h.room (h.refs_le hT)).trans h.total

end

end

/-! ### Changes of one process -/

/-- Only the process `p` has changed, apart from the parents. -/
structure Apart (p : ProcId) (k k' : Kernel) : Prop where
  le : k.mem.Le k'.mem
  proc : ∀ q ≠ p, k'.proc q = { k.proc q with parent := (k'.proc q).parent }
  table : ∀ q ≠ p, k'.table q = k.table q

theorem Apart.refl (p : ProcId) (k : Kernel) : Apart p k k :=
  ⟨.refl _, fun _ _ => rfl, fun _ _ => rfl⟩

theorem Apart.put {S : Space} (hle : k.mem.Le S.mem)
    (hroot : ∀ q ≠ p, (k.proc q).pagetable ≠ some S.tbl.root) : Apart p k (k.put S) := by
  refine ⟨hle, fun _ _ => rfl, fun q hq => ?_⟩
  rw [Kernel.table, Kernel.put_proc, Kernel.table]
  rcases hr : (k.proc q).pagetable with _ | r
  · rfl
  refine AList.lookup_insert_ne ?_
  rintro rfl
  exact hroot q hq hr

theorem Apart.trans (h : Apart p k k') (h' : Apart p k' k'') : Apart p k k'' := by
  refine ⟨h.le.trans h'.le, fun q hq => ?_, fun q hq => (h'.table q hq).trans (h.table q hq)⟩
  rw [h'.proc q hq, h.proc q hq]

theorem Apart.setProc (P : Proc) : Apart p k (k.setProc p P) := by
  refine ⟨.refl _, fun q hq => ?_, fun q hq => Kernel.setProc_table_ne k P hq⟩
  rw [Kernel.setProc_ne k P hq]

theorem Apart.pagetable (h : Apart p k k') (hq : q ≠ p) :
    (k'.proc q).pagetable = (k.proc q).pagetable := by rw [h.proc q hq]

section

variable (h : Core k)
include h

/-- **The balance after a change of one process**, whose references change as the owners
do. -/
theorem Core.update (ha : Apart p k k')
    (hkey : ∀ r, (k'.proc p).pagetable = some r → ∃ T, k'.table p = some T ∧ T.root = r)
    (hinj : ∀ q r, q ≠ p → (k'.proc p).pagetable = some r → (k.proc q).pagetable ≠ some r)
    (hlive : ∀ n, k'.mem.live n = k.mem.live n - owned (k.table p) n + owned (k'.table p) n) :
    Core k' := by
  refine ⟨ha.le.room h.room, ha.le.total ▸ h.total, fun q r hr => ?_, fun q q' r hq hq' => ?_,
    fun n => ?_⟩
  · by_cases hqp : q = p
    · rw [hqp] at hr ⊢
      exact hkey r hr
    · rw [ha.table q hqp]
      exact h.key q r ((ha.pagetable hqp).symm.trans hr)
  · by_cases hqp : q = p <;> by_cases hqp' : q' = p
    · rw [hqp, hqp']
    · rw [hqp] at hq
      rw [ha.pagetable hqp'] at hq'
      exact absurd hq' (hinj q' r hqp' hq)
    · rw [hqp'] at hq'
      rw [ha.pagetable hqp] at hq
      exact absurd hq (hinj q r hqp hq')
    · rw [ha.pagetable hqp] at hq
      rw [ha.pagetable hqp'] at hq'
      exact h.inj q q' r hq hq'
  · have hupdate : k'.table = Function.update k.table p (k'.table p) := by
      funext q
      by_cases hqp : q = p
      · rw [hqp, Function.update_self]
      · rw [Function.update_of_ne hqp, ha.table q hqp]
    rw [hlive, h.balance, hupdate, sum_comp_update k.table p _ (owned · n), Function.update_self]

/-- A process without a page table owns nothing. -/
theorem Core.drop (ha : Apart p k k') (hpt : (k'.proc p).pagetable = none)
    (hlive : ∀ n, k'.mem.live n = k.mem.live n - owned (k.table p) n) :
    Core k' ∧ k'.table p = none := by
  have hnone : k'.table p = none := by
    rw [Kernel.table, hpt]
    rfl
  refine ⟨h.update ha (by simp [hpt]) (by simp [hpt]) fun n => ?_, hnone⟩
  rw [hnone, owned_none, add_zero]
  exact hlive n

section

variable (hT : k.table p = some T)
include hT

/-- A table is replaced that has the same root and balance. -/
theorem Core.put (hle : k.mem.Le S.mem)
    (hroot : S.tbl.root = T.root) (hex : ∀ n, S.excess n = excess ⟨k.mem, T⟩ n) :
    Core (k.put S) ∧ Apart p k (k.put S) ∧ (k.put S).table p = some S.tbl := by
  have hpt := h.root hT
  have hself : (k.put S).table p = some S.tbl := by
    rw [Kernel.table, Kernel.put_proc, hpt, ← hroot]
    exact AList.lookup_insert _
  have hapart : Apart p k (k.put S) :=
    .put hle fun q hq hr => hq (h.inj q p _ (hroot ▸ hr) hpt)
  refine ⟨h.update hapart (fun r hr => ⟨S.tbl, hself, ?_⟩)
    (fun q r hq hr hqr => hq (h.inj q p r hqr hr)) fun n => ?_, hapart, hself⟩
  · rw [hroot]
    exact Option.some.inj (hpt.symm.trans hr)
  · have hn := hex n
    simp only [excess] at hn
    rw [hself, hT, owned_some, owned_some, Kernel.put_mem]
    omega

/-- An operation on the table of a process. -/
theorem Core.edit (hS : Edit ⟨k.mem, T⟩ S 0) :
    Core (k.put S) ∧ Apart p k (k.put S) ∧ (k.put S).table p = some S.tbl :=
  h.put hT hS.mem hS.root fun n => (hS.excess n).trans (add_zero _)

/-- Stores to the memory of a process. -/
theorem Core.writes (hS : Space.Writes ⟨k.mem, T⟩ S) :
    Core (k.put S) ∧ Apart p k (k.put S) ∧ (k.put S).table p = some T := by
  obtain ⟨hc, ha, ht⟩ := h.put hT hS.le (congrArg Table.root hS.tbl) hS.excess
  exact ⟨hc, ha, ht.trans (congrArg some hS.tbl)⟩

end

theorem Core.setProc (hP : P.pagetable = (k.proc p).pagetable) :
    Core (k.setProc p P) ∧ Apart p k (k.setProc p P) ∧ (k.setProc p P).table p = k.table p := by
  have hself : (k.setProc p P).table p = k.table p := by
    rw [Kernel.setProc_table_self, hP, Kernel.table]
  refine ⟨h.update (.setProc P) (fun r hr => ?_) (fun q r hq hr hqr => ?_) fun n => ?_, .setProc P,
    hself⟩
  · rw [Kernel.setProc_self, hP] at hr
    rw [hself]
    exact h.key p r hr
  · rw [Kernel.setProc_self, hP] at hr
    exact hq (h.inj q p r hqr hr)
  · rw [hself, Kernel.setProc_mem]
    omega

end

/-- Only bytes of pages have changed. -/
structure Quiet (k k' : Kernel) : Prop where
  proc : k'.proc = k.proc
  table : k'.table = k.table
  mem : k'.mem = { k.mem with data := k'.mem.data }

theorem Quiet.refl (k : Kernel) : Quiet k k := ⟨rfl, rfl, rfl⟩

section

variable (h : Quiet k k')
include h

theorem Quiet.trans (h' : Quiet k' k'') : Quiet k k'' :=
  ⟨h'.proc.trans h.proc, h'.table.trans h.table, h'.mem.trans (by rw [h.mem])⟩

theorem Quiet.free : k'.mem.free = k.mem.free := by
  rw [h.mem, Mem.free, Mem.free]

theorem Quiet.next : k'.mem.next = k.mem.next := by rw [h.mem]

theorem Quiet.apart (p : ProcId) : Apart p k k' := by
  refine ⟨?_, fun q _ => by rw [h.proc], fun q _ => by rw [h.table]⟩
  rw [h.mem]
  exact ⟨rfl, Nat.le_refl _, List.suffix_refl _, id⟩

end

theorem Core.quiet (h : Core k) (hq : Quiet k k') : Core k' := by
  refine h.update (hq.apart ⟨0, by decide⟩) (fun r hr => ?_) (fun q r hqp hr hqr => ?_) fun n => ?_
  · rw [hq.proc] at hr
    rw [hq.table]
    exact h.key _ r hr
  · rw [hq.proc] at hr
    exact hqp (h.inj q _ r hqr hr)
  · rw [hq.table, hq.mem]
    simp only [Mem.live]
    omega

theorem Core.put_quiet (h : Core k) (hT : k.table p = some T)
    (hS : Space.Writes ⟨k.mem, T⟩ S) : Quiet k (k.put S) := by
  obtain ⟨-, ha, ht⟩ := h.writes hT hS
  refine ⟨rfl, funext fun q => ?_, hS.mem⟩
  by_cases hq : q = p
  · rw [hq, ht, hT]
  · exact ha.table q hq

/-! ### The invariant -/

/-- **The invariant of the address spaces.** -/
structure Inv (k : Kernel) : Prop where
  core : Core k
  fits : ∀ p, Fits (k.proc p) (k.table p)

section

variable (h : Inv k)
include h

/-- Only the process that has changed is to be looked at. -/
theorem Inv.of_apart (hc : Core k') (ha : Apart p k k')
    (hf : Fits (k'.proc p) (k'.table p)) : Inv k' := by
  refine ⟨hc, fun q => ?_⟩
  by_cases hq : q = p
  · rw [hq]
    exact hf
  · rw [ha.proc q hq, ha.table q hq]
    exact (h.fits q).parent _

/-- What the invariant says of a process in use. -/
theorem Inv.running (hs : (k.proc p).state = .used) :
    ∃ T, k.table p = some T ∧ Shape T (k.proc p).sz (k.proc p).threads (k.proc p).vmas ∧
      Group (k.proc p) ∧ Area (k.proc p) :=
  (h.fits p).of_used hs

/-- A call changes a table and the record of its process. -/
theorem Inv.put_setProc (hT : k.table p = some T) (hS : Edit ⟨k.mem, T⟩ S 0)
    (hP : P.pagetable = (k.proc p).pagetable) (hf : Fits P (some S.tbl)) :
    Inv ((k.put S).setProc p P) ∧ Apart p k ((k.put S).setProc p P) := by
  obtain ⟨hc, ha, ht⟩ := h.core.edit hT hS
  obtain ⟨hc', ha', ht'⟩ := hc.setProc (P := P) (p := p) (hP.trans (by rw [Kernel.put_proc]))
  refine ⟨h.of_apart hc' (ha.trans ha') ?_, ha.trans ha'⟩
  rw [Kernel.setProc_self, ht', ht]
  exact hf

theorem Inv.put (hT : k.table p = some T) (hS : Edit ⟨k.mem, T⟩ S 0)
    (hf : Fits (k.proc p) (some S.tbl)) : Inv (k.put S) ∧ Apart p k (k.put S) := by
  obtain ⟨hc, ha, ht⟩ := h.core.edit hT hS
  refine ⟨h.of_apart hc ha ?_, ha⟩
  rw [Kernel.put_proc, ht]
  exact hf

theorem Inv.quiet (hq : Quiet k k') : Inv k' := by
  refine ⟨h.core.quiet hq, fun p => ?_⟩
  rw [hq.proc, hq.table]
  exact h.fits p

theorem Inv.setProc (hP : P.pagetable = (k.proc p).pagetable)
    (hf : Fits P (k.table p)) : Inv (k.setProc p P) ∧ Apart p k (k.setProc p P) := by
  obtain ⟨hc, ha, ht⟩ := h.core.setProc (P := P) (p := p) hP
  refine ⟨h.of_apart hc ha ?_, ha⟩
  rw [Kernel.setProc_self, ht]
  exact hf

end

end XVapor.Vm
