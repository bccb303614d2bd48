import XVapor.SpaceMachine

/-!
# The Owners of Pages

Page tables have no reference count. `do_clone` with `CLONE_VM` gives the child the page table
of its parent by name, and drops the one `allocproc` has made. **When the child exits, it
frees the trap frame of its parent, and when it is waited for, the page table of its
parent.** The table that was dropped is never freed.

Without such clones every page that has been allocated is in the table of one process that is
not unused, or has been freed once.

## Main results

* `owners_of_reach`: the owners of the pages along careful runs.
-/

namespace XVapor.Vm

open Files (ProcId ProcState)

variable {k : Kernel} {p : ProcId} {n : ℕ}

/-! ### Pages and tables -/

/-- No page is freed twice. -/
theorem Core.count_le_one (h : Core k) (n : ℕ) : k.mem.freed.count n ≤ 1 := by
  have hsum : 0 ≤ ∑ p, owned (k.table p) n := Finset.sum_nonneg fun p _ => owned_nonneg _ n
  rw [← h.balance, Mem.live] at hsum
  split at hsum <;> omega

/-- **A page that has not been freed is in a table.** -/
theorem Core.exists_owner (h : Core k) (hn : n < k.mem.next) (hfreed : n ∉ k.mem.freed) :
    ∃ p T, k.table p = some T ∧ 1 ≤ T.refs n := by
  have hlive : k.mem.live n = 1 := by
    rw [Mem.live, if_pos hn, List.count_eq_zero.2 hfreed]
    rfl
  by_contra hnone
  have hzero : ∀ p, owned (k.table p) n = 0 := by
    intro p
    cases hT : k.table p with
    | none => rfl
    | some T =>
      refine le_antisymm (Int.not_lt.1 fun hpos => hnone ⟨p, T, hT, hpos⟩) (T.refs_nonneg n)
  rw [h.balance, Finset.sum_eq_zero fun p _ => hzero p] at hlive
  exact absurd hlive (by decide)

theorem Inv.not_unused {T : Table} (h : Inv k) (hT : k.table p = some T) :
    (k.proc p).state ≠ .unused := by
  intro hunused
  obtain ⟨hnone, -⟩ := (h.fits p).of_unused hunused
  rw [hT] at hnone
  cases hnone

/-! ### Runs -/

/-- **The owners of pages.** The pages of the table of a process that runs have not been freed,
and the trap frames of its threads are mapped in that table. Every page is freed at most once,
and one that has not been freed is in the table of a process that is not unused. -/
structure OwnersOk (k : Kernel) : Prop where
  safe : ∀ p, (k.proc p).state = .used → ∃ T, k.table p = some T ∧
    (∀ n, 1 ≤ T.refs n → n < k.mem.next ∧ n ∉ k.mem.freed) ∧
    ∀ t ∈ (k.proc p).threads, ∃ n, t.trapframe = some n ∧
      T.pte (slot t.tidx) = some (trapframePte (.page n))
  once : ∀ n, k.mem.freed.count n ≤ 1
  kept : ∀ n < k.mem.next, n ∉ k.mem.freed → ∃ p T, (k.proc p).state ≠ .unused ∧
    k.table p = some T ∧ 1 ≤ T.refs n

/-- **The owners of the pages along careful runs.** -/
theorem owners_of_reach (h : spaceMachine.Reach Careful k) : OwnersOk k := by
  have hk := inv_of_reach h
  refine ⟨fun p hp => ?_, hk.core.count_le_one, fun n hn hfreed => ?_⟩
  · obtain ⟨T, hT, hshape, -, -⟩ := hk.running hp
    exact ⟨T, hT, fun n hn => hk.core.page_lt hT hn, hshape.frame⟩
  · obtain ⟨p, T, hT, hrefs⟩ := hk.core.exists_owner hn hfreed
    exact ⟨p, T, hk.not_unused hT, hT, hrefs⟩

/-- A process clone, with or without `CLONE_VM`. -/
def procArgs (vm : Bool) : CloneArgs := ⟨false, vm, none, none, some childProc, true, 1, 0⟩

/-- A clone whose child exits and is waited for. -/
def cloneAndWait (vm : Bool) : List Act :=
  [initAct (.clone (procArgs vm)), ⟨childProc, ⟨0, some 22⟩, .exit⟩,
    initAct (.wait childProc 0 0)]

theorem owners_fork : ∃ k, spaceMachine.Reach Careful k ∧ k.mem.freed.length = 19 ∧
    OwnersOk k := by
  obtain ⟨k, hk, heq⟩ : ∃ k ∈ spaceMachine.exec smallStart (cloneAndWait false),
      k.mem.freed.length = 19 := by decide +kernel
  have hreach : spaceMachine.Reach Careful k :=
    (Machine.Reach.init smallStart_init).exec_along (by decide +kernel) hk
  exact ⟨k, hreach, heq, owners_of_reach hreach⟩

/-- **A child frees the pages of its parent.** The parent runs, its page table is gone, and the
trap frame of its thread has been freed. -/
theorem parent_freed : ∃ k, spaceMachine.Reach Machine.anyStep k ∧
    (k.proc initproc).state = .used ∧ initThread ∈ (k.proc initproc).threads ∧
    initThread.trapframe = some 3 ∧ 3 ∈ k.mem.freed ∧ ¬ OwnersOk k := by
  obtain ⟨k, hk, hs, ht, hfreed, hnone⟩ : ∃ k ∈ spaceMachine.exec smallStart (cloneAndWait true),
      (k.proc initproc).state = .used ∧ initThread ∈ (k.proc initproc).threads ∧
      3 ∈ k.mem.freed ∧ (k.table initproc).isSome = false := by
    decide +kernel
  refine ⟨k, Machine.reach_of_exec smallStart_init hk, hs, ht, rfl, hfreed, fun hok => ?_⟩
  obtain ⟨T, hT, -⟩ := hok.safe initproc hs
  rw [hT] at hnone
  cases hnone

end XVapor.Vm
