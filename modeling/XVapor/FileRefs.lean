import XVapor.FileProcs

/-!
# The Reference Counts of Files

The reference count of a file is the number of descriptors and file mappings that refer to
it, and the panics of `filedup` and `fileclose` are not reached, in every run without the
calls that break the accounts: an `F_SETFD` that finds a free descriptor, a `pipe` that reads
the unset `fd1` as a descriptor, and the calls that leave a reference behind.

## Main results

* `refs_of_reach`: the counts are right in every state reached by such a run, a file is free
  if and only if nothing refers to it, and no call that keeps to the first two conditions
  panics in `filedup` or `fileclose`.
-/

namespace XVapor.Files

variable {s s' : FsState} {top : BitVec 64} {f : FileId}

/-- The condition on one call. -/
def CallBalanced (top : BitVec 64) (s : FsState) (a : ProcId × FileCall) : Prop :=
  Counted s a.1 a.2 ∧ NoLeak top s a.1 a.2

/-- In every run in which all calls meet the condition the accounts are zero. -/
theorem balanced_of_reach (h : (filesMachine top).Reach (CallBalanced top) s) :
    Sound s ∧ ∀ f, excess s f = 0 := by
  refine h.invariant (I := fun s => Sound s ∧ ∀ f, excess s f = 0) ?_ ?_
  · rintro s rfl
    exact sound_boot top
  · rintro s ⟨p, c⟩ s' ⟨hs, hzero⟩ ⟨hc, hn⟩ hstep
    obtain ⟨hp, r, hok⟩ := mem_callMachine_step.1 hstep
    have hends := call_ends top hs (by simpa using hp) c hc
    rw [hok] at hends
    exact ⟨hends.1, fun f => (hends.2 hn f).trans (hzero f)⟩

/-- Nothing refers to the file. -/
def Unreferenced (s : FsState) (f : FileId) : Prop :=
  (∀ p fd, (s.proc p).ofile fd ≠ some f) ∧
    ∀ p, (s.proc p).state ≠ .unused → ∀ v ∈ (s.proc p).vmas, v.file ≠ some f

theorem uses_eq_zero : s.uses f = 0 ↔ Unreferenced s f := by
  simp only [FsState.uses, Finset.sum_eq_zero_iff, Finset.mem_univ, true_imp_iff,
    Nat.add_eq_zero_iff, Proc.opened, tally_eq_zero, forall_and, Unreferenced]
  refine and_congr_right fun _ => forall_congr' fun p => ?_
  by_cases hp : (s.proc p).state = .unused
  · simp [Proc.mapped, hp]
  · simp [Proc.mapped, hp, List.countP_eq_zero]

/-- **The reference counts are right**, in every run in which no `F_SETFD` finds a free
descriptor, no `pipe` reads the unset `fd1` as a descriptor, and no call leaves a reference
behind. A file is free if and only if nothing refers to it, and the next call does not panic
in `filedup` or `fileclose`. -/
theorem refs_of_reach (h : (filesMachine top).Reach (CallBalanced top) s) :
    (∀ f, (s.file f).ref = s.uses f) ∧ (∀ f, (s.file f).ref = 0 ↔ Unreferenced s f) ∧
      ∀ p c, (s.proc p).state = .used → Counted s p c → ∀ e, call top s p c = .error e →
        e ≠ .filedup ∧ e ≠ .fileclose ∧ e ≠ .ofileCnt := by
  obtain ⟨hs, hzero⟩ := balanced_of_reach h
  have href : ∀ f, (s.file f).ref = s.uses f := fun f => sub_eq_zero.1 (hzero f)
  refine ⟨href, fun f => ?_, fun p c hp hc e he => ?_⟩
  · rw [href, Nat.cast_eq_zero, uses_eq_zero]
  · have hends := call_ends top hs hp c hc
    rw [he] at hends
    refine ⟨?_, ?_, ?_⟩ <;>
    · rintro rfl
      exact hends trivial

/-- The first process opens a device and duplicates it: two descriptors refer to the file. -/
theorem refs_of_dup : ∃ s,
    (filesMachine mmapMaxAddrStart).Reach (CallBalanced mmapMaxAddrStart) s ∧
      (s.file ⟨0, by decide⟩).ref = 2 ∧ s.uses ⟨0, by decide⟩ = 2 := by
  have h0 : (filesMachine mmapMaxAddrStart).Reach (CallBalanced mmapMaxAddrStart)
      (boot mmapMaxAddrStart) := .init rfl
  have h1 := h0.step (a := (initproc, FileCall.dev 2 1)) ⟨trivial, trivial⟩ rfl
  have h2 := h1.step (a := (initproc, FileCall.dup 0)) ⟨trivial, trivial⟩ rfl
  obtain ⟨s, hs, href⟩ : ∃ s, (filesMachine mmapMaxAddrStart).Reach
      (CallBalanced mmapMaxAddrStart) s ∧ (s.file ⟨0, by decide⟩).ref = 2 := ⟨_, h2, rfl⟩
  have huses := (refs_of_reach hs).1 ⟨0, by decide⟩
  rw [href] at huses
  exact ⟨s, hs, href, by exact_mod_cast huses.symm⟩

/-- **The counts go wrong.** After an `F_SETFD` that finds a free descriptor and a `close` of
the first one, the file is free although descriptor 1 refers to it, and `dup` panics. After an
`execve` that fails, a file has a reference that nothing has. -/
theorem refs_fail :
    (∃ s, (filesMachine mmapMaxAddrStart).exec (boot mmapMaxAddrStart)
        [(initproc, .dev 2 1), (initproc, .fcntl 0 .setfd 1), (initproc, .close 0)] = some s ∧
      (s.file ⟨0, by decide⟩).ref = 0 ∧
      (s.proc initproc).ofile ⟨1, by decide⟩ = some ⟨0, by decide⟩ ∧
      call mmapMaxAddrStart s initproc (.dup 1) = .error .filedup) ∧
    (∃ s, (filesMachine mmapMaxAddrStart).exec (boot mmapMaxAddrStart)
        [(initproc, .execve false false)] = some s ∧
      (s.file ⟨0, by decide⟩).ref = 1 ∧ s.uses ⟨0, by decide⟩ = 0) := by
  constructor
  · have hrun : (filesMachine mmapMaxAddrStart).exec (boot mmapMaxAddrStart)
        [(initproc, .dev 2 1), (initproc, .fcntl 0 .setfd 1), (initproc, .close 0)] =
        some _ := rfl
    exact ⟨_, hrun, rfl, rfl, rfl⟩
  · have hrun : (filesMachine mmapMaxAddrStart).exec (boot mmapMaxAddrStart)
        [(initproc, .execve false false)] = some _ := rfl
    exact ⟨_, hrun, rfl, by decide +kernel⟩

end XVapor.Files
