import XVapor.FileProcs

/-!
# The Count of Descriptors

`ofile_cnt` is counted by hand: up where a descriptor is taken, and down by `fileclose` if its
argument `drop_ofile_cnt` says so. A process reaches its limit of descriptors when this count
does.

The count is right after every call as long as no `F_SETFD` finds a free descriptor, since
`setfd` fills it without counting, and no `pipe` that finds no descriptor reads a descriptor
from the unset `fd1`, since it then takes one from the count.

## Main results

* `counts_iff`: the count is right after every call of a sequence, and never falls below
  zero, if and only if every call meets this condition.
-/

namespace XVapor.Files

open Function

variable {s s' : FsState} {p : ProcId} {top : BitVec 64}

/-! ### The count of one process -/

/-- The count is the number of descriptors in use, and the test for the limit is exact. -/
structure CntOk (P : Proc) : Prop where
  cnt : P.ofileCnt = P.slots
  exact : isExcRcfile P = true ↔ P.rlimCur.toNat ≤ P.slots ∨ NOFILE ≤ P.slots

theorem slots_le (P : Proc) : P.slots ≤ NOFILE := by
  have h := Finset.card_le_univ (Finset.univ.filter fun fd => P.ofile fd ≠ none)
  simpa [Proc.slots, tally] using h

theorem CntOk.of_cnt {P : Proc} (h : P.ofileCnt = P.slots) : CntOk P := by
  refine ⟨h, ?_⟩
  have hlt : P.slots < 2 ^ 64 := (slots_le P).trans_lt (by decide)
  have hcast : (BitVec.ofInt 64 (P.slots : ℤ)).toNat = P.slots := by
    rw [BitVec.ofInt_natCast, BitVec.toNat_ofNat, Nat.mod_eq_of_lt hlt]
  simp only [isExcRcfile, h, decide_eq_true_eq, BitVec.le_def, hcast]
  omega

/-! ### Calls -/

/-- After the call the count of every process that runs is right, and the call does not end
in a count below zero. -/
def CountsRight (top : BitVec 64) (s : FsState) (a : ProcId × FileCall) : Prop :=
  (s.proc a.1).state = .used → call top s a.1 a.2 ≠ .error .ofileCnt ∧
    ∀ r s', call top s a.1 a.2 = .ok (r, s') → ∀ p, (s'.proc p).state = .used →
      CntOk (s'.proc p)

/-- The condition on one call. -/
def CallCounted (s : FsState) (a : ProcId × FileCall) : Prop :=
  (s.proc a.1).state = .used → Counted s a.1 a.2

variable {a : ProcId × FileCall}

theorem countsRight_of_counted (hs : Sound s) (h : CallCounted s a) : CountsRight top s a := by
  intro hp
  have hends := call_ends top hs hp a.2 (h hp)
  refine ⟨fun he => ?_, fun r s' hok q _ => ?_⟩
  · rw [he] at hends
    exact hends trivial
  · rw [hok] at hends
    exact CntOk.of_cnt (by simpa [surplus, sub_eq_zero] using hends.1.cnt q)

theorem not_countsRight_of_track {e : FileId → ℤ} {d r : ℤ}
    (hs : Sound s) (hp : (s.proc a.1).state = .used)
    (hok : call top s a.1 a.2 = .ok (r, s')) (ht : Track a.1 s s' e d) (hd : d ≠ 0) :
    ¬ CountsRight top s a := by
  intro h
  have hcnt := ((h hp).2 r s' hok a.1 (ht.state.trans hp)).cnt
  have hsur := ht.surplus
  rw [hs.cnt, surplus, hcnt] at hsur
  omega

/-- `pipe` without a descriptor takes one from the count. -/
theorem not_countsRight_pipe {page copied : Bool} {fd₁ : ℤ} {rf wf : FileId} {s1 : FsState}
    (hs : Sound s) (hp : (s.proc p).state = .used)
    (halloc : pipealloc s p page = .ok (some (rf, wf), s1))
    (hnone : fdFree (s.proc p) = none) (hfd1 : 0 ≤ fd₁) :
    ¬ CountsRight top s (p, .pipe page fd₁ copied) := by
  have hends := pipealloc_ends (p := p) hs page
  rw [halloc] at hends
  obtain ⟨t1, hproc⟩ : Track p s s1 (fun g => unit (some rf) g + unit (some wf) g) 0 ∧
      s1.proc = s.proc := hends
  have hcall : call top s p (.pipe page fd₁ copied) =
      (fileclose s1 p rf false >>= fun s => fileclose s p wf true >>= fun s => .ok (-1, s)) := by
    have hfdalloc : fdalloc s1 p rf = .error (-EMFILE) := by
      simp only [fdalloc, hproc, hnone]
    have hpipe : call top s p (.pipe page fd₁ copied) = pipeFds s1 p rf wf fd₁ copied := by
      simp only [call, sysPipe, halloc]
      rfl
    rw [hpipe]
    simp only [pipeFds, hfdalloc, decide_eq_true hfd1]
  have href : 1 ≤ (s1.file rf).ref := hs.one_le_ref t1 (by
    have := unit_nonneg (some wf) rf
    rw [unit_self]
    omega)
  have hcnt : 0 ≤ (s1.proc p).ofileCnt := cnt_nonneg (by rw [t1.surplus, hs.cnt, Int.add_zero])
  obtain ⟨s2, h2, t2, -⟩ := fileclose_eq_ok false href hcnt
  have t : Track p s s2 (unit (some wf)) 0 := (t1.trans t2).congr (fun g => by ring) rfl
  rw [h2] at hcall
  by_cases hzero : (s2.proc p).ofileCnt < 1
  · -- the count falls below zero
    intro h
    refine (h hp).1 ?_
    rw [hcall]
    exact congrArg (· >>= fun s => .ok (-1, s)) (fileclose_eq_ofileCnt hzero)
  · have href2 : 1 ≤ (s2.file wf).ref := hs.one_le_ref t (by simp)
    have hcnt2 : 1 ≤ (s2.proc p).ofileCnt := not_lt.1 hzero
    obtain ⟨s3, h3, t3, -⟩ := fileclose_eq_ok true href2 hcnt2
    have hok : call top s p (.pipe page fd₁ copied) = .ok (-1, s3) := by
      rw [hcall]
      exact congrArg (· >>= fun s => .ok (-1, s)) h3
    exact not_countsRight_of_track hs hp hok (t.trans t3) (by simp)

/-! ### Sequences of calls -/

/-- **The count of descriptors is right after every call, and never falls below zero, if and
only if** no `F_SETFD` of the sequence finds a free descriptor, and no `pipe` that finds no
descriptor has a descriptor in the unset `fd1`. -/
theorem counts_iff (top : BitVec 64) (as : List (ProcId × FileCall)) :
    (filesMachine top).Along (CountsRight top) (boot top) as ↔
      (filesMachine top).Along CallCounted (boot top) as := by
  refine Machine.along_iff_along (I := Sound) (fun s a hs => ?_) (fun s a s' hs h hstep => ?_)
    (sound_boot top).1
  · refine ⟨fun h hp => ?_, countsRight_of_counted hs⟩
    obtain ⟨p, c⟩ := a
    cases c with
    | fcntl n cmd arg =>
      cases cmd with
      | setfd =>
        intro fd f k hf hk hnone
        have hok : call top s p (.fcntl n .setfd arg) = .ok (0, s.setSlot p k (some f)) := by
          simp only [call, sysFcntl, hf, doFcntl, setfd, hk, hnone]
        exact not_countsRight_of_track hs hp hok (track_setSlot k (some f)) (by simp [hnone]) h
      | _ => trivial
    | pipe page fd₁ copied =>
      rintro ⟨rf, wf⟩ s1 halloc hnone
      by_contra hfd1
      exact not_countsRight_pipe hs hp halloc hnone (not_lt.1 hfd1) h
    | _ => trivial
  · obtain ⟨hp, r, hok⟩ := mem_callMachine_step.1 hstep
    have hp : (s.proc a.1).state = .used := by simpa using hp
    have hends := call_ends top hs hp a.2 (h hp)
    rw [hok] at hends
    exact hends.1

/-- The first process opens a device, and puts it at descriptor 1 with `F_SETFD`. -/
def setfdRun : List (ProcId × FileCall) :=
  [(initproc, .dev 2 1), (initproc, .fcntl 0 .setfd 1)]

/-- **`F_SETFD` breaks the count**: two descriptors are in use and one is counted, and when
both are closed the count falls below zero. -/
theorem setfd_breaks_count : ∃ s s',
    (filesMachine mmapMaxAddrStart).exec (boot mmapMaxAddrStart) setfdRun = some s ∧
    (s.proc initproc).ofileCnt = 1 ∧ (s.proc initproc).slots = 2 ∧
    (filesMachine mmapMaxAddrStart).step s (initproc, .close 0) = some s' ∧
    call mmapMaxAddrStart s' initproc (.close 1) = .error .ofileCnt := by
  have hrun : (filesMachine mmapMaxAddrStart).exec (boot mmapMaxAddrStart) setfdRun =
      some _ := rfl
  exact ⟨_, _, hrun, rfl, by decide +kernel, rfl, rfl⟩

end XVapor.Files
