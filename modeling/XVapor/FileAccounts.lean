import XVapor.FileTable
import XVapor.Tally
import Mathlib.Tactic.Ring

/-!
# The Accounts of Files and Descriptors

The **excess** of a file is its `ref` less the number of descriptors and mappings that refer
to it; the **surplus** of a process is its `ofile_cnt` less the number of its descriptors.
Both are meant to be zero between calls. Inside a call they are not: a file that has been
allocated has an excess of one until a descriptor is found for it.

Every assignment of the calls changes the accounts by a known amount, and the amounts of a
call add up. The accounts of a call are tracked this way along each of its paths, so that
what a call does to them is read off its steps.
-/

namespace XVapor.Files

open Function

/-! ### The accounts -/

/-- The number of descriptors in use. -/
def Proc.slots (P : Proc) : ℕ := tally (· ≠ none) P.ofile

/-- The number of descriptors that refer to the file. -/
def Proc.opened (P : Proc) (f : FileId) : ℕ := tally (· = some f) P.ofile

/-- The number of mappings of the file. An unused entry of the process table has none. -/
def Proc.mapped (P : Proc) (f : FileId) : ℕ :=
  if P.state = .unused then 0 else P.vmas.countP fun v => v.file = some f

/-- The number of descriptors and mappings that refer to the file. -/
def FsState.uses (s : FsState) (f : FileId) : ℕ :=
  ∑ p, ((s.proc p).opened f + (s.proc p).mapped f)

/-- By how much `ref` exceeds the references. -/
def excess (s : FsState) (f : FileId) : ℤ := (s.file f).ref - s.uses f

/-- By how much `ofile_cnt` exceeds the descriptors. -/
def surplus (s : FsState) (p : ProcId) : ℤ := (s.proc p).ofileCnt - (s.proc p).slots

/-- What a descriptor with this entry counts for the file. -/
def unit (o : Option FileId) (f : FileId) : ℤ := if o = some f then 1 else 0

/-- What a descriptor with this entry counts for its process. -/
def occ (o : Option FileId) : ℤ := if o ≠ none then 1 else 0

@[simp] theorem unit_none (f : FileId) : unit none f = 0 := if_neg (by simp)

@[simp] theorem unit_self (f : FileId) : unit (some f) f = 1 := if_pos rfl

theorem unit_nonneg (o : Option FileId) (f : FileId) : 0 ≤ unit o f := by
  unfold unit
  split <;> omega

@[simp] theorem occ_none : occ none = 0 := rfl

@[simp] theorem occ_some (f : FileId) : occ (some f) = 1 := rfl

variable {s s' s'' : FsState} {p q : ProcId} {f g : FileId} {fd : Fd}

/-! ### Positive counts -/

theorem one_le_uses (h : (s.proc p).ofile fd = some f) : 1 ≤ s.uses f := by
  have hp : 1 ≤ (s.proc p).opened f := one_le_tally h
  have hle : (s.proc p).opened f + (s.proc p).mapped f ≤ s.uses f :=
    Finset.single_le_sum (f := fun p => (s.proc p).opened f + (s.proc p).mapped f)
      (fun _ _ => Nat.zero_le _) (Finset.mem_univ p)
  omega

theorem one_le_ref_of_slot (h : 0 ≤ excess s f) (hf : (s.proc p).ofile fd = some f) :
    1 ≤ (s.file f).ref := by
  have := one_le_uses hf
  unfold excess at h
  omega

theorem cnt_nonneg (h : 0 ≤ surplus s p) : 0 ≤ (s.proc p).ofileCnt := by
  unfold surplus at h
  omega

theorem one_le_cnt_of_slot (h : 0 ≤ surplus s p) (hf : (s.proc p).ofile fd = some f) :
    1 ≤ (s.proc p).ofileCnt := by
  have hne : (s.proc p).ofile fd ≠ none := by simp [hf]
  have hslots : 1 ≤ (s.proc p).slots := one_le_tally hne
  unfold surplus at h
  omega

/-! ### Tracking -/

/-- From `s` to `s'`, only the entry of process `p` in the process table changes, not its
state; the excess of the files grows by `e`, and the surplus of `p` by `d`. -/
structure Track (p : ProcId) (s s' : FsState) (e : FileId → ℤ) (d : ℤ) : Prop where
  excess : ∀ f, excess s' f = excess s f + e f
  surplus : surplus s' p = surplus s p + d
  others : ∀ q, q ≠ p → s'.proc q = s.proc q
  state : (s'.proc p).state = (s.proc p).state

variable {e e' : FileId → ℤ} {d d' : ℤ}

theorem Track.refl (p : ProcId) (s : FsState) : Track p s s (fun _ => 0) 0 :=
  ⟨fun _ => (Int.add_zero _).symm, (Int.add_zero _).symm, fun _ _ => rfl, rfl⟩

/-- **The amounts add up.** -/
theorem Track.trans (h : Track p s s' e d) (h' : Track p s' s'' e' d') :
    Track p s s'' (fun f => e f + e' f) (d + d') := by
  refine ⟨fun f => ?_, ?_, fun q hq => ?_, h'.state.trans h.state⟩
  · rw [h'.excess, h.excess, Int.add_assoc]
  · rw [h'.surplus, h.surplus, Int.add_assoc]
  · rw [h'.others q hq, h.others q hq]

theorem Track.congr (h : Track p s s' e d) (he : ∀ f, e f = e' f) (hd : d = d') :
    Track p s s' e' d' :=
  ⟨fun f => he f ▸ h.excess f, hd ▸ h.surplus, h.others, h.state⟩

theorem excess_setProc (P : Proc) : excess (s.setProc p P) f =
    excess s f + ((s.proc p).opened f + (s.proc p).mapped f) - (P.opened f + P.mapped f) := by
  have hsum := sum_comp_update s.proc p P fun P => ((P.opened f + P.mapped f : ℕ) : ℤ)
  simp only [excess, FsState.uses, FsState.setProc, Nat.cast_sum, hsum]
  push_cast
  ring

theorem surplus_setProc (P : Proc) : surplus (s.setProc p P) p = P.ofileCnt - P.slots := by
  simp [surplus, FsState.setProc]

variable {P : Proc}

theorem track_setProc (hstate : P.state = (s.proc p).state)
    (he : ∀ f, ((s.proc p).opened f + (s.proc p).mapped f : ℤ) - (P.opened f + P.mapped f) = e f)
    (hd : surplus s p + d = P.ofileCnt - P.slots) : Track p s (s.setProc p P) e d := by
  refine ⟨fun f => ?_, ?_, fun q hq => ?_, ?_⟩
  · rw [excess_setProc, ← he f]
    ring
  · rw [surplus_setProc, hd]
  · simp [FsState.setProc, hq]
  · simpa [FsState.setProc] using hstate

theorem track_same (hstate : P.state = (s.proc p).state)
    (hofile : P.ofile = (s.proc p).ofile) (hcnt : P.ofileCnt = (s.proc p).ofileCnt)
    (hvmas : P.vmas = (s.proc p).vmas) : Track p s (s.setProc p P) (fun _ => 0) 0 := by
  refine track_setProc hstate (fun f => ?_) ?_
  · simp [Proc.opened, Proc.mapped, hstate, hofile, hvmas]
  · simp [surplus, Proc.slots, hofile, hcnt]

@[simp] theorem setSlot_ofile (o : Option FileId) : ((s.setSlot p fd o).proc p).ofile =
    update (s.proc p).ofile fd o := by
  simp [FsState.setSlot, FsState.setProc]

theorem track_setSlot (fd : Fd) (o : Option FileId) : Track p s (s.setSlot p fd o)
    (fun f => unit ((s.proc p).ofile fd) f - unit o f) (occ ((s.proc p).ofile fd) - occ o) := by
  refine track_setProc rfl (fun f => ?_) ?_
  · have ht := tally_update (q := (· = some f)) (s.proc p).ofile fd o
    simp only [Proc.opened, Proc.mapped, unit, ht]
    ring
  · have ht := tally_update (q := (· ≠ none)) (s.proc p).ofile fd o
    simp only [surplus, Proc.slots, occ, ht]
    ring

theorem track_addCnt (d : ℤ) : Track p s (s.addCnt p d) (fun _ => 0) d := by
  refine track_setProc rfl (fun f => ?_) ?_
  · simp only [Proc.opened, Proc.mapped]
    ring
  · simp only [surplus, Proc.slots]
    ring

theorem track_setFile (F : File) :
    Track p s (s.setFile f F) (fun g => (F.ref - (s.file f).ref) * unit (some f) g) 0 := by
  refine ⟨fun g => ?_, (Int.add_zero _).symm, fun _ _ => rfl, rfl⟩
  obtain rfl | hg := eq_or_ne g f
  · simp only [Files.excess, FsState.setFile, FsState.uses, update_self, unit_self]
    ring
  · have hunit : unit (some f) g = 0 := if_neg fun h => hg (Option.some.inj h).symm
    simp only [Files.excess, FsState.setFile, FsState.uses, update_of_ne hg, hunit,
      mul_zero, add_zero]

theorem track_addRef (d : ℤ) :
    Track p s (s.addRef f d) (fun g => d * unit (some f) g) 0 :=
  (track_setFile _).congr (fun g => by ring) rfl

theorem track_setFlags (flags : BitVec 32) :
    Track p s (s.setFlags f flags) (fun _ => 0) 0 :=
  (track_setFile _).congr (fun g => by ring) rfl

theorem track_setVmas {vmas : List Vma} (hp : (s.proc p).state ≠ .unused) :
    Track p s (s.setVmas p vmas) (fun f => ((s.proc p).vmas.countP fun v => v.file = some f) -
      (vmas.countP fun v => v.file = some f)) 0 := by
  refine track_setProc rfl (fun f => ?_) ?_
  · simp only [Proc.opened, Proc.mapped, if_neg hp]
    ring
  · simp only [surplus, Proc.slots]
    ring

/-! ### Functions on files -/

/-- The panics of `filedup` and `fileclose`. -/
def Panic.counts : Panic → Prop
  | .filedup => True
  | .fileclose => True
  | .ofileCnt => True
  | _ => False

theorem filealloc_track (p : ProcId) (h : filealloc s = some (f, s')) :
    Track p s s' (unit (some f)) 0 ∧ s'.proc = s.proc := by
  obtain ⟨f', hf, heq⟩ := Option.map_eq_some_iff.1 h
  obtain ⟨rfl, rfl⟩ : f' = f ∧ s.setFile f' ⟨1, 0⟩ = s' := by simpa using heq
  have href : (s.file f').ref = 0 := by simpa using searchFrom_eq_some hf
  exact ⟨(track_setFile _).congr (fun g => by simp [href]) rfl, rfl⟩

theorem filedup_eq (h : 1 ≤ (s.file f).ref) : filedup s f = .ok (s.addRef f 1) :=
  if_neg (by omega)

/-- **What `fileclose` does to the accounts.** It does not panic if the file has a reference
and the count of the process has what is taken from it. -/
theorem fileclose_eq_ok (drop : Bool) (href : 1 ≤ (s.file f).ref)
    (hcnt : (if drop then 1 else 0) ≤ (s.proc p).ofileCnt) :
    ∃ s', fileclose s p f drop = .ok s' ∧
      Track p s s' (fun g => -unit (some f) g) (if drop then -1 else 0) ∧
      (s'.proc p).ofile = (s.proc p).ofile ∧ (s'.proc p).vmas = (s.proc p).vmas := by
  -- the count first, then the reference
  have hdrop : ∀ s1 : FsState, s1 = (if drop then s.addCnt p (-1) else s) →
      Track p s s1 (fun _ => 0) (if drop then -1 else 0) ∧
      ((s1.proc p).ofile = (s.proc p).ofile ∧ (s1.proc p).vmas = (s.proc p).vmas) ∧
      s1.file = s.file ∧ 0 ≤ (s1.proc p).ofileCnt := by
    rintro s1 rfl
    cases drop with
    | true =>
      refine ⟨track_addCnt (-1), by simp [FsState.addCnt, FsState.setProc], rfl, ?_⟩
      simp only [FsState.addCnt, FsState.setProc, if_true, update_self] at hcnt ⊢
      omega
    | false => exact ⟨Track.refl p s, ⟨rfl, rfl⟩, rfl, by simpa using hcnt⟩
  obtain ⟨ht, hframe, hfile, hnonneg⟩ := hdrop _ rfl
  simp only [fileclose]
  generalize (if drop = true then s.addCnt p (-1) else s) = s1 at ht hframe hfile hnonneg ⊢
  have href1 : ¬ (s1.file f).ref < 1 := by
    rw [hfile]
    omega
  rw [if_neg (not_lt.2 hnonneg), if_neg href1]
  by_cases hlast : 0 < (s1.file f).ref - 1
  · rw [if_pos hlast]
    exact ⟨_, rfl, (ht.trans (track_addRef (-1))).congr (fun g => by ring) (by ring), hframe⟩
  rw [if_neg hlast]
  refine ⟨_, rfl, (ht.trans (track_setFile ⟨0, 0⟩)).congr (fun g => ?_) (by ring), hframe⟩
  have hone : (s.file f).ref = 1 := by
    rw [hfile] at hlast
    omega
  simp only [hfile, hone]
  ring

/-- `fileclose` gives a reference back. -/
theorem fileclose_ends (drop : Bool) (href : 1 ≤ (s.file f).ref)
    (hcnt : (if drop then 1 else 0) ≤ (s.proc p).ofileCnt) :
    Ends Panic.counts (fun s' => Track p s s' (fun g => -unit (some f) g)
      (if drop then -1 else 0) ∧ (s'.proc p).ofile = (s.proc p).ofile ∧
      (s'.proc p).vmas = (s.proc p).vmas) (fileclose s p f drop) := by
  obtain ⟨s', h, hs'⟩ := fileclose_eq_ok drop href hcnt
  rw [h]
  exact hs'

theorem fileclose_eq_ofileCnt (hcnt : (s.proc p).ofileCnt < 1) :
    fileclose s p f true = .error .ofileCnt := by
  simp only [fileclose, if_true]
  refine if_pos ?_
  simp only [FsState.addCnt, FsState.setProc, update_self]
  omega

theorem fileclose_drop_ends (href : 1 ≤ (s.file f).ref) (hcnt : 1 ≤ (s.proc p).ofileCnt) :
    Ends Panic.counts (fun s' => Track p s s' (fun g => -unit (some f) g) (-1) ∧
      (s'.proc p).ofile = (s.proc p).ofile ∧ (s'.proc p).vmas = (s.proc p).vmas)
      (fileclose s p f true) :=
  fileclose_ends true href hcnt

theorem fileclose_keep_ends (href : 1 ≤ (s.file f).ref) (hcnt : 0 ≤ (s.proc p).ofileCnt) :
    Ends Panic.counts (fun s' => Track p s s' (fun g => -unit (some f) g) 0 ∧
      (s'.proc p).ofile = (s.proc p).ofile ∧ (s'.proc p).vmas = (s.proc p).vmas)
      (fileclose s p f false) :=
  fileclose_ends false href hcnt

theorem track_install (h : (s.proc p).ofile fd = none) :
    Track p s (install s p fd f) (fun g => -unit (some f) g) 0 :=
  ((track_setSlot fd (some f)).trans (track_addCnt 1)).congr
    (fun g => by simp [h]) (by simp [h])

@[simp] theorem install_ofile : ((install s p fd f).proc p).ofile =
    update (s.proc p).ofile fd (some f) := by
  simp [install, FsState.addCnt, FsState.setProc]

@[simp] theorem install_file : (install s p fd f).file = s.file := rfl

theorem freeSlot_eq_some {i : ℕ} (h : freeSlot P i = some fd) :
    P.ofile fd = none := by
  simpa using searchFrom_eq_some h

theorem fdFree_eq_some (h : fdFree P = some fd) : P.ofile fd = none := by
  unfold fdFree at h
  split at h
  · nomatch h
  · exact freeSlot_eq_some h

theorem fdalloc_eq_ok {x : Fd} (h : fdalloc s p f = .ok (x, s')) :
    (s.proc p).ofile x = none ∧ s' = install s p x f := by
  unfold fdalloc at h
  split at h
  · nomatch h
  rename_i fd hfd
  obtain ⟨rfl, rfl⟩ : fd = x ∧ install s p fd f = s' := by simpa using h
  exact ⟨fdFree_eq_some hfd, rfl⟩

theorem fdallocLteq_eq_ok {x : Fd} {dmd : ℤ} (h : fdallocLteq s p f dmd = .ok (x, s')) :
    (s.proc p).ofile x = none ∧ s' = install s p x f := by
  unfold fdallocLteq at h
  split at h
  · nomatch h
  split at h
  · nomatch h
  split at h
  · nomatch h
  rename_i fd hfd
  obtain ⟨rfl, rfl⟩ : fd = x ∧ install s p fd f = s' := by simpa using h
  exact ⟨freeSlot_eq_some hfd, rfl⟩

theorem argfd_eq_some {n : ℤ} (h : argfd P n = some (fd, f)) :
    P.ofile fd = some f := by
  obtain ⟨x, -, hx⟩ := Option.bind_eq_some_iff.1 h
  obtain ⟨g, hg, heq⟩ := Option.map_eq_some_iff.1 hx
  obtain ⟨rfl, rfl⟩ : x = fd ∧ g = f := by simpa using heq
  exact hg

end XVapor.Files
