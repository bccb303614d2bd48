import XVapor.FileAccounts

/-!
# Calls on Descriptors and their Accounts

Between calls the state is `Sound`: no file has a negative excess, no process a surplus, and
a process that does not run has no descriptors. For every call on descriptors the amounts of
its steps, on each of its paths, add up to nothing, with two exceptions: an `F_SETFD` that
finds a free descriptor, and a `pipe` that finds none and reads the unset `fd1` as one.
-/

namespace XVapor.Files

variable {s s' : FsState} {p np : ProcId} {f : FileId} {fd : Fd}

/-! ### Sound states -/

/-- The state between calls. -/
structure Sound (s : FsState) : Prop where
  ref : ∀ f, 0 ≤ excess s f
  cnt : ∀ p, surplus s p = 0
  idle : ∀ p fd, (s.proc p).state ≠ .used → (s.proc p).ofile fd = none
  zombie : ∀ p, (s.proc p).state = .zombie → (s.proc p).vmas = []

/-- A call of process `p` leaves the accounts as they are. -/
def Kept (p : ProcId) (s : FsState) (r : ℤ × FsState) : Prop :=
  Track p s r.2 (fun _ => 0) 0

variable {e : FileId → ℤ}

/-- The tables stay sound if no count has sunk below its references. -/
theorem Sound.of_track (hs : Sound s) (hp : (s.proc p).state = .used)
    (h : Track p s s' e 0) (he : ∀ f, 0 ≤ e f) : Sound s' := by
  have hp' : (s'.proc p).state = .used := h.state.trans hp
  refine ⟨fun f => ?_, fun q => ?_, fun q fd hq => ?_, fun q hq => ?_⟩
  · rw [h.excess]
    exact Int.add_nonneg (hs.ref f) (he f)
  · by_cases hqp : q = p
    · rw [hqp, h.surplus, hs.cnt, Int.add_zero]
    · rw [surplus, h.others q hqp]
      exact hs.cnt q
  · have hqp : q ≠ p := fun heq => hq (heq ▸ hp')
    rw [h.others q hqp] at hq ⊢
    exact hs.idle q fd hq
  · have hqp : q ≠ p := by
      rintro rfl
      rw [hp'] at hq
      cases hq
    rw [h.others q hqp] at hq ⊢
    exact hs.zombie q hq

/-- A file with a reference that nobody holds yet is in use. -/
theorem Sound.one_le_ref {d : ℤ} (hs : Sound s) (h : Track p s s' e d)
    (he : 1 ≤ e f) : 1 ≤ (s'.file f).ref := by
  have hexcess := h.excess f
  have := hs.ref f
  unfold excess at *
  omega

/-- `filealloc` takes a file with one reference. -/
theorem Sound.filealloc (hs : Sound s) (p : ProcId) (h : Files.filealloc s = some (f, s')) :
    Track p s s' (unit (some f)) 0 ∧ s'.proc = s.proc ∧ 1 ≤ (s'.file f).ref ∧
      surplus s' p = 0 := by
  obtain ⟨ht, hproc⟩ := filealloc_track p h
  exact ⟨ht, hproc, hs.one_le_ref ht (by simp), by rw [ht.surplus, hs.cnt, Int.add_zero]⟩

variable {s1 s0 : FsState}

theorem Sound.fdalloc_new {s2 : FsState} (hs : Sound s)
    (h : Files.filealloc s = some (f, s1)) (h2 : fdalloc s1 p f = .ok (fd, s2)) :
    Track p s s2 (fun _ => 0) 0 := by
  obtain ⟨t1, -⟩ := hs.filealloc p h
  obtain ⟨hfree, rfl⟩ := fdalloc_eq_ok h2
  exact (t1.trans (track_install hfree)).congr (fun g => by ring) rfl

theorem Sound.giveBack_ends (hs : Sound s) (h : Files.filealloc s = some (f, s1)) :
    Ends Panic.counts (fun s' => Track p s s' (fun _ => 0) 0) (fileclose s1 p f false) := by
  obtain ⟨t1, -, href, hcnt⟩ := hs.filealloc p h
  refine (fileclose_keep_ends href (cnt_nonneg hcnt.ge)).mono fun s2 ht => ?_
  exact (t1.trans ht.1).congr (fun g => by ring) rfl

/-! ### Calls on descriptors -/

theorem fileclose_slot_ends (hexc : 0 ≤ excess s f) (hsur : 0 ≤ surplus s p)
    (hf : (s.proc p).ofile fd = some f) :
    Ends Panic.counts (fun s' => Track p s (s'.setSlot p fd none) (fun _ => 0) 0 ∧
      ((s'.setSlot p fd none).proc p).ofile = Function.update (s.proc p).ofile fd none ∧
      ((s'.setSlot p fd none).proc p).vmas = (s.proc p).vmas) (fileclose s p f true) := by
  refine (fileclose_drop_ends (one_le_ref_of_slot hexc hf) (one_le_cnt_of_slot hsur hf)).mono ?_
  rintro s1 ⟨ht, hofile, hvmas⟩
  refine ⟨(ht.trans (track_setSlot fd none)).congr (fun g => ?_) ?_, ?_, ?_⟩
  · simp [hofile, hf]
  · simp [hofile, hf]
  · rw [setSlot_ofile, hofile]
  · simp [FsState.setSlot, FsState.setProc, hvmas]

section

variable (hs : Sound s)
include hs

theorem genericOpen_ends (flags omode : BitVec 32) (res : OpenResult) :
    Ends Panic.counts (Kept p s) (genericOpen s p flags omode res) := by
  rcases h : Files.filealloc s with _ | ⟨f, s1⟩
  · simp only [genericOpen, h]
    exact Track.refl p s
  rcases h2 : fdalloc s1 p f with e | ⟨fd, s2⟩
  · simp only [genericOpen, h, h2]
    exact (hs.giveBack_ends h).bind fun _ ht => ht
  have t2 := hs.fdalloc_new h h2
  obtain ⟨hfree, rfl⟩ := fdalloc_eq_ok h2
  have t3 : ∀ fl, Track p s ((install s1 p fd f).setFlags f fl) (fun _ => 0) 0 :=
    fun fl => (t2.trans (track_setFlags fl)).congr (fun g => by ring) rfl
  simp only [genericOpen, h, h2]
  cases res with
  | noFs => exact t2
  | opened => exact t3 _
  | fails r =>
    have hslot : ∀ fl, (((install s1 p fd f).setFlags f fl).proc p).ofile fd =
        some f := fun fl => by simp [FsState.setFlags, FsState.setFile]
    refine (fileclose_slot_ends ?_ ?_ (hslot _)).bind fun s4 ht => ?_
    · rw [(t3 _).excess]
      exact Int.add_nonneg (hs.ref f) (Int.le_refl 0)
    · rw [(t3 _).surplus, hs.cnt, Int.add_zero]
    · exact ((t3 _).trans ht.1).congr (fun g => by ring) rfl

theorem sysDev_ends (omode : BitVec 32) (major : ℤ) :
    Ends Panic.counts (Kept p s) (sysDev s p omode major) := by
  unfold sysDev
  split
  · exact Track.refl p s
  rcases h : Files.filealloc s with _ | ⟨f, s1⟩
  · exact Track.refl p s
  cases h2 : fdalloc s1 p f with
  | error e =>
    simp only [h2]
    exact (hs.giveBack_ends h).bind fun _ ht => ht
  | ok x =>
    simp only [h2]
    exact ((hs.fdalloc_new h h2).trans (track_setFlags _)).congr (fun g => by ring) rfl

theorem install_filedup_ends {x : Fd} (hf : (s.proc p).ofile fd = some f)
    (hx : (s.proc p).ofile x = none) :
    Ends Panic.counts (fun s' => Track p s s' (fun _ => 0) 0)
      (filedup (install s p x f) f) := by
  have href : 1 ≤ ((install s p x f).file f).ref := by
    rw [install_file]
    exact one_le_ref_of_slot (hs.ref f) hf
  rw [filedup_eq href]
  exact ((track_install hx).trans (track_addRef 1)).congr (fun g => by ring) rfl

theorem sysDup_ends (n : ℤ) : Ends Panic.counts (Kept p s) (sysDup s p n) := by
  unfold sysDup
  split
  · exact Track.refl p s
  rename_i fd f hf
  rcases h : fdalloc s p f with e | ⟨x, s1⟩
  · exact Track.refl p s
  obtain ⟨hx, rfl⟩ := fdalloc_eq_ok h
  exact (install_filedup_ends hs (argfd_eq_some hf) hx).bind fun _ ht => ht

theorem fcntlDup_ends (hf : (s.proc p).ofile fd = some f) (arg : ℤ) :
    Ends Panic.counts (Kept p s) (fcntlDup s p f arg) := by
  unfold fcntlDup
  rcases h : fdallocLteq s p f arg with e | ⟨x, s1⟩
  · exact Track.refl p s
  obtain ⟨hx, rfl⟩ := fdallocLteq_eq_ok h
  exact (install_filedup_ends hs hf hx).bind fun _ ht => ht

/-- **`fcntl` keeps the accounts**, unless an `F_SETFD` finds a free descriptor. -/
theorem sysFcntl_ends (n : ℤ) (cmd : FcntlCmd) (arg : BitVec 64)
    (hset : cmd = .setfd → ∀ fd f k, argfd (s.proc p) n = some (fd, f) →
      toFd (arg.setWidth 32).toInt = some k → (s.proc p).ofile k ≠ none) :
    Ends Panic.counts (Kept p s) (sysFcntl s p n cmd arg) := by
  unfold sysFcntl
  split
  · exact Track.refl p s
  rename_i fd f hf
  cases cmd with
  | dupfd | dupfdCloexec => exact fcntlDup_ends hs (argfd_eq_some hf) _
  | setfl => exact track_setFlags _
  | setfd =>
    have hsame : (setfd s p f (arg.setWidth 32).toInt).2 = s := by
      unfold setfd
      split
      · rfl
      rename_i k hk
      split
      next => rfl
      next hnone => exact absurd hnone (hset rfl fd f k hf hk)
    have hkept : Track p s (setfd s p f (arg.setWidth 32).toInt).2 (fun _ => 0) 0 := by
      rw [hsame]
      exact Track.refl p s
    exact hkept
  | getfd | getfl | unknown => exact Track.refl p s

/-- `fdalloc_spec` closes what is at the descriptor. The file has another descriptor, and its
new one is still to be counted. -/
theorem fdallocSpec_ends {old : Fd} (hf : (s.proc p).ofile old = some f)
    (hne : old ≠ fd) :
    Ends Panic.counts (fun s' => Track p s s' (fun g => -unit (some f) g) 0 ∧
      1 ≤ (s'.file f).ref) (fdallocSpec s p f fd) := by
  unfold fdallocSpec
  rcases ho : (s.proc p).ofile fd with _ | g
  · refine ⟨track_install ho, ?_⟩
    rw [install_file]
    exact one_le_ref_of_slot (hs.ref f) hf
  refine (fileclose_slot_ends (hs.ref g) (hs.cnt p).ge ho).bind
    fun s1 ⟨ht, hofile, _⟩ => ?_
  have hfree : ((s1.setSlot p fd none).proc p).ofile fd = none := by
    rw [hofile, Function.update_self]
  have hold : ((s1.setSlot p fd none).proc p).ofile old = some f := by
    rw [hofile, Function.update_of_ne hne, hf]
  have hexc : 0 ≤ excess (s1.setSlot p fd none) f := by
    rw [ht.excess]
    exact Int.add_nonneg (hs.ref f) (Int.le_refl 0)
  refine ⟨(ht.trans (track_install hfree)).congr (fun g => by ring) rfl, ?_⟩
  rw [install_file]
  exact one_le_ref_of_slot hexc hold

theorem sysDup3_ends (oldfd newfd : ℤ) (flags : BitVec 32) :
    Ends Panic.counts (Kept p s) (sysDup3 s p oldfd newfd flags) := by
  unfold sysDup3
  split
  next old f new hf hnew =>
    split
    · exact Track.refl p s
    rename_i hne
    refine (fdallocSpec_ends hs (argfd_eq_some hf) (Ne.symm hne)).bind
      fun s1 ⟨ht, href⟩ => ?_
    have hflags : ∀ fl, 1 ≤ ((s1.setFlags f fl).file f).ref := fun fl => by
      simpa [FsState.setFlags, FsState.setFile] using href
    simp only [filedup_eq (hflags _)]
    exact ((ht.trans (track_setFlags _)).trans (track_addRef 1)).congr (fun g => by ring) rfl
  next => exact Track.refl p s

theorem sysClose_ends (n : ℤ) :
    Ends Panic.counts (Kept p s) (sysClose s p n) := by
  unfold sysClose
  split
  · exact Track.refl p s
  rename_i fd f hf
  have ht : Track p s (s.setSlot p fd none) (unit (some f)) 1 :=
    (track_setSlot fd none).congr (fun g => by simp [argfd_eq_some hf])
      (by simp [argfd_eq_some hf])
  have hcnt : 1 ≤ ((s.setSlot p fd none).proc p).ofileCnt := by
    have hcnt := ht.surplus
    rw [hs.cnt, surplus] at hcnt
    omega
  refine (fileclose_drop_ends (hs.one_le_ref ht (by simp)) hcnt).bind fun s1 ht1 => ?_
  exact (ht.trans ht1.1).congr (fun g => by ring) rfl

end

/-! ### Pipes -/

theorem fileclose_both_ends {f0 f1 : FileId} (drop0 drop1 : Bool)
    (hs : Sound s0) (ht : Track p s0 s (fun g => unit (some f0) g + unit (some f1) g)
      ((if drop0 then 1 else 0) + if drop1 then 1 else 0)) :
    Ends Panic.counts (fun s' => Track p s0 s' (fun _ => 0) 0)
      (fileclose s p f0 drop0 >>= fun s => fileclose s p f1 drop1) := by
  have hsur : surplus s p = (if drop0 then 1 else 0) + if drop1 then 1 else 0 := by
    rw [ht.surplus, hs.cnt, Int.zero_add]
  have href0 : 1 ≤ (s.file f0).ref := hs.one_le_ref ht (by
    have := unit_nonneg (some f1) f0
    rw [unit_self]
    omega)
  have hcnt0 : (if drop0 then 1 else 0) ≤ (s.proc p).ofileCnt := by
    unfold surplus at hsur
    split at hsur <;> split at hsur <;> simp_all <;> omega
  refine (fileclose_ends drop0 href0 hcnt0).bind fun s1 ⟨t1, _⟩ => ?_
  have t : Track p s0 s1 (unit (some f1)) (if drop1 then 1 else 0) := by
    refine (ht.trans t1).congr (fun g => by ring) ?_
    cases drop0 <;> simp
  have href1 : 1 ≤ (s1.file f1).ref := hs.one_le_ref t (by simp)
  have hcnt1 : (if drop1 then 1 else 0) ≤ (s1.proc p).ofileCnt := by
    have hsur1 := t.surplus
    rw [hs.cnt] at hsur1
    unfold surplus at hsur1
    omega
  refine (fileclose_ends drop1 href1 hcnt1).mono fun s2 ⟨t2, _⟩ => ?_
  refine (t.trans t2).congr (fun g => by ring) ?_
  cases drop1 <;> simp

theorem pipealloc_ends (hs : Sound s) (page : Bool) :
    Ends Panic.counts (fun r => match r.1 with
      | none => Track p s r.2 (fun _ => 0) 0
      | some (rf, wf) => Track p s r.2 (fun g => unit (some rf) g + unit (some wf) g) 0 ∧
          r.2.proc = s.proc) (pipealloc s p page) := by
  rcases h : Files.filealloc s with _ | ⟨f0, s1⟩
  · simp only [pipealloc, h]
    exact Track.refl p s
  obtain ⟨t1, hproc1, href, hcnt⟩ := hs.filealloc p h
  rcases h2 : Files.filealloc s1 with _ | ⟨f1, s2⟩
  · simp only [pipealloc, h, h2]
    refine (fileclose_keep_ends href (cnt_nonneg hcnt.ge)).bind fun s2 ht => ?_
    exact (t1.trans ht.1).congr (fun g => by ring) rfl
  obtain ⟨t2, hproc2⟩ := filealloc_track p h2
  have t : Track p s s2 (fun g => unit (some f0) g + unit (some f1) g) 0 := t1.trans t2
  simp only [pipealloc, h, h2]
  cases page with
  | true =>
    refine ⟨((t.trans (track_setFlags _)).trans (track_setFlags _)).congr
      (fun g => by ring) rfl, ?_⟩
    exact hproc2.trans hproc1
  | false =>
    have hboth := fileclose_both_ends false false hs t
    rw [← bind_assoc]
    exact hboth.bind fun s3 ht => ht

theorem fdFree_of_fdalloc {s : FsState} {e : ℤ} (h : fdalloc s p f = .error e) :
    fdFree (s.proc p) = none := by
  unfold fdalloc at h
  split at h
  next hnone => exact hnone
  next => nomatch h

variable {fd₁ : ℤ}

theorem pipeFds_ends {rf wf : FileId} (copied : Bool)
    (hs : Sound s0) (t1 : Track p s0 s (fun g => unit (some rf) g + unit (some wf) g) 0)
    (hfd1 : fdFree (s.proc p) = none → fd₁ < 0) :
    Ends Panic.counts (Kept p s0) (pipeFds s p rf wf fd₁ copied) := by
  cases h2 : fdalloc s p rf with
  | error e =>
    -- no descriptor: `fd1` has not been set
    have hdrop : decide (0 ≤ fd₁) = false := by simpa using hfd1 (fdFree_of_fdalloc h2)
    simp only [pipeFds, h2, hdrop]
    rw [← bind_assoc]
    exact (fileclose_both_ends false false hs t1).bind fun s3 ht => ht
  | ok x =>
    obtain ⟨fd0, s2⟩ := x
    obtain ⟨hfree0, rfl⟩ := fdalloc_eq_ok h2
    have t2 : Track p s0 (install s p fd0 rf) (unit (some wf)) 0 :=
      (t1.trans (track_install hfree0)).congr (fun g => by ring) rfl
    have hrf : ((install s p fd0 rf).proc p).ofile fd0 = some rf := by simp
    cases h3 : fdalloc (install s p fd0 rf) p wf with
    | error e =>
      have t3 := t2.trans (track_setSlot fd0 none)
      simp only [pipeFds, h2, h3]
      rw [← bind_assoc]
      refine (fileclose_both_ends true false hs (t3.congr (fun g => ?_) ?_)).bind
        fun s4 ht => ht
      · simp only [hrf, unit_none]
        ring
      · simp [hrf]
    | ok x =>
      obtain ⟨fd1, s3⟩ := x
      obtain ⟨hfree1, rfl⟩ := fdalloc_eq_ok h3
      have hne : fd0 ≠ fd1 := by
        rintro rfl
        rw [hrf] at hfree1
        nomatch hfree1
      have t3 : Track p s0 (install (install s p fd0 rf) p fd1 wf) (fun _ => 0) 0 :=
        (t2.trans (track_install hfree1)).congr (fun g => by ring) rfl
      simp only [pipeFds, h2, h3]
      cases copied with
      | true => exact t3
      | false =>
        have t4 := (t3.trans (track_setSlot fd0 none)).trans (track_setSlot fd1 none)
        rw [← bind_assoc]
        refine (fileclose_both_ends true true hs (t4.congr (fun g => ?_) ?_)).bind
          fun s5 ht => ht
        · simp [hne, hne.symm]
        · simp [hne, hne.symm]

/-- **`sys_pipe` keeps the accounts**, unless it finds no descriptor and reads the unset
`fd1` as one. -/
theorem sysPipe_ends (hs : Sound s) (page : Bool) (copied : Bool)
    (hfd1 : ∀ x s1, pipealloc s p page = .ok (some x, s1) →
      fdFree (s.proc p) = none → fd₁ < 0) :
    Ends Panic.counts (Kept p s) (sysPipe s p page fd₁ copied) := by
  have halloc := pipealloc_ends (p := p) hs page
  unfold sysPipe
  rcases h1 : pipealloc s p page with e | ⟨_ | ⟨rf, wf⟩, s1⟩
  · rw [h1] at halloc
    exact halloc
  · rw [h1] at halloc
    exact halloc
  rw [h1] at halloc
  obtain ⟨t1, hproc⟩ := halloc
  refine pipeFds_ends copied hs t1 fun hnone => ?_
  rw [hproc] at hnone
  exact hfd1 _ _ h1 hnone

end XVapor.Files
