import XVapor.FileProcs

/-!
# The Marks of Descriptors

An `execve` closes the descriptors whose file has `O_CLOEXEC` in its `flags`. The **mark** of a
descriptor is what an `execve` finds there. It is kept in the `struct file`, which all
duplicates of the descriptor share, those of forked processes included.

For every call this module says what it does to the marks of all descriptors, of all processes.
A file that is cleared when its last reference goes has no descriptor left, and a new file has
none yet, since in a sound state every descriptor is counted.

## Main results

* `execve_slots`: an `execve` closes the marked descriptors and no others.
* `doClone_marks`: a child has the marks of its parent.
-/

namespace XVapor.Files

open Function

variable {s s' : FsState} {p q np : ProcId} {f g : FileId} {fd x : Fd} {top : BitVec 64} {b : Bool}
  {r : ℤ}

/-! ### Marks -/

/-- The flags have `O_CLOEXEC`. -/
def isCloexec (flags : BitVec 32) : Bool := flags &&& O_CLOEXEC ≠ 0

theorem isCloexec_eq (flags : BitVec 32) : isCloexec flags = flags.getLsbD 19 := by
  have hone : O_CLOEXEC = BitVec.twoPow 32 19 := by decide
  rw [isCloexec, hone, BitVec.and_twoPow]
  cases flags.getLsbD 19 <;> decide

@[simp] theorem isCloexec_or (a c : BitVec 32) :
    isCloexec (a ||| c) = (isCloexec a || isCloexec c) := by
  simp [isCloexec_eq]

@[simp] theorem isCloexec_setMode (a m : BitVec 32) :
    isCloexec (setMode a m) = (isCloexec a || isCloexec m) := by
  have hmode : O_ACCMODE[19] = false := by decide
  simp [isCloexec_eq, setMode, hmode]

@[simp] theorem isCloexec_setOmode (a m : BitVec 32) : isCloexec (setOmode a m) = isCloexec a := by
  have hrd : ∀ a, isCloexec (setReadable a) = isCloexec a := fun a => by
    have h0 : isCloexec 0#32 = false := by decide
    have h2 : isCloexec O_RDWR = false := by decide
    unfold setReadable
    split
    · simp [h2]
    · split <;> simp [h0]
  have hwr : ∀ a, isCloexec (setWritable a) = isCloexec a := fun a => by
    have h2 : isCloexec O_RDWR = false := by decide
    unfold setWritable
    split <;> simp [h2]
  unfold setOmode
  dsimp only
  split
  all_goals
    try rw [hwr]
    split
    · rw [hrd]
    · rfl

/-- What an `execve` finds for a descriptor that is open. -/
def mark (s : FsState) (q : ProcId) (fd : Fd) : Option Bool :=
  ((s.proc q).ofile fd).map fun f => isCloexec (s.file f).flags

theorem mark_eq_some : mark s q fd = some b ↔
    ∃ f, (s.proc q).ofile fd = some f ∧ isCloexec (s.file f).flags = b :=
  Option.map_eq_some_iff

theorem mark_eq_none : mark s q fd = none ↔ (s.proc q).ofile fd = none :=
  Option.map_eq_none_iff

/-- Descriptors are closed, and the marks of the others stay. -/
def Fewer (s s' : FsState) : Prop := ∀ q fd b, mark s' q fd = some b → mark s q fd = some b

theorem Fewer.of_slots
    (h : ∀ q fd f, (s'.proc q).ofile fd = some f → (s.proc q).ofile fd = some f ∧
      (s'.file f).flags = (s.file f).flags) : Fewer s s' := by
  intro q fd b hb
  obtain ⟨f, hf, rfl⟩ := mark_eq_some.1 hb
  obtain ⟨hslot, hflags⟩ := h q fd f hf
  exact mark_eq_some.2 ⟨f, hslot, by rw [hflags]⟩

theorem Fewer.refl (s : FsState) : Fewer s s := fun _ _ _ h => h

/-! ### Files that are closed -/

/-- Descriptors are closed, and files whose last reference goes are cleared. -/
structure Drops (s s' : FsState) : Prop where
  slot : ∀ q fd f, (s'.proc q).ofile fd = some f → (s.proc q).ofile fd = some f
  flags : ∀ f, (s'.file f).flags = (s.file f).flags ∨ (s'.file f).ref = 0

theorem Drops.refl (s : FsState) : Drops s s := ⟨fun _ _ _ h => h, fun _ => .inl rfl⟩

/-- A file that has a descriptor has not been cleared. -/
theorem Drops.fewer (h : Drops s s') (hs : ∀ f, 0 ≤ excess s' f) : Fewer s s' := by
  refine .of_slots fun q fd f hf => ⟨h.slot q fd f hf, (h.flags f).resolve_right fun href => ?_⟩
  have hone := one_le_ref_of_slot (hs f) hf
  omega

variable {drop walks : Bool}

/-- A file is cleared only with its last reference. -/
theorem fileclose_cases (h : fileclose s p f drop = .ok s') :
    (∀ q, (s'.proc q).ofile = (s.proc q).ofile) ∧ (∀ g ≠ f, s'.file g = s.file g) ∧
      1 ≤ (s.file f).ref ∧
      ((s'.file f).flags = (s.file f).flags ∨ (s'.file f).ref = 0) := by
  obtain ⟨s1, hs1, hslot, hfile⟩ : ∃ s1, (if drop then s.addCnt p (-1) else s) = s1 ∧
      (∀ q, (s1.proc q).ofile = (s.proc q).ofile) ∧ s1.file = s.file := by
    refine ⟨_, rfl, fun q => ?_, ?_⟩
    · obtain _ | _ := drop
      · rfl
      obtain rfl | hq := eq_or_ne q p
      · simp [FsState.addCnt, FsState.setProc]
      · simp [FsState.addCnt, FsState.setProc, hq]
    · cases drop <;> rfl
  rw [fileclose, hs1] at h
  obtain ⟨-, h⟩ := ite_error_ok.1 h
  obtain ⟨href, h⟩ := ite_error_ok.1 h
  rw [← hfile]
  split at h
  · cases h
    exact ⟨hslot, fun g hg => by simp [FsState.addRef, FsState.setFile, hg], by omega,
      .inl (by simp [FsState.addRef, FsState.setFile])⟩
  cases h
  exact ⟨hslot, fun g hg => by simp [FsState.setFile, hg], by omega,
    .inr (by simp [FsState.setFile])⟩

variable {s1 s2 : FsState}

theorem Drops.fileclose (h : Drops s s1) (hc : Files.fileclose s1 p f drop = .ok s') : Drops s s' := by
  obtain ⟨hslot, hother, href, hf⟩ := fileclose_cases hc
  refine ⟨fun q fd g hg => h.slot q fd g (hslot q ▸ hg), fun g => ?_⟩
  obtain rfl | hg := eq_or_ne g f
  · obtain hkept | hzero := h.flags g
    · rwa [hkept] at hf
    · omega
  · rw [hother g hg]
    exact h.flags g

theorem setSlot_slot (o : Option FileId) : ((s.setSlot p fd o).proc q).ofile x =
    if q = p ∧ x = fd then o else (s.proc q).ofile x := by
  obtain rfl | hq := eq_or_ne q p
  · rw [setSlot_ofile, update_apply]
    simp
  · simp [FsState.setSlot, FsState.setProc, hq]

theorem Drops.setSlot (h : Drops s s1) (p : ProcId) (fd : Fd) :
    Drops s (s1.setSlot p fd none) := by
  refine ⟨fun q x g hg => ?_, h.flags⟩
  rw [setSlot_slot] at hg
  split at hg
  · nomatch hg
  · exact h.slot q x g hg

/-! ### Files that are new -/

theorem setFile_of_ne {F : File} (h : g ≠ f) : (s.setFile f F).file g = s.file g :=
  update_of_ne h _ _

/-- A new file has no descriptor. -/
theorem filealloc_cases (hs : ∀ f, 0 ≤ excess s f) (h : filealloc s = some (f, s')) :
    s' = s.setFile f ⟨1, 0⟩ ∧ ∀ q fd, (s.proc q).ofile fd ≠ some f := by
  obtain ⟨f', hf, heq⟩ := Option.map_eq_some_iff.1 h
  obtain ⟨rfl, rfl⟩ : f' = f ∧ s.setFile f' ⟨1, 0⟩ = s' := by simpa using heq
  have href : (s.file f').ref = 0 := by simpa using searchFrom_eq_some hf
  refine ⟨rfl, fun q fd hslot => ?_⟩
  have hone := one_le_ref_of_slot (hs f') hslot
  omega

/-- One descriptor more, with the mark `b`. -/
structure Adds (p : ProcId) (fd : Fd) (b : Bool) (s s' : FsState) : Prop where
  free : (s.proc p).ofile fd = none
  new : mark s' p fd = some b
  rest : ∀ q x, ¬ (q = p ∧ x = fd) → mark s' q x = mark s q x

theorem install_slot : ((install s p fd f).proc q).ofile x =
    if q = p ∧ x = fd then some f else (s.proc q).ofile x := by
  obtain rfl | hq := eq_or_ne q p
  · rw [install_ofile, update_apply]
    simp
  · simp [install, FsState.setSlot, FsState.addCnt, FsState.setProc, hq]

theorem adds_of_install (hfree : (s.proc p).ofile fd = none)
    (hslot : ∀ q, (s'.proc q).ofile = ((install s p fd f).proc q).ofile)
    (hb : isCloexec (s'.file f).flags = b)
    (hkept : ∀ q x g, (s.proc q).ofile x = some g → (s'.file g).flags = (s.file g).flags) :
    Adds p fd b s s' := by
  refine ⟨hfree, mark_eq_some.2 ⟨f, ?_, hb⟩, fun q x hne => ?_⟩
  · rw [hslot, install_slot, if_pos ⟨rfl, rfl⟩]
  · rw [mark, hslot, install_slot, if_neg hne, mark]
    cases hx : (s.proc q).ofile x with
    | none => rfl
    | some g => rw [Option.map_some, Option.map_some, hkept q x g hx]

theorem Sound.fewer_giveBack (hs : Sound s)
    (ha : Files.filealloc s = some (f, s1)) (hc : fileclose s1 p f drop = .ok s') :
    Fewer s s' := by
  obtain ⟨rfl, hnew⟩ := filealloc_cases hs.ref ha
  obtain ⟨hslot, hfile, -⟩ := fileclose_cases hc
  refine .of_slots fun q x g hg => ?_
  rw [hslot] at hg
  have hgf : g ≠ f := fun heq => hnew q x (heq ▸ hg)
  exact ⟨hg, by rw [hfile g hgf, setFile_of_ne hgf]⟩

/-- A new file gets a new descriptor. -/
theorem Sound.adds_new (hs : Sound s) (ha : Files.filealloc s = some (f, s1))
    (hd : fdalloc s1 p f = .ok (x, s2)) (flags : BitVec 32) :
    Adds p x (isCloexec flags) s (s2.setFlags f flags) := by
  obtain ⟨rfl, hnew⟩ := filealloc_cases hs.ref ha
  obtain ⟨hfree, rfl⟩ := fdalloc_eq_ok hd
  refine adds_of_install hfree (fun _ => rfl) ?_ fun q x g hg => ?_
  · simp [FsState.setFlags, FsState.setFile]
  · have hgf : g ≠ f := fun heq => hnew q x (heq ▸ hg)
    rw [FsState.setFlags, setFile_of_ne hgf, install_file, setFile_of_ne hgf]

theorem Sound.new_flags (hs : Sound s) (ha : Files.filealloc s = some (f, s1))
    (hd : fdalloc s1 p f = .ok (x, s2)) : (s2.file f).flags = 0 := by
  obtain ⟨rfl, -⟩ := filealloc_cases hs.ref ha
  obtain ⟨-, rfl⟩ := fdalloc_eq_ok hd
  simp [FsState.setFile]

variable {flags omode : BitVec 32}

/-- **What `open` does to the marks.** The descriptor that stays when there is no file system has
a file without flags. -/
theorem genericOpen_cases {res : OpenResult} (hs : Sound s)
    (h : genericOpen s p flags omode res = .ok (r, s')) :
    Fewer s s' ∨ ∃ f s1 x s2, filealloc s = some (f, s1) ∧ fdalloc s1 p f = .ok (x, s2) ∧
      ((res = .noFs ∧ Adds p x false s s') ∨ (res ≠ .noFs ∧ Adds p x (isCloexec flags) s s')) := by
  rcases ha : filealloc s with _ | ⟨f, s1⟩
  · simp only [genericOpen, ha] at h
    exact .inl ((ok_pair.1 h).2 ▸ .refl s)
  rcases hd : fdalloc s1 p f with e | ⟨x, s2⟩
  · simp only [genericOpen, ha, hd] at h
    obtain ⟨s2, hclose, h⟩ := bind_eq_ok.1 h
    obtain ⟨-, rfl⟩ := ok_pair.1 h
    exact .inl (hs.fewer_giveBack ha hclose)
  have hzero := hs.new_flags ha hd
  simp only [genericOpen, ha, hd, hzero] at h
  cases res with
  | noFs =>
    obtain ⟨-, rfl⟩ := ok_pair.1 h
    have hadds : Adds p x (isCloexec 0) s (s2.setFlags f 0) := hs.adds_new ha hd 0
    rw [← hzero, FsState.setFlags, FsState.setFile, update_eq_self] at hadds
    exact .inr ⟨f, s1, x, s2, rfl, hd, .inl ⟨rfl, by rwa [hzero] at hadds⟩⟩
  | opened =>
    obtain ⟨-, rfl⟩ := ok_pair.1 h
    have hadds := hs.adds_new ha hd (setOmode (0 ||| flags) omode)
    rw [isCloexec_setOmode, isCloexec_or] at hadds
    exact .inr ⟨f, s1, x, s2, rfl, hd, .inr ⟨by simp, hadds⟩⟩
  | fails e =>
    obtain ⟨s3, hclose, h⟩ := bind_eq_ok.1 h
    obtain ⟨-, rfl⟩ := ok_pair.1 h
    obtain ⟨rfl, hnew⟩ := filealloc_cases hs.ref ha
    obtain ⟨hfree, rfl⟩ := fdalloc_eq_ok hd
    obtain ⟨hslot, hfile, -⟩ := fileclose_cases hclose
    refine .inl (.of_slots fun q y g hg => ?_)
    rw [setSlot_slot] at hg
    obtain ⟨hne, hg⟩ := Option.ite_none_left_eq_some.1 hg
    have hg : (s.proc q).ofile y = some g := by
      rw [hslot, FsState.setFlags, FsState.setFile, install_slot, if_neg hne] at hg
      exact hg
    have hgf : g ≠ f := fun heq => hnew q y (heq ▸ hg)
    have hkept : s3.file g = s.file g := by
      rw [hfile g hgf, FsState.setFlags, setFile_of_ne hgf, install_file,
        setFile_of_ne hgf]
    exact ⟨hg, congrArg File.flags hkept⟩

theorem sysDev_cases {major : ℤ} (hs : Sound s)
    (h : sysDev s p omode major = .ok (r, s')) : Fewer s s' ∨ ∃ x, Adds p x false s s' := by
  unfold sysDev at h
  split at h
  · exact .inl ((ok_pair.1 h).2 ▸ .refl s)
  rcases ha : filealloc s with _ | ⟨f, s1⟩
  · simp only [ha] at h
    exact .inl ((ok_pair.1 h).2 ▸ .refl s)
  rcases hd : fdalloc s1 p f with e | ⟨x, s2⟩
  · simp only [ha, hd] at h
    obtain ⟨s2, hclose, h⟩ := bind_eq_ok.1 h
    obtain ⟨-, rfl⟩ := ok_pair.1 h
    exact .inl (hs.fewer_giveBack ha hclose)
  simp only [ha, hd, hs.new_flags ha hd] at h
  obtain ⟨-, rfl⟩ := ok_pair.1 h
  have hadds := hs.adds_new ha hd (setOmode 0 omode)
  rw [isCloexec_setOmode] at hadds
  exact .inr ⟨x, hadds⟩

/-! ### Duplicates -/

theorem setFlags_self (flags : BitVec 32) : ((s.setFlags f flags).file f).flags = flags := by
  simp [FsState.setFlags, FsState.setFile]

theorem addRef_flags (d : ℤ) (g : FileId) :
    ((s.addRef f d).file g).flags = (s.file g).flags := by
  obtain rfl | hg := eq_or_ne g f
  · simp [FsState.addRef, FsState.setFile]
  · rw [FsState.addRef, setFile_of_ne hg]

theorem filedup_eq_ok (h : filedup s f = .ok s') : s' = s.addRef f 1 := by
  unfold filedup at h
  split at h
  · nomatch h
  · exact (Except.ok.inj h).symm

theorem adds_filedup (hfree : (s.proc p).ofile x = none)
    (h : filedup (install s p x f) f = .ok s') :
    Adds p x (isCloexec (s.file f).flags) s s' := by
  obtain rfl := filedup_eq_ok h
  exact adds_of_install hfree (fun _ => rfl) (by rw [addRef_flags, install_file])
    fun q x g _ => addRef_flags 1 g

variable {n : ℤ}

/-- `dup` adds a descriptor with the mark of the old one. -/
theorem sysDup_cases (h : sysDup s p n = .ok (r, s')) :
    Fewer s s' ∨ ∃ fd f x s1, argfd (s.proc p) n = some (fd, f) ∧ fdalloc s p f = .ok (x, s1) ∧
      Adds p x (isCloexec (s.file f).flags) s s' := by
  unfold sysDup at h
  split at h
  · exact .inl ((ok_pair.1 h).2 ▸ .refl s)
  rename_i fd f hf
  rcases hd : fdalloc s p f with e | ⟨x, s1⟩
  · simp only [hd] at h
    exact .inl ((ok_pair.1 h).2 ▸ .refl s)
  obtain ⟨hfree, rfl⟩ := fdalloc_eq_ok hd
  simp only [hd] at h
  obtain ⟨s2, hdup, h⟩ := bind_eq_ok.1 h
  obtain ⟨-, rfl⟩ := ok_pair.1 h
  exact .inr ⟨fd, f, x, _, hf, hd, adds_filedup hfree hdup⟩

theorem fcntlDup_cases (h : fcntlDup s p f n = .ok (r, s')) :
    Fewer s s' ∨ ∃ x s1, fdallocLteq s p f n = .ok (x, s1) ∧
      Adds p x (isCloexec (s.file f).flags) s s' := by
  unfold fcntlDup at h
  rcases hd : fdallocLteq s p f n with e | ⟨x, s1⟩
  · simp only [hd] at h
    exact .inl ((ok_pair.1 h).2 ▸ .refl s)
  obtain ⟨hfree, rfl⟩ := fdallocLteq_eq_ok hd
  simp only [hd] at h
  obtain ⟨s2, hdup, h⟩ := bind_eq_ok.1 h
  obtain ⟨-, rfl⟩ := ok_pair.1 h
  exact .inr ⟨x, _, rfl, adds_filedup hfree hdup⟩

/-- All descriptors of the file get the mark `b`. -/
def Marks (f : FileId) (b : Bool) (s s' : FsState) : Prop :=
  ∀ q x, mark s' q x = if (s'.proc q).ofile x = some f then some b else mark s q x

theorem marks_setFlags (flags : BitVec 32) :
    Marks f (isCloexec flags) s (s.setFlags f flags) := by
  intro q x
  by_cases hf : ((s.setFlags f flags).proc q).ofile x = some f
  · rw [if_pos hf, mark, hf, Option.map_some, setFlags_self]
  · rw [if_neg hf, mark, mark]
    refine Option.map_congr fun g hg => ?_
    have hgf : g ≠ f := fun heq => hf (heq ▸ hg)
    rw [FsState.setFlags, setFile_of_ne hgf]

theorem fdallocSpec_cases (h : fdallocSpec s p f fd = .ok s1) :
    (∀ q x, (s1.proc q).ofile x = if q = p ∧ x = fd then some f else (s.proc q).ofile x) ∧
      ∀ g, (s1.file g).flags = (s.file g).flags ∨ (s1.file g).ref = 0 := by
  unfold fdallocSpec at h
  rcases ho : (s.proc p).ofile fd with _ | g
  · simp only [ho, Except.ok.injEq] at h
    obtain rfl := h
    exact ⟨fun q x => install_slot, fun g => .inl rfl⟩
  simp only [ho] at h
  obtain ⟨s2, hclose, h⟩ := bind_eq_ok.1 h
  cases h
  obtain ⟨hslot, hother, -, hg⟩ := fileclose_cases hclose
  refine ⟨fun q x => ?_, fun k => ?_⟩
  · rw [install_slot]
    split
    next => rfl
    next hne => rw [setSlot_slot, if_neg hne, hslot]
  · obtain rfl | hk := eq_or_ne k g
    · exact hg
    · exact .inl (congrArg File.flags (hother k hk))

theorem marks_of_spec
    (hslot : ∀ q x, (s1.proc q).ofile x = if q = p ∧ x = fd then some f else (s.proc q).ofile x)
    (hflags : ∀ g, (s1.file g).flags = (s.file g).flags ∨ (s1.file g).ref = 0)
    (hs' : ∀ g, 0 ≤ excess ((s1.setFlags f flags).addRef f 1) g) :
    Marks f (isCloexec flags) s ((s1.setFlags f flags).addRef f 1) := by
  intro q x
  have hsame : (((s1.setFlags f flags).addRef f 1).proc q).ofile x = (s1.proc q).ofile x := rfl
  rw [mark, hsame]
  split
  · rename_i hx
    rw [hx, Option.map_some, addRef_flags, setFlags_self]
  rename_i hx
  have hout : ¬ (q = p ∧ x = fd) := fun hin => hx (by rw [hslot, if_pos hin])
  have hkept : (s1.proc q).ofile x = (s.proc q).ofile x := by rw [hslot, if_neg hout]
  rw [hkept, mark]
  refine Option.map_congr fun g hg => ?_
  have hgf : g ≠ f := fun heq => hx (by rw [hkept, hg, heq])
  -- the file has a descriptor, so it was not cleared
  have hone : 1 ≤ (((s1.setFlags f flags).addRef f 1).file g).ref :=
    one_le_ref_of_slot (hs' g) (hsame.trans (hkept.trans hg))
  rw [FsState.addRef, setFile_of_ne hgf, FsState.setFlags, setFile_of_ne hgf] at hone ⊢
  rw [(hflags g).resolve_right (by omega)]

theorem isCloexec_dup3 (flags old : BitVec 32) :
    isCloexec (if flags &&& O_CLOEXEC ≠ 0 then old ||| O_CLOEXEC else old &&& ~~~O_CLOEXEC) =
      isCloexec flags := by
  have hbit : O_CLOEXEC[19] = true := by decide
  split
  next h => rw [isCloexec_eq, isCloexec, decide_eq_true h]; simp [hbit]
  next h => rw [isCloexec_eq, isCloexec, decide_eq_false h]; simp [hbit]

/-- **What `dup3` does to the marks**: of all descriptors of the file. -/
theorem sysDup3_cases {oldfd newfd : ℤ} (hs' : ∀ f, 0 ≤ excess s' f)
    (h : sysDup3 s p oldfd newfd flags = .ok (r, s')) :
    (Fewer s s' ∧ r < 0) ∨ ∃ fd f new, argfd (s.proc p) oldfd = some (fd, f) ∧
      toFd newfd = some new ∧ new ≠ fd ∧ r = new ∧
      (∀ q x, (s'.proc q).ofile x =
        if q = p ∧ x = new then some f else (s.proc q).ofile x) ∧
      Marks f (isCloexec flags) s s' := by
  have hfail : ∀ e : ℤ, (.ok (e, s) : Except Panic (ℤ × FsState)) = .ok (r, s') → e < 0 →
      Fewer s s' ∧ r < 0 := by
    intro e h he
    obtain ⟨rfl, rfl⟩ := ok_pair.1 h
    exact ⟨.refl s, he⟩
  unfold sysDup3 at h
  split at h
  next fd f new hf hnew =>
    split at h
    · exact .inl (hfail _ h (by decide))
    rename_i hne
    right
    obtain ⟨s1, hspec, h⟩ := bind_eq_ok.1 h
    obtain ⟨hslot, hflags⟩ := fdallocSpec_cases hspec
    obtain ⟨s2, hdup, h⟩ := bind_eq_ok.1 h
    obtain ⟨rfl, rfl⟩ := ok_pair.1 h
    obtain rfl := filedup_eq_ok hdup
    have hmarks := marks_of_spec hslot hflags hs'
    rw [isCloexec_dup3] at hmarks
    exact ⟨fd, f, new, hf, hnew, hne, rfl, hslot, hmarks⟩
  next => exact .inl (hfail _ h (by decide))

/-! ### The other calls -/

/-- The descriptors and the flags are as before. -/
structure Alike (s s' : FsState) : Prop where
  slot : ∀ q, (s'.proc q).ofile = (s.proc q).ofile
  flags : ∀ f, (s'.file f).flags = (s.file f).flags

theorem Alike.trans {s'' : FsState} (h : Alike s s') (h' : Alike s' s'') : Alike s s'' :=
  ⟨fun q => (h'.slot q).trans (h.slot q), fun f => (h'.flags f).trans (h.flags f)⟩

theorem Alike.mark (h : Alike s s') : Files.mark s' = Files.mark s := by
  funext q x
  rw [Files.mark, h.slot, Files.mark]
  exact Option.map_congr fun f _ => by rw [h.flags]

theorem Alike.fewer (h : Alike s s') : Fewer s s' := fun _ _ _ hb => h.mark ▸ hb

theorem alike_setProc (P : Proc) (h : P.ofile = (s.proc p).ofile) : Alike s (s.setProc p P) := by
  refine ⟨fun q => ?_, fun _ => rfl⟩
  obtain rfl | hq := eq_or_ne q p
  · simpa [FsState.setProc] using h
  · simp [FsState.setProc, hq]

theorem alike_setVmas (p : ProcId) (vmas : List Vma) : Alike s (s.setVmas p vmas) :=
  alike_setProc { s.proc p with vmas := vmas } rfl

theorem alike_refVma (o : Option FileId) (d : ℤ) : Alike s (refVma s o d) := by
  cases o with
  | none => exact ⟨fun _ => rfl, fun _ => rfl⟩
  | some f => exact ⟨fun _ => rfl, addRef_flags d⟩

theorem doMmap_fewer (length : BitVec 64) (prot flags : BitVec 32) (fp : Option FileId)
    (page : Bool) : Fewer s (doMmap top s p length prot flags fp page).2 := by
  unfold doMmap
  dsimp only
  split
  · exact .refl s
  split
  · exact .refl s
  have hmapped := (alike_setProc (s := s)
    { s.proc p with maxVma := pgRoundDown ((s.proc p).maxVma - length) } rfl).trans
    (alike_refVma fp 1)
  split
  · exact hmapped.fewer
  · exact (hmapped.trans (alike_setVmas p _)).fewer

theorem sysMmap_fewer (length prot flags : BitVec 32) (n : ℤ) (page : Bool) :
    Fewer s (sysMmap top s p length prot flags n page).2 := by
  unfold sysMmap
  split
  · exact doMmap_fewer _ _ _ _ _
  split
  · exact .refl s
  · exact doMmap_fewer _ _ _ _ _

theorem doMunmap_fewer {addr : BitVec 64} {len : BitVec 32}
    (h : doMunmap s p addr len walks = .ok (r, s')) : Fewer s s' := by
  unfold doMunmap at h
  split at h
  · obtain ⟨-, rfl⟩ := ok_pair.1 h
    exact .refl s
  rename_i before v after _
  obtain ⟨-, h⟩ := ite_error_ok.1 h
  dsimp only at h
  split at h
  · obtain ⟨-, rfl⟩ := ok_pair.1 h
    exact ((alike_refVma v.file (-1)).trans (alike_setVmas p _)).fewer
  obtain ⟨-, rfl⟩ := ok_pair.1 h
  exact (alike_setVmas p _).fewer

/-- `close` drops a descriptor. -/
theorem sysClose_drops (h : sysClose s p n = .ok (r, s')) : Drops s s' := by
  unfold sysClose at h
  split at h
  · obtain ⟨-, rfl⟩ := ok_pair.1 h
    exact .refl s
  rename_i fd f _
  obtain ⟨s1, hclose, h⟩ := bind_eq_ok.1 h
  obtain ⟨-, rfl⟩ := ok_pair.1 h
  exact ((Drops.refl s).setSlot p fd).fileclose hclose

/-- `exit` drops all descriptors. -/
theorem procExit_drops (h : procExit s p walks = .ok (r, s')) : Drops s s' := by
  unfold procExit at h
  obtain ⟨-, h⟩ := ite_error_ok.1 h
  obtain ⟨s1, hloop, h⟩ := bind_eq_ok.1 h
  have hdrops : Drops s s1 := by
    refine foldlM_invariant (I := fun _ s' => Drops s s') ?_ (.refl s) hloop
    intro fd _ s2 s3 hs2 hs3
    unfold closeSlot at hs3
    split at hs3
    · exact Except.ok.inj hs3 ▸ hs2
    split at hs3
    · obtain ⟨s4, hclose, hs3⟩ := bind_eq_ok.1 hs3
      exact Except.ok.inj hs3 ▸ (hs2.fileclose hclose).setSlot p fd
    · exact Except.ok.inj hs3 ▸ hs2.setSlot p fd
  obtain ⟨-, h⟩ := ite_error_ok.1 h
  obtain ⟨-, rfl⟩ := ok_pair.1 h
  have halike := alike_setProc { s1.proc p with vmas := [], state := .zombie } rfl
  exact ⟨fun q fd f hf => hdrops.slot q fd f (halike.slot q ▸ hf), hdrops.flags⟩

/-! ### `execve` -/

/-- The loop of `execve` closes the marked descriptors. -/
theorem closeCloexec_slots (hexc : ∀ f, 0 ≤ excess s f) (hsur : 0 ≤ surplus s p)
    (h : (List.finRange NOFILE).foldlM (closeCloexec p) s = .ok s') :
    Drops s s' ∧ ∀ x, (s'.proc p).ofile x =
      if mark s p x = some true then none else (s.proc p).ofile x := by
  have hloop := foldlM_invariant (I := fun fds s' => Drops s s' ∧ Track p s s' (fun _ => 0) 0 ∧
      fds.Nodup ∧ ∀ x, (s'.proc p).ofile x =
        if x ∉ fds ∧ mark s p x = some true then none else (s.proc p).ofile x)
    ?_ ⟨.refl s, .refl p s, List.nodup_finRange _, fun x => by simp⟩ h
  · obtain ⟨hdrops, -, -, hslot⟩ := hloop
    exact ⟨hdrops, fun x => by simpa using hslot x⟩
  · rintro fd fds s1 s2 ⟨hdrops, t, hnodup, hslot⟩ hs2
    obtain ⟨hnotin, hnodup⟩ := List.nodup_cons.1 hnodup
    have hexc1 : ∀ f, 0 ≤ excess s1 f := fun f => by
      rw [t.excess, Int.add_zero]
      exact hexc f
    have hsur1 : 0 ≤ surplus s1 p := by
      rw [t.surplus, Int.add_zero]
      exact hsur
    have hhere : (s1.proc p).ofile fd = (s.proc p).ofile fd := by rw [hslot, if_neg (by simp)]
    have hmark : mark s1 p fd = mark s p fd := by
      cases hm : mark s1 p fd with
      | none => rw [eq_comm, mark_eq_none, ← hhere, ← mark_eq_none, hm]
      | some b => rw [hdrops.fewer hexc1 p fd b hm]
    -- the other descriptors, once it is known what the round does with this one
    have hround : ∀ {o : Option FileId},
        o = (if mark s p fd = some true then none else (s.proc p).ofile fd) → ∀ x,
        update (s1.proc p).ofile fd o x =
          if x ∉ fds ∧ mark s p x = some true then none else (s.proc p).ofile x := by
      rintro o rfl x
      rw [update_apply]
      split
      next hx => simp [hx, hnotin]
      next hx => simp [hslot, hx]
    have hstay : mark s p fd ≠ some true → ∀ x, (s1.proc p).ofile x =
        if x ∉ fds ∧ mark s p x = some true then none else (s.proc p).ofile x := by
      intro hne
      rw [← update_eq_self fd (s1.proc p).ofile]
      exact hround (by rw [if_neg hne, hhere])
    unfold closeCloexec at hs2
    split at hs2
    next hnone =>
      cases hs2
      refine ⟨hdrops, t, hnodup, hstay ?_⟩
      rw [← hmark, mark_eq_none.2 hnone]
      exact nofun
    next f hf =>
      have hmf : mark s p fd = some (isCloexec (s1.file f).flags) := by
        rw [← hmark]
        exact mark_eq_some.2 ⟨f, hf, rfl⟩
      split at hs2
      next hbit =>
        obtain ⟨s3, hclose, hs2⟩ := bind_eq_ok.1 hs2
        cases hs2
        have hends := fileclose_slot_ends (hexc1 f) hsur1 hf
        rw [hclose] at hends
        obtain ⟨t3, hofile, -⟩ := hends
        refine ⟨(hdrops.fileclose hclose).setSlot p fd, (t.trans t3).congr (fun _ => rfl) rfl,
          hnodup, fun x => ?_⟩
        rw [hofile]
        refine hround ?_ x
        rw [hmf, if_pos (by rw [isCloexec, decide_eq_true hbit])]
      next hbit =>
        cases hs2
        refine ⟨hdrops, t, hnodup, hstay ?_⟩
        rw [hmf, isCloexec, decide_eq_false hbit]
        exact nofun

theorem filealloc_alike (hs : ∀ f, 0 ≤ excess s f) (h : filealloc s = some (f, s')) :
    (∀ q, (s'.proc q).ofile = (s.proc q).ofile) ∧ mark s' = mark s := by
  obtain ⟨rfl, hnew⟩ := filealloc_cases hs h
  refine ⟨fun _ => rfl, ?_⟩
  funext q x
  refine Option.map_congr fun g hg => ?_
  have hgf : g ≠ f := fun heq => hnew q x (heq ▸ hg)
  rw [setFile_of_ne hgf]

/-- **What `execve` does to the descriptors**: those that are marked are closed, and no others. -/
theorem execve_slots {needDynamic commits : Bool} (hs : Sound s)
    (h : Files.execve s p needDynamic commits = .ok (r, s')) :
    Fewer s s' ∧ (r = 0 → ∀ x, (s'.proc p).ofile x =
      if mark s p x = some true then none else (s.proc p).ofile x) := by
  have hfail : ∀ {s1 : FsState}, mark s1 = mark s →
      (.ok (-1, s1) : Except Panic (ℤ × FsState)) = .ok (r, s') →
      ∀ {Q : Prop}, Fewer s s' ∧ (r = 0 → Q) := by
    intro s1 hm h Q
    obtain ⟨rfl, rfl⟩ := ok_pair.1 h
    exact ⟨fun q x b hb => hm ▸ hb, fun h0 => absurd h0 (by decide)⟩
  unfold Files.execve at h
  rcases ha : filealloc s with _ | ⟨f, s1⟩
  · simp only [ha] at h
    exact hfail rfl h
  simp only [ha] at h
  have t1 := (filealloc_track p ha).1
  obtain ⟨hslot1, hmark1⟩ := filealloc_alike hs.ref ha
  have hexc1 : ∀ g, 0 ≤ excess s1 g := fun g => by
    rw [t1.excess]
    exact Int.add_nonneg (hs.ref g) (unit_nonneg _ g)
  rcases hb : (if needDynamic then (filealloc s1).map Prod.snd else some s1) with _ | s2
  · simp only [hb] at h
    exact hfail hmark1 h
  simp only [hb] at h
  obtain ⟨hslot2, hmark2, hexc2, hsur2⟩ : (∀ q, (s2.proc q).ofile = (s.proc q).ofile) ∧
      mark s2 = mark s ∧ (∀ g, 0 ≤ excess s2 g) ∧ surplus s2 p = 0 := by
    have hsur1 : surplus s1 p = 0 := by rw [t1.surplus, hs.cnt, Int.add_zero]
    obtain _ | _ := needDynamic
    · obtain rfl : s1 = s2 := by simpa using hb
      exact ⟨hslot1, hmark1, hexc1, hsur1⟩
    obtain ⟨⟨g, s3⟩, h3, rfl⟩ := Option.map_eq_some_iff.1 hb
    have t3 := (filealloc_track p h3).1
    obtain ⟨hslot3, hmark3⟩ := filealloc_alike hexc1 h3
    refine ⟨fun q => (hslot3 q).trans (hslot1 q), hmark3.trans hmark1, fun k => ?_, ?_⟩
    · rw [t3.excess]
      exact Int.add_nonneg (hexc1 k) (unit_nonneg _ k)
    · rw [t3.surplus, hsur1, Int.add_zero]
  split at h
  next =>
    obtain ⟨s3, hloop, h⟩ := bind_eq_ok.1 h
    obtain ⟨-, rfl⟩ := ok_pair.1 h
    have hends := closeCloexec_ends hexc2 hsur2.ge (List.finRange NOFILE)
    rw [hloop] at hends
    have t3 : Track p s2 s3 (fun _ => 0) 0 := hends
    obtain ⟨hdrops, hclosed⟩ := closeCloexec_slots hexc2 hsur2.ge hloop
    refine ⟨fun q x b hm => ?_, fun _ x => ?_⟩
    · rw [← hmark2]
      refine hdrops.fewer (fun g => ?_) q x b hm
      rw [t3.excess, Int.add_zero]
      exact hexc2 g
    · rw [hclosed, hmark2, hslot2]
  next => exact hfail hmark2 h

/-! ### `clone` -/

theorem procCopyVma_alike {pages : ℕ} {vs : List Vma} {copied : Bool}
    (h : procCopyVma np s pages vs = .ok (copied, s')) : Alike s s' := by
  have hstay : ∀ {b : Bool}, (.ok (b, s) : Except Panic (Bool × FsState)) = .ok (copied, s') →
      Alike s s' := by
    intro b h
    obtain ⟨-, rfl⟩ := ok_pair.1 h
    exact ⟨fun _ => rfl, fun _ => rfl⟩
  induction vs generalizing s pages with
  | nil =>
    rw [procCopyVma] at h
    exact hstay h
  | cons v vs ih =>
    cases pages with
    | zero => exact hstay h
    | succ pages =>
      rcases hv : v.file with _ | f
      · simp only [procCopyVma, hv] at h
        cases h
      simp only [procCopyVma, hv] at h
      have hone : Alike s ((s.addRef f 1).setVmas np ((s.proc np).vmas ++ [v])) :=
        (alike_refVma (some f) 1).trans (alike_setVmas np _)
      refine hone.trans (ih h fun h => ?_)
      cases h
      exact ⟨fun _ => rfl, fun _ => rfl⟩

/-- The loop of `do_clone` gives a child the marks of its parent. -/
theorem copySlot_marks (hne : p ≠ np)
    (h : (List.finRange NOFILE).foldlM (copySlot p np) s = .ok s') (q : ProcId) (x : Fd) (b : Bool)
    (hb : mark s' q x = some b) : mark s q x = some b ∨ (q = np ∧ mark s p x = some b) := by
  refine (foldlM_invariant (I := fun _ s' => (mark s' p = mark s p) ∧ ∀ q x b,
      mark s' q x = some b → mark s q x = some b ∨ (q = np ∧ mark s p x = some b)) ?_
    ⟨rfl, fun _ _ _ h => .inl h⟩ h).2 q x b hb
  rintro fd _ s1 s2 ⟨hp, hI⟩ hs2
  unfold copySlot at hs2
  split at hs2
  · cases hs2
    exact ⟨hp, hI⟩
  rename_i f hf
  obtain ⟨s3, hdup, hs2⟩ := bind_eq_ok.1 hs2
  cases hs2
  obtain rfl := filedup_eq_ok hdup
  have hmark : ∀ q x, mark (install (s1.addRef f 1) np fd f) q x =
      if q = np ∧ x = fd then mark s1 p fd else mark s1 q x := by
    intro q x
    have hflags : ∀ g, ((s1.addRef f 1).file g).flags = (s1.file g).flags := addRef_flags 1
    rw [mark, install_slot]
    split
    · rw [mark, hf, Option.map_some, Option.map_some, install_file, hflags]
    · exact Option.map_congr fun g _ => by rw [install_file, hflags]
  refine ⟨?_, fun q x b hb => ?_⟩
  · funext x
    rw [← hp]
    exact (hmark p x).trans (if_neg fun h => hne h.1)
  · rw [show mark ((((s1.addRef f 1).setSlot np fd (some f)).addCnt np 1)) q x = _ from
      hmark q x] at hb
    split at hb
    next hin =>
      obtain ⟨rfl, rfl⟩ := hin
      exact .inr ⟨rfl, hp ▸ hb⟩
    next => exact hI q x b hb

/-- **What `clone` does to the marks**: those of the process are copied. -/
theorem doClone_marks {pid : ℤ} {res : CloneResult} (hs : Sound s) (hp : (s.proc p).state = .used)
    (h : doClone top s p np pid res = .ok (r, s')) (q : ProcId) (x : Fd) (b : Bool)
    (hb : mark s' q x = some b) : mark s q x = some b ∨
      (q ≠ p ∧ (s.proc q).ofile x = none ∧ mark s p x = some b) := by
  unfold doClone at h
  split at h
  · obtain ⟨-, rfl⟩ := ok_pair.1 h
    exact .inl hb
  rename_i hstate
  have hunused : (s.proc np).state = .unused := not_not.1 hstate
  have hne : p ≠ np := by
    rintro rfl
    rw [hp] at hunused
    nomatch hunused
  have halloc : Alike s (allocproc top s np) := alike_setProc { s.proc np with
    state := .used, ofileCnt := 0, rlimCur := BitVec.allOnes 64, vmas := [], maxVma := top } rfl
  have hfree : ∀ {s1 : FsState}, Alike s s1 → Alike s (freeproc s1 np) := fun {s1} h1 =>
    h1.trans (alike_setProc { s1.proc np with state := .unused, ofileCnt := 0, rlimCur := 0 } rfl)
  cases res with
  | fails =>
    obtain ⟨-, rfl⟩ := ok_pair.1 h
    exact .inl ((hfree halloc).fewer q x b hb)
  | pages n =>
    obtain ⟨⟨copied, s2⟩, hcopy, h⟩ := bind_eq_ok.1 h
    have halike := halloc.trans (procCopyVma_alike hcopy)
    obtain _ | _ := copied
    · obtain ⟨-, rfl⟩ := ok_pair.1 h
      exact .inl ((hfree halike).fewer q x b hb)
    obtain ⟨s3, hloop, h⟩ := bind_eq_ok.1 h
    obtain ⟨-, rfl⟩ := ok_pair.1 h
    obtain hq | ⟨rfl, hq⟩ := copySlot_marks hne hloop q x b hb
    · exact .inl (halike.fewer q x b hq)
    · exact .inr ⟨hne.symm, hs.idle q x (by simp [hunused]), halike.fewer p x b hq⟩

end XVapor.Files
