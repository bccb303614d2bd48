import XVapor.FileEffects

/-!
# Mappings, Processes and their Accounts

The calls that map files, and those that make, replace and end processes. Four of them can
leave a file with an excess, a reference that nothing drops any more: a file mapping that
fails at the last check, an `execve` that allocates a file, the exit of a process with file
mappings, and a `clone` that runs out of memory after it has copied a file mapping.
-/

namespace XVapor.Files

open Function

variable {s s' : FsState} {p np : ProcId} {f : FileId} {fd : Fd} {top : BitVec 64}

/-! ### Calls that may leave an excess -/

/-- A call of process `p` adds to the excess of files, and if `noLeak` holds, nothing. -/
def Grown (p : ProcId) (s : FsState) (noLeak : Prop) (r : ℤ × FsState) : Prop :=
  ∃ e, Track p s r.2 e 0 ∧ (∀ f, 0 ≤ e f) ∧ (noLeak → ∀ f, e f = 0)

variable {noLeak : Prop} {r : ℤ × FsState}

theorem Kept.grown (h : Kept p s r) :
    Grown p s noLeak r :=
  ⟨_, h, fun _ => Int.le_refl 0, fun _ _ => rfl⟩

/-- A call leaves a sound state, and if `noLeak` holds, the excess of every file. -/
def Settled (s : FsState) (noLeak : Prop) (r : ℤ × FsState) : Prop :=
  Sound r.2 ∧ (noLeak → ∀ f, excess r.2 f = excess s f)

theorem Grown.settled (hs : Sound s)
    (hp : (s.proc p).state = .used) (h : Grown p s noLeak r) : Settled s noLeak r := by
  obtain ⟨e, ht, hnonneg, hzero⟩ := h
  refine ⟨hs.of_track hp ht hnonneg, fun hn f => ?_⟩
  rw [ht.excess, hzero hn f, Int.add_zero]

/-! ### Mappings -/

@[simp] theorem refVma_proc (o : Option FileId) (d : ℤ) : (refVma s o d).proc = s.proc := by
  cases o <;> rfl

theorem track_refVma (o : Option FileId) (d : ℤ) :
    Track p s (refVma s o d) (fun g => d * unit o g) 0 := by
  cases o with
  | none => exact (Track.refl p s).congr (fun g => by simp) rfl
  | some f => exact track_addRef d

theorem track_appendVma (hp : (s.proc p).state = .used) (v : Vma) :
    Track p s (s.setVmas p ((s.proc p).vmas ++ [v])) (fun g => -unit v.file g) 0 := by
  refine (track_setVmas (by rw [hp]; exact nofun)).congr (fun g => ?_) rfl
  simp [List.countP_append, List.countP_cons, unit]

theorem doMmap_grown (top : BitVec 64) (hp : (s.proc p).state = .used) (length : BitVec 64)
    (prot flags : BitVec 32) (fp : Option FileId) (page : Bool) :
    Grown p s (fp = none ∨ top - 0x40000000 ≤ pgRoundDown ((s.proc p).maxVma - length))
      (doMmap top s p length prot flags fp page) := by
  unfold doMmap
  split
  · exact Kept.grown (Track.refl p s)
  split
  · exact Kept.grown (Track.refl p s)
  simp only
  generalize hv : pgRoundDown ((s.proc p).maxVma - length) = start
  have t1 : Track p s (s.setProc p { s.proc p with maxVma := start }) (fun _ => 0) 0 :=
    track_same rfl rfl rfl rfl
  have t2 := t1.trans (track_refVma fp 1)
  have hproc : (refVma (s.setProc p { s.proc p with maxVma := start }) fp 1).proc p =
      { s.proc p with maxVma := start } := by
    simp [FsState.setProc]
  split
  next hlt =>
    refine ⟨_, t2, fun f => ?_, fun hn f => ?_⟩
    · have := unit_nonneg fp f
      omega
    · rcases hn with rfl | hle
      · simp
      · exact absurd hlt (BitVec.not_lt.2 hle)
  next =>
    have t3 := t2.trans (track_appendVma (by rw [hproc]; exact hp)
      ⟨start, pgRoundDown (s.proc p).maxVma, fp⟩)
    rw [hproc] at t3
    exact Kept.grown (t3.congr (fun g => by ring) rfl)

theorem sysMmap_grown (hp : (s.proc p).state = .used) (length prot flags : BitVec 32) (n : ℤ)
    (page : Bool) :
    Grown p s (flags &&& MAP_ANONYMOUS ≠ 0 ∨ top - 0x40000000 ≤
      pgRoundDown ((s.proc p).maxVma - length.signExtend 64))
      (sysMmap top s p length prot flags n page) := by
  unfold sysMmap
  split
  · rename_i hanon
    obtain ⟨e, ht, hnonneg, hzero⟩ := doMmap_grown top hp (length.signExtend 64) prot flags
      none page
    exact ⟨e, ht, hnonneg, fun _ => hzero (.inl rfl)⟩
  rename_i hfile
  split
  · exact Kept.grown (Track.refl p s)
  rename_i fd f hf
  obtain ⟨e, ht, hnonneg, hzero⟩ := doMmap_grown top hp (length.signExtend 64) prot flags
    (some f) page
  exact ⟨e, ht, hnonneg, fun h => hzero (.inr (h.resolve_left hfile))⟩

/-- **`munmap` keeps the accounts.** -/
theorem doMunmap_ends (hp : (s.proc p).state = .used) (addr : BitVec 64) (len : BitVec 32)
    (walks : Bool) : Ends Panic.counts (Kept p s) (doMunmap s p addr len walks) := by
  have hlive : (s.proc p).state ≠ .unused := by rw [hp]; exact nofun
  unfold doMunmap
  split
  · exact Track.refl p s
  rename_i before v after hfind
  have hvmas := findVma_eq_some hfind
  obtain _ | _ := walks
  · exact id
  simp only [Bool.true_eq_false, if_false]
  split
  next =>
    have hlive' : ((refVma s v.file (-1)).proc p).state ≠ .unused := by
      rwa [refVma_proc]
    refine ((track_refVma v.file (-1)).trans (track_setVmas hlive')).congr
      (fun g => ?_) rfl
    simp only [refVma_proc, hvmas, List.countP_append, List.countP_cons, unit,
      decide_eq_true_eq]
    split <;> push_cast <;> ring
  next =>
    refine (track_setVmas hlive).congr (fun g => ?_) rfl
    simp only [hvmas, List.countP_append, List.countP_cons]
    ring

/-! ### `execve` -/

theorem closeCloexec_ends (href : ∀ f, 0 ≤ excess s f) (hcnt : 0 ≤ surplus s p)
    (fds : List Fd) : Ends Panic.counts (fun s' => Track p s s' (fun _ => 0) 0)
      (fds.foldlM (closeCloexec p) s) := by
  refine Ends.foldlM (I := fun _ s' => Track p s s' (fun _ => 0) 0) ?_ fds (Track.refl p s)
  intro fd _ s1 t
  unfold closeCloexec
  rcases hf : (s1.proc p).ofile fd with _ | f
  · exact t
  simp only
  split
  next =>
    refine (fileclose_slot_ends ?_ ?_ hf).bind fun s2 ⟨t2, _⟩ => ?_
    · rw [t.excess, Int.add_zero]
      exact href f
    · rw [t.surplus, Int.add_zero]
      exact hcnt
    · exact (t.trans t2).congr (fun g => by ring) rfl
  next => exact t

/-- **`execve` leaves an excess**: of the file it allocates, and of the linker. -/
theorem execve_ends (hs : Sound s) (needDynamic commits : Bool) :
    Ends Panic.counts (Grown p s (Files.filealloc s = none))
      (Files.execve s p needDynamic commits) := by
  rcases h : Files.filealloc s with _ | ⟨f, s1⟩
  · simp only [Files.execve, h]
    exact Kept.grown (Track.refl p s)
  have t1 := (filealloc_track p h).1
  have hgrown : ∀ {s2 : FsState} {e : FileId → ℤ} (r : ℤ), Track p s s2 e 0 →
      (∀ g, 0 ≤ e g) → Grown p s (some (f, s1) = none) (r, s2) :=
    fun r ht he => ⟨_, ht, he, nofun⟩
  simp only [Files.execve, h]
  rcases h2 : (if needDynamic then (Files.filealloc s1).map Prod.snd else some s1) with _ | s2
  · exact hgrown _ t1 (unit_nonneg _)
  obtain ⟨e, t2, he⟩ : ∃ e, Track p s s2 e 0 ∧ ∀ g, 0 ≤ e g := by
    obtain _ | _ := needDynamic
    · obtain rfl : s1 = s2 := by simpa using h2
      exact ⟨_, t1, unit_nonneg _⟩
    obtain ⟨⟨g, s3⟩, h3, rfl⟩ := Option.map_eq_some_iff.1 h2
    refine ⟨_, t1.trans (filealloc_track p h3).1, fun x => ?_⟩
    exact Int.add_nonneg (unit_nonneg _ x) (unit_nonneg _ x)
  simp only
  split
  next =>
    refine (closeCloexec_ends (fun g => ?_) ?_ _).bind fun s3 t3 => ?_
    · rw [t2.excess]
      exact Int.add_nonneg (hs.ref g) (he g)
    · rw [t2.surplus, hs.cnt, Int.add_zero]
    · exact hgrown _ (t2.trans t3) fun g => Int.add_nonneg (he g) (Int.le_refl 0)
  next => exact hgrown _ t2 he

/-! ### `exit` and `wait` -/

theorem closeSlot_ends (hs : Sound s) :
    Ends Panic.counts (fun s' => Track p s s' (fun _ => 0) 0 ∧
      (∀ fd, (s'.proc p).ofile fd = none) ∧ (s'.proc p).vmas = (s.proc p).vmas)
      ((List.finRange NOFILE).foldlM (closeSlot p) s) := by
  refine (Ends.foldlM (I := fun fds s' => Track p s s' (fun _ => 0) 0 ∧
      (∀ fd ∉ fds, (s'.proc p).ofile fd = none) ∧ (s'.proc p).vmas = (s.proc p).vmas)
    ?_ (List.finRange NOFILE)
    ⟨Track.refl p s, fun fd hfd => absurd (List.mem_finRange fd) hfd, rfl⟩).mono
    fun s' ⟨t, hnone, hv⟩ => ⟨t, fun fd => hnone fd List.not_mem_nil, hv⟩
  rintro fd fds s1 ⟨t, hnone, hv⟩
  have hexc : ∀ f, 0 ≤ excess s1 f := fun f => by
    rw [t.excess, Int.add_zero]
    exact hs.ref f
  have hsur : 0 ≤ surplus s1 p := by rw [t.surplus, hs.cnt, Int.add_zero]
  unfold closeSlot
  rcases hf : (s1.proc p).ofile fd with _ | f
  · refine ⟨t, fun x hx => ?_, hv⟩
    by_cases hxfd : x = fd
    · rw [hxfd, hf]
    · exact hnone x (by simp [hxfd, hx])
  have hpos : 0 < (s1.file f).ref := one_le_ref_of_slot (hexc f) hf
  simp only [hpos, if_true]
  refine (fileclose_slot_ends (hexc f) hsur hf).bind fun s2 ⟨t2, hofile, hv2⟩ => ?_
  refine ⟨(t.trans t2).congr (fun g => by ring) rfl, fun x hx => ?_, hv2.trans hv⟩
  rw [hofile]
  by_cases hxfd : x = fd
  · rw [hxfd, update_self]
  · rw [update_of_ne hxfd]
    exact hnone x (by simp [hxfd, hx])

theorem slots_eq_zero {P : Proc} (h : ∀ fd, P.ofile fd = none) : P.slots = 0 :=
  tally_eq_zero.2 fun fd => not_not.2 (h fd)

/-- The entry of a process is replaced by one that runs no longer, or not yet: its
descriptors are free and its count is zero. -/
theorem Sound.setProc_idle {P : Proc} (hs : Sound s) (hfree : ∀ fd, P.ofile fd = none)
    (hcnt : P.ofileCnt = 0) (hv : P.state = .zombie → P.vmas = [])
    (hexc : ∀ f, excess s f ≤ excess (s.setProc p P) f) : Sound (s.setProc p P) := by
  refine ⟨fun f => (hs.ref f).trans (hexc f), fun q => ?_, fun q fd hq => ?_, fun q hq => ?_⟩
  · by_cases hqp : q = p
    · rw [hqp, surplus_setProc, hcnt, slots_eq_zero hfree]
      rfl
    · simpa [surplus, FsState.setProc, hqp] using hs.cnt q
  · by_cases hqp : q = p
    · simp [FsState.setProc, hqp, hfree]
    · simp only [FsState.setProc, update_of_ne hqp] at hq ⊢
      exact hs.idle q fd hq
  · obtain rfl | hqp := eq_or_ne q p
    · simp only [FsState.setProc, update_self] at hq ⊢
      exact hv hq
    · simp only [FsState.setProc, update_of_ne hqp] at hq ⊢
      exact hs.zombie q hq

/-- `freeproc` of a process that has no descriptors. The mappings it has are lost. -/
theorem Sound.freeproc (hs : Sound s) (hlive : (s.proc np).state ≠ .unused)
    (hfree : ∀ fd, (s.proc np).ofile fd = none) :
    Sound (freeproc s np) ∧ ∀ f, excess (freeproc s np) f =
      excess s f + ((s.proc np).vmas.countP fun v => v.file = some f) := by
  have hexc : ∀ f, excess (Files.freeproc s np) f =
      excess s f + ((s.proc np).vmas.countP fun v => v.file = some f) := fun f => by
    rw [Files.freeproc, excess_setProc]
    simp only [Proc.opened, Proc.mapped, hlive, if_false, if_true]
    push_cast
    ring
  refine ⟨hs.setProc_idle hfree rfl (by simp) fun f => ?_, hexc⟩
  have := hexc f
  rw [Files.freeproc] at this
  omega

/-- **`exit` leaves the references of the file mappings.** -/
theorem procExit_ends (hs : Sound s) (hp : (s.proc p).state = .used) (walks : Bool) :
    Ends Panic.counts (Settled s (∀ v ∈ (s.proc p).vmas, v.file = none))
      (procExit s p walks) := by
  unfold procExit
  split
  · exact id
  refine (closeSlot_ends hs).bind fun s1 ⟨t, hnone, hv⟩ => ?_
  simp only
  split
  · exact id
  have hs1 : Sound s1 := hs.of_track hp t fun _ => Int.le_refl 0
  have hp1 : (s1.proc p).state = .used := t.state.trans hp
  have hexc : ∀ f, excess (s1.setProc p { s1.proc p with vmas := [], state := .zombie }) f =
      excess s f + ((s.proc p).vmas.countP fun v => v.file = some f) := fun f => by
    rw [excess_setProc, t.excess]
    simp only [Proc.opened, Proc.mapped, hp1, hv, reduceCtorEq, if_false,
      List.countP_nil]
    push_cast
    ring
  have hcnt : (s1.proc p).ofileCnt = 0 := by
    have := hs1.cnt p
    rw [surplus, slots_eq_zero hnone] at this
    simpa using this
  refine ⟨hs1.setProc_idle hnone hcnt (fun _ => rfl) fun f => ?_, fun hn f => ?_⟩
  · rw [hexc, t.excess]
    omega
  · have hzero : ((s.proc p).vmas.countP fun v => v.file = some f) = 0 :=
      List.countP_eq_zero.2 fun v hmem => by simp [hn v hmem]
    rw [hexc, hzero]
    simp

/-- **`wait` keeps the accounts**: a zombie has neither descriptors nor mappings. -/
theorem waitChild_settled {pp : ProcId} (hs : Sound s) (noLeak : Prop) :
    Settled s noLeak (waitChild s pp) := by
  unfold waitChild
  split
  next hz =>
    have hnone : ∀ fd, (s.proc pp).ofile fd = none := fun fd =>
      hs.idle pp fd (by rw [hz]; exact nofun)
    obtain ⟨hsound, hexc⟩ := hs.freeproc (by rw [hz]; exact nofun) hnone
    refine ⟨hsound, fun _ f => ?_⟩
    simp [hexc, hs.zombie pp hz]
  next => exact ⟨hs, fun _ _ => rfl⟩

/-! ### `clone` -/

theorem procCopyVma_ends (hnp : (s.proc np).state = .used) (vs : List Vma) (pages : ℕ) :
    Ends Panic.counts (fun r => Track np s r.2 (fun _ => 0) 0 ∧
      (r.2.proc np).ofile = (s.proc np).ofile ∧ (r.1 = false → pages < vs.length ∧
        (r.2.proc np).vmas = (s.proc np).vmas ++ vs.take pages))
      (procCopyVma np s pages vs) := by
  induction vs generalizing s pages with
  | nil =>
    simp only [procCopyVma]
    exact ⟨Track.refl np s, rfl, nofun⟩
  | cons v vs ih =>
    cases pages with
    | zero => exact ⟨Track.refl np s, rfl, fun _ => ⟨by simp, by simp⟩⟩
    | succ pages =>
      rcases hv : v.file with _ | f
      · simp only [procCopyVma, hv]
        exact id
      simp only [procCopyVma, hv]
      have hnp1 : ((s.addRef f 1).proc np).state = .used := hnp
      have t0 : Track np s (s.addRef f 1) (fun g => 1 * unit (some f) g) 0 :=
        track_addRef 1
      have t1 := t0.trans (track_appendVma hnp1 v)
      refine (ih (t1.state.trans hnp) pages).mono fun r ⟨t2, hofile, hvmas⟩ => ?_
      refine ⟨(t1.trans t2).congr (fun g => ?_) rfl, ?_, fun hr => ?_⟩
      · rw [hv]
        ring
      · simpa [FsState.setVmas, FsState.setProc, FsState.addRef, FsState.setFile]
          using hofile
      · obtain ⟨hlt, hvs⟩ := hvmas hr
        refine ⟨by simpa using hlt, ?_⟩
        rw [hvs]
        simp [FsState.setVmas, FsState.setProc, FsState.addRef, FsState.setFile]

theorem copySlot_ends (hs : Sound s) (hfree : ∀ fd, (s.proc np).ofile fd = none) :
    Ends Panic.counts (fun s' => Track np s s' (fun _ => 0) 0)
      ((List.finRange NOFILE).foldlM (copySlot p np) s) := by
  refine (Ends.foldlM (I := fun fds s' => Track np s s' (fun _ => 0) 0 ∧ fds.Nodup ∧
      ∀ fd ∈ fds, (s'.proc np).ofile fd = none) ?_ (List.finRange NOFILE)
    ⟨Track.refl np s, List.nodup_finRange _, fun fd _ => hfree fd⟩).mono fun s' h => h.1
  rintro fd fds s1 ⟨t, hnodup, hnone⟩
  obtain ⟨hnotin, hnodup⟩ := List.nodup_cons.1 hnodup
  unfold copySlot
  rcases hf : (s1.proc p).ofile fd with _ | f
  · exact ⟨t, hnodup, fun x hx => hnone x (by simp [hx])⟩
  have hexc : 0 ≤ excess s1 f := by
    rw [t.excess, Int.add_zero]
    exact hs.ref f
  simp only [filedup_eq (one_le_ref_of_slot hexc hf)]
  have hslot : ((s1.addRef f 1).proc np).ofile fd = none := hnone fd (by simp)
  refine ⟨((t.trans (track_addRef 1)).trans (track_install hslot)).congr
    (fun g => by ring) rfl, hnodup, fun x hx => ?_⟩
  have hxfd : x ≠ fd := fun heq => hnotin (heq ▸ hx)
  have hofile : ((install (s1.addRef f 1) np fd f).proc np).ofile x = none := by
    rw [install_ofile, update_of_ne hxfd]
    exact hnone x (by simp [hx])
  exact hofile

theorem Sound.allocproc (hs : Sound s) (top : BitVec 64)
    (hunused : (s.proc np).state = .unused) :
    Sound (allocproc top s np) ∧ ∀ f, excess (allocproc top s np) f = excess s f := by
  have hfree : ∀ fd, (s.proc np).ofile fd = none := fun fd =>
    hs.idle np fd (by simp [hunused])
  have hexc : ∀ f, excess (Files.allocproc top s np) f = excess s f := fun f => by
    rw [Files.allocproc, excess_setProc]
    simp [Proc.opened, Proc.mapped, hunused]
  exact ⟨hs.setProc_idle hfree rfl (by simp) fun f => (hexc f).ge, hexc⟩

/-- **`clone` keeps the accounts**, unless it runs out of memory after it has copied a file
mapping. -/
theorem doClone_ends (hs : Sound s) (hp : (s.proc p).state = .used) (top : BitVec 64) (pid : ℤ)
    (res : CloneResult) :
    Ends Panic.counts (Settled s (∀ n, res = .pages n → n < (s.proc p).vmas.length →
      ∀ v ∈ (s.proc p).vmas.take n, v.file = none)) (doClone top s p np pid res) := by
  unfold doClone
  split
  · exact ⟨hs, fun _ _ => rfl⟩
  rename_i hstate
  have hunused : (s.proc np).state = .unused := not_not.1 hstate
  have hne : p ≠ np := by
    rintro rfl
    rw [hp] at hunused
    cases hunused
  have hfree : ∀ fd, (s.proc np).ofile fd = none := fun fd =>
    hs.idle np fd (by simp [hunused])
  have hs1 := hs.allocproc top hunused
  have hvmas : ((allocproc top s np).proc p).vmas = (s.proc p).vmas := by
    simp [allocproc, FsState.setProc, hne]
  have hnp1 : ((allocproc top s np).proc np).state = .used := by
    simp [allocproc, FsState.setProc]
  have hfree1 : ((allocproc top s np).proc np).ofile = (s.proc np).ofile := by
    simp [allocproc, FsState.setProc]
  have hvmas1 : ((allocproc top s np).proc np).vmas = [] := by
    simp [allocproc, FsState.setProc]
  cases res with
  | fails =>
    obtain ⟨hsound, hexc⟩ := hs1.1.freeproc (by rw [hnp1]; simp)
      fun fd => by rw [hfree1, hfree]
    refine ⟨hsound, fun _ f => ?_⟩
    simp [hexc, hs1.2, hvmas1]
  | pages n =>
    simp only [hvmas]
    refine (procCopyVma_ends hnp1 _ n).bind ?_
    rintro ⟨copied, s2⟩ ⟨t2, hofile, hcut⟩
    have hs2 : Sound s2 := hs1.1.of_track hnp1 t2 fun _ => Int.le_refl 0
    cases copied with
    | true =>
      refine (copySlot_ends hs2 fun fd => ?_).bind fun s3 t3 => ?_
      · rw [hofile, hfree1, hfree]
      · refine ⟨hs2.of_track (t2.state.trans hnp1) t3 fun _ => Int.le_refl 0, fun _ f => ?_⟩
        rw [t3.excess, t2.excess, hs1.2]
        ring
    | false =>
      obtain ⟨hlt, hv2⟩ := hcut rfl
      have hlive2 : (s2.proc np).state ≠ .unused := by
        rw [t2.state, hnp1]
        simp
      obtain ⟨hsound, hexc⟩ := hs2.freeproc hlive2 fun fd => by
        rw [hofile, hfree1, hfree]
      refine ⟨hsound, fun hn f => ?_⟩
      have hzero : (((s.proc p).vmas.take n).countP fun v => v.file = some f) = 0 :=
        List.countP_eq_zero.2 fun v hv => by simp [hn n rfl hlt v hv]
      rw [hexc, hv2, hvmas1, List.nil_append, hzero, t2.excess, hs1.2]
      simp

/-! ### All calls -/

/-- The condition under which a call keeps the count of descriptors: an `F_SETFD` finds its
descriptor taken, and a `pipe` that gets its files and finds no descriptor has a negative
number in the unset `fd1`. -/
def Counted (s : FsState) (p : ProcId) : FileCall → Prop
  | .fcntl n .setfd arg => ∀ fd f k, argfd (s.proc p) n = some (fd, f) →
      toFd (arg.setWidth 32).toInt = some k → (s.proc p).ofile k ≠ none
  | .pipe page fd₁ _ => ∀ x s1, pipealloc s p page = .ok (some x, s1) →
      fdFree (s.proc p) = none → fd₁ < 0
  | _ => True

/-- The condition under which a call leaves no reference behind: a file mapping does not end
below `MMAP_END_ADDRESS`, an `execve` finds no file, a process exits without file mappings,
and a `clone` that has no memory for all mappings has copied no file mapping. -/
def NoLeak (top : BitVec 64) (s : FsState) (p : ProcId) : FileCall → Prop
  | .mmap length _ flags _ _ => flags &&& MAP_ANONYMOUS ≠ 0 ∨
      top - 0x40000000 ≤ pgRoundDown ((s.proc p).maxVma - length.signExtend 64)
  | .execve _ _ => filealloc s = none
  | .exit _ => ∀ v ∈ (s.proc p).vmas, v.file = none
  | .clone _ _ res => ∀ n, res = .pages n → n < (s.proc p).vmas.length →
      ∀ v ∈ (s.proc p).vmas.take n, v.file = none
  | _ => True

/-- **What a call does to the accounts.** -/
theorem call_ends (top : BitVec 64) (hs : Sound s) (hp : (s.proc p).state = .used) (c : FileCall)
    (hc : Counted s p c) :
    Ends Panic.counts (Settled s (NoLeak top s p c)) (call top s p c) := by
  have hkept : ∀ {r : Except Panic (ℤ × FsState)} {noLeak : Prop},
      Ends Panic.counts (Kept p s) r → Ends Panic.counts (Settled s noLeak) r :=
    fun h => h.mono fun _ h => h.grown.settled hs hp
  cases c with
  | openFile flags omode res => exact hkept (genericOpen_ends hs flags omode res)
  | dev omode major => exact hkept (sysDev_ends hs omode major)
  | dup n => exact hkept (sysDup_ends hs n)
  | dup3 oldfd newfd flags => exact hkept (sysDup3_ends hs oldfd newfd flags)
  | fcntl n cmd arg =>
    refine hkept (sysFcntl_ends hs n cmd arg ?_)
    rintro rfl
    exact hc
  | pipe page fd₁ copied => exact hkept (sysPipe_ends hs page copied hc)
  | close n => exact hkept (sysClose_ends hs n)
  | mmap length prot flags n page =>
    exact (sysMmap_grown hp length prot flags n page).settled hs hp
  | munmap addr len walks => exact hkept (doMunmap_ends hp addr len walks)
  | clone np pid res => exact doClone_ends hs hp top pid res
  | execve needDynamic commits =>
    exact (execve_ends hs needDynamic commits).mono fun _ h => h.settled hs hp
  | exit walks => exact procExit_ends hs hp walks
  | wait pp => exact waitChild_settled hs _
  | prlimit cur =>
    have ht : Kept p s (Files.prlimit s p cur) := track_same rfl rfl rfl rfl
    exact ht.grown.settled hs hp

theorem sound_boot (top : BitVec 64) : Sound (boot top) ∧ ∀ f, excess (boot top) f = 0 := by
  have hexc : ∀ f, excess emptyTables f = 0 := fun f => by
    simp [excess, FsState.uses, emptyTables, Proc.opened, Proc.mapped, tally]
  have hempty : Sound emptyTables := by
    refine ⟨fun f => (hexc f).ge, fun p => ?_, fun _ _ _ => rfl, fun _ _ => rfl⟩
    simp [surplus, emptyTables, Proc.slots, tally]
  have hunused : (emptyTables.proc initproc).state = .unused := rfl
  obtain ⟨hsound, heq⟩ := hempty.allocproc top hunused
  exact ⟨hsound, fun f => (heq f).trans (hexc f)⟩

end XVapor.Files
