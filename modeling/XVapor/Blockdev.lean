import XVapor.Bcache
import XVapor.Panic

/-!
# Reading and Writing Blocks

The threads in `blockdev_bread` and `blockdev_bwrite` (`fs/blockdev.c`), which go through the
blocks of the call one by one: `bread`, a copy out of the buffer and `brelse`, or `bget`, a
copy into the buffer, `bwrite` and `brelse`. The steps here are those up to the disk driver,
and after it: in the stages `reading` and `writing` a thread is in `virtio_disk_rw`.

A thread that does one block after the other does what the loop of a call does, with the
numbers of the blocks cut to 32 bits. `hist` is the order in which the writes have taken the
sleeplock of their buffer.

## Main results

* `SInv.holder_unique`: **no two threads use the data of a block at the same time**.
-/

namespace XVapor.Bio

open Function

/-- What is done with a block. -/
inductive BOp (D : Type)
  | bread
  | bwrite (v : D)
  deriving DecidableEq

/-- The history after a thread has taken the sleeplock. -/
def BOp.record {D : Type} (op : BOp D) (blk : ℕ) (hist : List (ℕ × D)) : List (ℕ × D) :=
  match op with
  | .bread => hist
  | .bwrite v => hist ++ [(blk, v)]

/-- Where a thread is, and the block it works on. -/
inductive Stage (D : Type)
  | idle
  /-- Before `bget`. -/
  | get (op : BOp D) (blk : ℕ)
  /-- In `bget`, before `acquiresleep`. -/
  | acquire (op : BOp D) (blk : ℕ)
  /-- After `bget`. -/
  | locked (op : BOp D) (blk : ℕ)
  /-- In `virtio_disk_rw(b, 0)`. -/
  | reading (blk : ℕ)
  /-- After `bread`. -/
  | loaded (blk : ℕ)
  /-- After the copy out of the buffer. -/
  | copied (blk : ℕ) (out : D)
  /-- After the copy into the buffer. -/
  | filled (blk : ℕ) (v : D)
  /-- In `virtio_disk_rw(b, 1)`. -/
  | writing (blk : ℕ) (v : D)
  /-- After `bwrite`. -/
  | written (blk : ℕ)
  /-- In `brelse`, after `releasesleep`. -/
  | dropping (blk : ℕ)
  deriving DecidableEq

variable {T D : Type}

/-- The block for which a buffer is selected. -/
def Stage.selects : Stage D → Option ℕ
  | .idle | .get .. => none
  | .acquire _ blk | .locked _ blk | .reading blk | .loaded blk | .copied blk _
  | .filled blk _ | .writing blk _ | .written blk | .dropping blk => some blk

/-- The stages in which a thread holds the sleeplock. -/
def Stage.holds : Stage D → Bool
  | .idle | .get .. | .acquire .. | .dropping .. => false
  | .locked .. | .reading .. | .loaded .. | .copied .. | .filled .. | .writing ..
  | .written .. => true

/-- The cache, the data of its buffers, and the threads. -/
structure BState (T D : Type) where
  c : Cache T
  stage : T → Stage D
  data : BufId → D
  hist : List (ℕ × D)

/-- The state after `binit`. -/
def BState.boot (data : BufId → D) : BState T D := ⟨binit, fun _ => .idle, data, []⟩

variable [DecidableEq T]

def BState.goto (s : BState T D) (t : T) (st : Stage D) : BState T D :=
  { s with stage := update s.stage t st }

/-- The next step of a thread, but for those in the driver. -/
def bioStep (pid : T → ℕ) (s : BState T D) (t : T) : Except BPanic (Option (BState T D)) :=
  match s.stage t with
  | .idle => pure none
  | .get op blk => do
      let c ← bget s.c t ROOTDEV blk
      pure (some ({ s with c }.goto t (.acquire op blk)))
  | .acquire op blk => pure do
      let b ← s.c.sel t
      let c ← s.c.acquiresleep t b
      some ({ s with c, hist := op.record blk s.hist }.goto t (.locked op blk))
  | .locked .bread blk => pure do
      let b ← s.c.sel t
      some (s.goto t (if s.c.valid b then .loaded blk else .reading blk))
  | .locked (.bwrite v) blk => pure do
      let b ← s.c.sel t
      some ({ s with data := update s.data b v }.goto t (.filled blk v))
  | .loaded blk => pure do
      let b ← s.c.sel t
      some (s.goto t (.copied blk (s.data b)))
  | .filled blk v =>
    match s.c.sel t with
    | none => pure none
    | some b =>
      if s.c.holdingsleep pid t b then pure (some (s.goto t (.writing blk v)))
      else throw .bwrite
  | .copied blk _ | .written blk =>
    match s.c.sel t with
    | none => pure none
    | some b =>
      if s.c.holdingsleep pid t b then
        pure (some ({ s with c := s.c.releasesleep b }.goto t (.dropping blk)))
      else throw .brelse
  | .dropping _ => pure do
      let b ← s.c.sel t
      some ({ s with c := s.c.drop t b }.goto t .idle)
  | .reading _ | .writing _ _ => pure none

/-- A thread begins with block `i` of a call. -/
def callStep (s : BState T D) (t : T) (op : BOp D) (blkId i : ℕ) : Option (BState T D) :=
  match s.stage t with
  | .idle => some (s.goto t (.get op ((blkId + i) % 2 ^ 32)))
  | _ => none

/-! ### The threads and the cache -/

variable [Fintype T] {s s' : BState T D} {t t' : T} {b b' : BufId} {blk : ℕ} {st : Stage D}

omit [DecidableEq T] in
/-- **The threads and the cache agree.** -/
structure SInv (s : BState T D) : Prop where
  cache : CInv s.c
  sel : ∀ t, (s.stage t).selects = none → s.c.sel t = none
  buf : ∀ t blk, (s.stage t).selects = some blk →
    ∃ b, s.c.sel t = some b ∧ s.c.dev b = ROOTDEV ∧ s.c.blockno b = blk
  hold : ∀ t b, s.c.lock b = some t ↔ (s.stage t).holds = true ∧ s.c.sel t = some b

omit [DecidableEq T] in
theorem sInv_boot (data : BufId → D) : SInv (BState.boot data : BState T D) := by
  obtain ⟨-, -, -, hlock, hsel⟩ := binit_fields (T := T)
  refine ⟨cInv_binit, fun t _ => congrFun hsel t, fun t blk h => ?_, fun t b => ?_⟩
  · simp [BState.boot, Stage.selects] at h
  · simp [BState.boot, Stage.holds, hlock]

namespace SInv

omit [DecidableEq T] in
theorem user_unique (h : SInv s) (ht : (s.stage t).holds = true) (hb : s.c.sel t = some b)
    (ht' : (s.stage t').holds = true) (hb' : s.c.sel t' = some b) : t = t' := by
  have hlock := (h.hold t b).2 ⟨ht, hb⟩
  rw [(h.hold t' b).2 ⟨ht', hb'⟩] at hlock
  exact (Option.some.inj hlock).symm

omit [DecidableEq T] in
/-- The buffer of a thread past `bget`. -/
theorem selected (h : SInv s) (ht : (s.stage t).selects = some blk) : ∃ b, s.c.sel t = some b :=
  (h.buf t blk ht).imp fun _ => And.left

omit [DecidableEq T] in
theorem block (h : SInv s) (ht : (s.stage t).selects = some blk) (hb : s.c.sel t = some b) :
    s.c.dev b = ROOTDEV ∧ s.c.blockno b = blk := by
  obtain ⟨b', hb', hrest⟩ := h.buf t blk ht
  cases hb.symm.trans hb'
  exact hrest

omit [DecidableEq T] in
/-- **No two threads use the data of a block at the same time.** -/
theorem holder_unique (h : SInv s) (ht : (s.stage t).holds = true)
    (ht' : (s.stage t').holds = true) (hb : (s.stage t).selects = some blk)
    (hb' : (s.stage t').selects = some blk) : t = t' := by
  obtain ⟨b, hsel, hdev, hblk⟩ := h.buf t blk hb
  obtain ⟨b', hsel', hdev', hblk'⟩ := h.buf t' blk hb'
  obtain rfl := h.cache.unique b b' hdev hdev' (hblk.trans hblk'.symm)
  exact h.user_unique ht hsel ht' hsel'

/-- A step of one thread, which leaves the buffers and the locks of the others alone. -/
theorem change (h : SInv s) {c : Cache T} {hist : List (ℕ × D)} (hcache : CInv c)
    (hother : ∀ t' ≠ t, c.sel t' = s.c.sel t' ∧ ∀ b, c.lock b = some t' ↔ s.c.lock b = some t')
    (hkeep : ∀ t' ≠ t, ∀ b, s.c.sel t' = some b →
      c.dev b = s.c.dev b ∧ c.blockno b = s.c.blockno b)
    (hsel : st.selects = none → c.sel t = none)
    (hbuf : ∀ blk, st.selects = some blk →
      ∃ b, c.sel t = some b ∧ c.dev b = ROOTDEV ∧ c.blockno b = blk)
    (hhold : ∀ b, c.lock b = some t ↔ st.holds = true ∧ c.sel t = some b) :
    SInv ({ s with c, hist }.goto t st) := by
  refine ⟨hcache, fun t' ht' => ?_, fun t' blk ht' => ?_, fun t' b => ?_⟩
  all_goals obtain rfl | ht := eq_or_ne t' t
  · exact hsel (by simpa [BState.goto] using ht')
  · exact (hother t' ht).1.trans (h.sel t' (by simpa [BState.goto, ht] using ht'))
  · exact hbuf blk (by simpa [BState.goto] using ht')
  · obtain ⟨b, hb, hdev, hblk⟩ := h.buf t' blk (by simpa [BState.goto, ht] using ht')
    obtain ⟨hdev', hblk'⟩ := hkeep t' ht b hb
    exact ⟨b, (hother t' ht).1.trans hb, hdev'.trans hdev, hblk'.trans hblk⟩
  · simpa [BState.goto] using hhold b
  · simpa [BState.goto, ht, (hother t' ht).1, (hother t' ht).2 b] using h.hold t' b

theorem goto (h : SInv s) (hsel : st.selects = (s.stage t).selects)
    (hholds : st.holds = (s.stage t).holds) : SInv (s.goto t st) :=
  h.change h.cache (fun _ _ => ⟨rfl, fun _ => Iff.rfl⟩) (fun _ _ _ _ => ⟨rfl, rfl⟩)
    (hsel ▸ h.sel t) (hsel ▸ h.buf t) (hholds ▸ h.hold t)

omit [DecidableEq T] in
theorem congr (h : SInv s) (valid : BufId → Bool) (data : BufId → D) (hist : List (ℕ × D)) :
    SInv { s with c := { s.c with valid }, data, hist } :=
  ⟨⟨h.cache.list, h.cache.unique, h.cache.refcnt, h.cache.lock⟩, h.sel, h.buf, h.hold⟩

variable {op : BOp D}

section

variable (h : SInv s)
include h

theorem select {c : Cache T} (hcache : CInv c)
    (hstage : s.stage t = .get op blk) (hsel : c.sel = update s.c.sel t (some b))
    (hlock : c.lock = s.c.lock) (hb : c.dev b = ROOTDEV ∧ c.blockno b = blk)
    (hkeep : ∀ t' b', s.c.sel t' = some b' →
      c.dev b' = s.c.dev b' ∧ c.blockno b' = s.c.blockno b') :
    SInv ({ s with c }.goto t (.acquire op blk)) := by
  refine h.change hcache (fun t' ht => ?_) (fun t' _ => hkeep t') nofun ?_ fun b' => ?_
  · rw [hsel, hlock, update_of_ne ht]
    exact ⟨rfl, fun _ => Iff.rfl⟩
  · rintro _ ⟨rfl⟩
    exact ⟨b, by rw [hsel, update_self], hb⟩
  · simpa [hlock, hstage, Stage.holds] using h.hold t b'

theorem recycle (hstage : s.stage t = .get op blk)
    (hnone : ∀ b', ¬ (s.c.dev b' = ROOTDEV ∧ s.c.blockno b' = blk)) (hzero : s.c.refcnt b = 0) :
    SInv ({ s with c := s.c.recycle t b ROOTDEV blk }.goto t (.acquire op blk)) := by
  have hsel : s.c.sel t = none := h.sel t (by rw [hstage]; rfl)
  refine h.select (h.cache.recycle hsel hzero hnone) hstage rfl rfl (b := b)
    ⟨by simp [Cache.recycle], by simp [Cache.recycle]⟩ fun t' b' hsel' => ?_
  -- a buffer that is selected has a reference
  have hne : b' ≠ b := by
    rintro rfl
    have hpos := h.cache.refcnt_pos hsel'
    omega
  simp [Cache.recycle, hne]

theorem acquire (hstage : s.stage t = .acquire op blk)
    (hsel : s.c.sel t = some b) (hfree : s.c.lock b = none) (hist : List (ℕ × D)) :
    SInv ({ s with
      c := { s.c with lock := update s.c.lock b (some t) }
      hist }.goto t (.locked op blk)) := by
  have hnot : ∀ b', s.c.lock b' ≠ some t := by simpa [hstage, Stage.holds] using h.hold t
  refine h.change (h.cache.acquiresleep hsel (if_pos hfree)) (fun t' ht => ⟨rfl, fun b' => ?_⟩)
    (fun _ _ _ _ => ⟨rfl, rfl⟩) nofun (fun blk' hb => h.buf t blk' (hstage ▸ hb)) fun b' => ?_
  all_goals obtain rfl | hb := eq_or_ne b' b
  · simp [hfree, Ne.symm ht]
  · simp [hb]
  · simp [Stage.holds, hsel]
  · simpa [Stage.holds, hsel, hb, Ne.symm hb] using hnot b'

theorem release (hholds : (s.stage t).holds = true)
    (hselects : (s.stage t).selects = some blk) (hsel : s.c.sel t = some b) :
    SInv ({ s with c := s.c.releasesleep b }.goto t (.dropping blk)) := by
  have hmine := (h.hold t b).2 ⟨hholds, hsel⟩
  refine h.change (h.cache.releasesleep b) (fun t' ht => ⟨rfl, fun b' => ?_⟩)
    (fun _ _ _ _ => ⟨rfl, rfl⟩) nofun (fun blk' hb => h.buf t blk' (hselects.trans hb)) fun b' => ?_
  all_goals obtain rfl | hb := eq_or_ne b' b
  · simp [Cache.releasesleep, hmine, Ne.symm ht]
  · simp [Cache.releasesleep, hb]
  · simp [Cache.releasesleep, Stage.holds]
  · have hne : s.c.lock b' ≠ some t := fun hlock => by
      have hself := h.cache.lock b' t hlock
      rw [hsel] at hself
      exact hb (Option.some.inj hself).symm
    simpa [Cache.releasesleep, Stage.holds, hb] using hne

theorem drop (hstage : s.stage t = .dropping blk) (hsel : s.c.sel t = some b) :
    SInv ({ s with c := s.c.drop t b }.goto t .idle) := by
  have hnot : s.c.lock b ≠ some t := fun hlock => by
    have := ((h.hold t b).1 hlock).1
    simp [hstage, Stage.holds] at this
  obtain ⟨hsel', hlock, hdev, hblk, -⟩ := s.c.drop_fields (t := t) (b := b)
  refine h.change (h.cache.drop hsel hnot) (fun t' ht => ?_) (fun _ _ _ _ => ?_) (fun _ => ?_) nofun
    fun b' => ?_
  · rw [hsel', hlock, update_of_ne ht]
    exact ⟨rfl, fun _ => Iff.rfl⟩
  · rw [hdev, hblk]
    exact ⟨rfl, rfl⟩
  · rw [hsel', update_self]
  · simpa [hlock, hstage, Stage.holds] using h.hold t b'

omit [DecidableEq T] in
theorem holdingsleep (pid : T → ℕ) (hholds : (s.stage t).holds = true)
    (hsel : s.c.sel t = some b) : s.c.holdingsleep pid t b = true := by
  simp [Cache.holdingsleep, (h.hold t b).2 ⟨hholds, hsel⟩]

end

end SInv

/-! ### The steps -/

omit [Fintype T] in
/-- **What a step can do.** -/
inductive BioStep (s : BState T D) (t : T) : BState T D → Prop
  | hit {op : BOp D} {blk : ℕ} {b : BufId} : s.stage t = .get op blk → s.c.dev b = ROOTDEV →
      s.c.blockno b = blk →
      BioStep s t ({ s with c := s.c.hit t b }.goto t (.acquire op blk))
  | recycle {op : BOp D} {blk : ℕ} {b : BufId} : s.stage t = .get op blk →
      (∀ b', ¬ (s.c.dev b' = ROOTDEV ∧ s.c.blockno b' = blk)) → s.c.refcnt b = 0 →
      BioStep s t ({ s with c := s.c.recycle t b ROOTDEV blk }.goto t (.acquire op blk))
  | acquire {op : BOp D} {blk : ℕ} {b : BufId} : s.stage t = .acquire op blk →
      s.c.sel t = some b → s.c.lock b = none →
      BioStep s t ({ s with
        c := { s.c with lock := update s.c.lock b (some t) }
        hist := op.record blk s.hist }.goto t (.locked op blk))
  | valid {blk : ℕ} {b : BufId} : s.stage t = .locked .bread blk → s.c.sel t = some b →
      s.c.valid b = true → BioStep s t (s.goto t (.loaded blk))
  | invalid {blk : ℕ} {b : BufId} : s.stage t = .locked .bread blk → s.c.sel t = some b →
      s.c.valid b = false → BioStep s t (s.goto t (.reading blk))
  | fill {v : D} {blk : ℕ} {b : BufId} : s.stage t = .locked (.bwrite v) blk →
      s.c.sel t = some b →
      BioStep s t ({ s with data := update s.data b v }.goto t (.filled blk v))
  | copy {blk : ℕ} {b : BufId} : s.stage t = .loaded blk → s.c.sel t = some b →
      BioStep s t (s.goto t (.copied blk (s.data b)))
  | submit {blk : ℕ} {v : D} {b : BufId} : s.stage t = .filled blk v → s.c.sel t = some b →
      BioStep s t (s.goto t (.writing blk v))
  | release {blk : ℕ} {b : BufId} : ((∃ out, s.stage t = .copied blk out) ∨
      s.stage t = .written blk) → s.c.sel t = some b →
      BioStep s t ({ s with c := s.c.releasesleep b }.goto t (.dropping blk))
  | drop {blk : ℕ} {b : BufId} : s.stage t = .dropping blk → s.c.sel t = some b →
      BioStep s t ({ s with c := s.c.drop t b }.goto t .idle)

/-- Every step is one of those, and only `bget` panics, when every buffer has references. -/
theorem SInv.bioStep_ends (h : SInv s) (pid : T → ℕ) (t : T) :
    Ends (fun e => e ≠ .noBuffers ∨ ∀ t, s.c.sel t = none → ∃ b, s.c.refcnt b = 0)
      (fun o => ∀ s' ∈ o, BioStep s t s') (bioStep pid s t) := by
  have hsome : ∀ {s' : BState T D}, BioStep s t s' → ∀ u ∈ some s', BioStep s t u := by
    rintro s' hs' _ ⟨rfl⟩
    exact hs'
  cases hstage : s.stage t with simp only [bioStep, hstage]
  | idle | reading blk | writing blk v => simp [Ends, pure, Except.pure]
  | get op blk =>
    obtain ⟨b, hdev, hblk, hget⟩ | ⟨b, hnone, hzero, hget⟩ | ⟨hall, hget⟩ :=
      h.cache.bget_cases t ROOTDEV blk
    · simp only [hget]
      exact hsome (.hit hstage hdev hblk)
    · simp only [hget]
      exact hsome (.recycle hstage hnone hzero)
    · simp only [hget]
      rintro (hne | hspare)
      · exact hne rfl
      · obtain ⟨b, hb⟩ := hspare t (h.sel t (by rw [hstage]; rfl))
        exact hall b hb
  | acquire op blk =>
    obtain ⟨b, hsel⟩ := h.selected (by rw [hstage]; rfl)
    by_cases hfree : s.c.lock b = none
    · have hacq : s.c.acquiresleep t b = some _ := if_pos hfree
      simp only [hsel, Option.bind_eq_bind, Option.bind_some, hacq]
      exact hsome (.acquire hstage hsel hfree)
    · have hacq : s.c.acquiresleep t b = none := if_neg hfree
      simp only [hsel, Option.bind_eq_bind, Option.bind_some, hacq]
      exact fun _ hu => by cases hu
  | locked op blk =>
    obtain ⟨b, hsel⟩ := h.selected (by rw [hstage]; rfl)
    cases op with
    | bread =>
      simp only [hsel, Option.bind_eq_bind, Option.bind_some]
      cases hvalid : s.c.valid b with
      | true => exact hsome (.valid hstage hsel hvalid)
      | false => exact hsome (.invalid hstage hsel hvalid)
    | bwrite v =>
      simp only [hsel]
      exact hsome (.fill hstage hsel)
  | loaded blk =>
    obtain ⟨b, hsel⟩ := h.selected (by rw [hstage]; rfl)
    simp only [hsel]
    exact hsome (.copy hstage hsel)
  | copied blk out =>
    obtain ⟨b, hsel⟩ := h.selected (by rw [hstage]; rfl)
    have hholding := h.holdingsleep pid (by rw [hstage]; rfl) hsel
    simp only [hsel, hholding]
    exact hsome (.release (.inl ⟨out, hstage⟩) hsel)
  | filled blk v =>
    obtain ⟨b, hsel⟩ := h.selected (by rw [hstage]; rfl)
    have hholding := h.holdingsleep pid (by rw [hstage]; rfl) hsel
    simp only [hsel, hholding]
    exact hsome (.submit hstage hsel)
  | written blk =>
    obtain ⟨b, hsel⟩ := h.selected (by rw [hstage]; rfl)
    have hholding := h.holdingsleep pid (by rw [hstage]; rfl) hsel
    simp only [hsel, hholding]
    exact hsome (.release (.inr hstage) hsel)
  | dropping blk =>
    obtain ⟨b, hsel⟩ := h.selected (by rw [hstage]; rfl)
    simp only [hsel]
    exact hsome (.drop hstage hsel)

/-- **Every step keeps the threads and the cache in agreement.** -/
theorem SInv.step (h : SInv s) (hstep : BioStep s t s') : SInv s' := by
  cases hstep with
  | hit hstage hdev hblk =>
    exact h.select (h.cache.hit (h.sel t (by rw [hstage]; rfl)) _) hstage rfl rfl
      ⟨hdev, hblk⟩ fun _ _ _ => ⟨rfl, rfl⟩
  | recycle hstage hnone hzero => exact h.recycle hstage hnone hzero
  | acquire hstage hsel hfree => exact h.acquire hstage hsel hfree _
  | valid hstage _ _ | invalid hstage _ _ | copy hstage _ | submit hstage _ =>
    exact h.goto (by rw [hstage]; rfl) (by rw [hstage]; rfl)
  | fill hstage _ =>
    exact (h.congr s.c.valid _ _ : SInv { s with data := update s.data _ _ }).goto
      (by simp only [hstage]; rfl) (by simp only [hstage]; rfl)
  | release hstage hsel =>
    obtain ⟨out, hstage⟩ | hstage := hstage
    · exact h.release (by rw [hstage]; rfl) (by rw [hstage]; rfl) hsel
    · exact h.release (by rw [hstage]; rfl) (by rw [hstage]; rfl) hsel
  | drop hstage hsel => exact h.drop hstage hsel

theorem SInv.call (h : SInv s) {op : BOp D} {blkId i : ℕ}
    (hstep : callStep s t op blkId i = some s') :
    SInv s' ∧ s.stage t = .idle ∧ s' = s.goto t (.get op ((blkId + i) % 2 ^ 32)) := by
  rw [callStep] at hstep
  cases hstage : s.stage t with
  | idle =>
    simp only [hstage, Option.some.injEq] at hstep
    refine ⟨?_, rfl, hstep.symm⟩
    rw [← hstep]
    exact h.goto (by rw [hstage]; rfl) (by rw [hstage]; rfl)
  | _ => simp [hstage] at hstep

end XVapor.Bio
