import XVapor.Blockdev

/-!
# The Block Cache over a Synchronous Disk

`blockdev_bread` and `blockdev_bwrite` by any threads, with a driver that transfers one block
at once. The cache cannot be seen: a read copies out what was last written to its block, in
the order in which the writes held the sleeplock of the buffer of the block. `bwrite` never
sets `valid`; a buffer that was recycled for a write is read from the disk by the next read,
which finds there what was written.

## Main results

* `cache_correct`: **the cache is correct**: every copy out, the structure of the cache, and
  the panics.
-/

namespace XVapor.Bio

open Function

variable {T D : Type}

/-! ### The machine -/

/-- The cache over a disk. -/
structure SyncState (T D : Type) where
  s : BState T D
  disk : ℕ → D

/-- A thread begins with a block of a call, or goes on. -/
inductive SyncAct (T D : Type)
  | call (t : T) (op : BOp D) (blkId i : ℕ)
  | step (t : T)

/-- One step. `virtio_disk_rw` transfers the block at once, and `bread` sets `valid`. -/
def syncStep [DecidableEq T] (pid : T → ℕ) (x : SyncState T D) :
    SyncAct T D → Except BPanic (Option (SyncState T D))
  | .call t op blkId i => pure ((callStep x.s t op blkId i).map fun s => { x with s })
  | .step t =>
    match x.s.stage t with
    | .reading blk => pure do
        let b ← x.s.c.sel t
        some ⟨{ x.s with
          c := { x.s.c with valid := update x.s.c.valid b true }
          data := update x.s.data b (x.disk (x.s.c.blockno b)) }.goto t (.loaded blk),
          x.disk⟩
    | .writing blk _ => pure do
        let b ← x.s.c.sel t
        some ⟨x.s.goto t (.written blk),
          update x.disk (x.s.c.blockno b) (x.s.data b)⟩
    | _ => do
        let s ← bioStep pid x.s t
        pure (s.map fun s => { x with s })

/-- The machine. The buffers hold anything before they are read. -/
def syncMachine [DecidableEq T] (pid : T → ℕ) (disk0 : ℕ → D) :
    Machine (SyncState T D) (SyncAct T D) where
  init x := ∃ data, x = ⟨.boot data, disk0⟩
  step x a := (syncStep pid x a).toOption.join

/-! ### What was written -/

/-- What was last written to a block, or what was there. -/
def lastWrite (disk0 : ℕ → D) (hist : List (ℕ × D)) (blk : ℕ) : D :=
  hist.foldl (fun v w => if w.1 = blk then w.2 else v) (disk0 blk)

theorem lastWrite_append (disk0 : ℕ → D) (hist : List (ℕ × D)) (blk : ℕ) (w : ℕ × D) :
    lastWrite disk0 (hist ++ [w]) blk =
      if w.1 = blk then w.2 else lastWrite disk0 hist blk := by
  simp [lastWrite]

/-- The history of the other blocks does not change. -/
theorem lastWrite_record (disk0 : ℕ → D) (hist : List (ℕ × D)) (op : BOp D) {blk blk' : ℕ}
    (hne : blk' ≠ blk) :
    lastWrite disk0 (op.record blk hist) blk' = lastWrite disk0 hist blk' := by
  cases op with
  | bread => rfl
  | bwrite v => rw [BOp.record, lastWrite_append, if_neg (Ne.symm hne)]

/-- The write a thread is about to do: it holds the sleeplock, and the disk does not have the
data yet. -/
def Stage.pending : Stage D → Option (ℕ × D)
  | .locked (.bwrite v) blk | .filled blk v | .writing blk v => some (blk, v)
  | .locked .bread _ | .idle | .get .. | .acquire .. | .reading .. | .loaded .. | .copied ..
  | .written .. | .dropping .. => none

/-- The data that a thread has put into its buffer, and the disk does not have yet. -/
def Stage.full : Stage D → Option D
  | .filled _ v | .writing _ v => some v
  | .idle | .get .. | .acquire .. | .locked .. | .reading .. | .loaded .. | .copied ..
  | .written .. | .dropping .. => none

variable {st : Stage D}

theorem Stage.holds_of_pending {blk : ℕ} {v : D}
    (h : st.pending = some (blk, v)) : st.holds = true ∧ st.selects = some blk := by
  cases st with
  | locked op blk' => cases op <;> simp_all [Stage.pending, Stage.holds, Stage.selects]
  | _ => simp_all [Stage.pending, Stage.holds, Stage.selects]

theorem Stage.holds_of_full {v : D} (h : st.full = some v) : st.holds = true := by
  cases st <;> simp_all [Stage.full, Stage.holds]

variable [Fintype T] {disk0 : ℕ → D} {x x' : SyncState T D} {s s' : BState T D}
  {disk : ℕ → D} {t t' : T} {b b' : BufId} {blk : ℕ} {v : D} {pid : T → ℕ}

/-- **The invariant of the data.** -/
structure DInv (disk0 : ℕ → D) (x : SyncState T D) : Prop where
  sinv : SInv x.s
  pending : ∀ t blk v, (x.s.stage t).pending = some (blk, v) →
    lastWrite disk0 x.s.hist blk = v
  disk : ∀ blk, (∀ t v, (x.s.stage t).pending ≠ some (blk, v)) →
    x.disk blk = lastWrite disk0 x.s.hist blk
  valid : ∀ b, x.s.c.dev b = ROOTDEV → x.s.c.valid b = true →
    x.s.data b = x.disk (x.s.c.blockno b) ∨
      ∃ t, x.s.c.lock b = some t ∧ (x.s.stage t).full ≠ none
  full : ∀ t b v, (x.s.stage t).full = some v → x.s.c.sel t = some b → x.s.data b = v
  loaded : ∀ t b blk, x.s.stage t = .loaded blk → x.s.c.sel t = some b → x.s.c.valid b = true
  copied : ∀ t blk out, x.s.stage t = .copied blk out → out = lastWrite disk0 x.s.hist blk

theorem dInv_init (disk0 : ℕ → D) (data : BufId → D) :
    DInv (T := T) disk0 ⟨.boot data, disk0⟩ := by
  refine ⟨sInv_boot data, ?_, fun _ _ => rfl, fun b _ hvalid => ?_, ?_, ?_, ?_⟩
  · intro t blk v h
    simp [BState.boot, Stage.pending] at h
  · simp [BState.boot, binit_fields] at hvalid
  · intro t b v h
    simp [BState.boot, Stage.full] at h
  · intro t b blk h
    simp [BState.boot] at h
  · intro t blk out h
    simp [BState.boot] at h

/-- What the invariant says of the stage of one thread. -/
def StageOk (disk0 : ℕ → D) (s : BState T D) (t : T) (st : Stage D) : Prop :=
  (∀ blk v, st.pending = some (blk, v) → lastWrite disk0 s.hist blk = v) ∧
    (∀ b v, st.full = some v → s.c.sel t = some b → s.data b = v) ∧
    (∀ b blk, st = .loaded blk → s.c.sel t = some b → s.c.valid b = true) ∧
    ∀ blk out, st = .copied blk out → out = lastWrite disk0 s.hist blk

namespace DInv

theorem not_pending (h : DInv disk0 x) (hholds : (x.s.stage t).holds = true)
    (hselects : (x.s.stage t).selects = some blk) (hnone : (x.s.stage t).pending = none)
    (t' : T) (v : D) : (x.s.stage t').pending ≠ some (blk, v) := by
  intro hp
  obtain ⟨hholds', hselects'⟩ := Stage.holds_of_pending hp
  obtain rfl := h.sinv.holder_unique hholds hholds' hselects hselects'
  rw [hnone] at hp
  cases hp

variable [DecidableEq T] {st : Stage D} {disk' : ℕ → D}

section

variable (h : DInv disk0 ⟨s, disk⟩)
include h

/-- **A step of one thread.** The other threads keep their buffers, what is in those that they
have locked, and what was last written to the blocks of these. -/
theorem move (hs : SInv s') (hstage : s'.stage = update s.stage t st)
    (hsel : ∀ t' ≠ t, s'.c.sel t' = s.c.sel t')
    (hlast : ∀ t' ≠ t, (s.stage t').holds = true → ∀ blk, (s.stage t').selects = some blk →
      lastWrite disk0 s'.hist blk = lastWrite disk0 s.hist blk)
    (hkeep : ∀ t' ≠ t, ∀ b, s.c.lock b = some t' →
      s'.data b = s.data b ∧ (s.c.valid b = true → s'.c.valid b = true))
    (hown : StageOk disk0 s' t st)
    (hdisk : ∀ blk, (∀ t' v, (s'.stage t').pending ≠ some (blk, v)) →
      disk' blk = lastWrite disk0 s'.hist blk)
    (hvalid : ∀ b, s'.c.dev b = ROOTDEV → s'.c.valid b = true →
      s'.data b = disk' (s'.c.blockno b) ∨
        ∃ t', s'.c.lock b = some t' ∧ (s'.stage t').full ≠ none) : DInv disk0 ⟨s', disk'⟩ := by
  have hok : ∀ t', StageOk disk0 s' t' (s'.stage t') := by
    rw [hstage]
    refine (forall_update_iff _ (StageOk disk0 s')).2 ⟨hown, fun t' ht =>
      ⟨fun blk v hp => ?_, fun b v hf hb => ?_, fun b blk hl hb => ?_, fun blk out hc => ?_⟩⟩
    · obtain ⟨hholds, hselects⟩ := Stage.holds_of_pending hp
      rw [hlast t' ht hholds blk hselects]
      exact h.pending t' blk v hp
    · rw [hsel t' ht] at hb
      rw [(hkeep t' ht b ((h.sinv.hold t' b).2 ⟨Stage.holds_of_full hf, hb⟩)).1]
      exact h.full t' b v hf hb
    · rw [hsel t' ht] at hb
      exact (hkeep t' ht b ((h.sinv.hold t' b).2 ⟨hl ▸ rfl, hb⟩)).2 (h.loaded t' b blk hl hb)
    · rw [hlast t' ht (hc ▸ rfl) blk (hc ▸ rfl)]
      exact h.copied t' blk out hc
  exact ⟨hs, fun t => (hok t).1, hdisk, hvalid, fun t => (hok t).2.1, fun t => (hok t).2.2.1,
    fun t => (hok t).2.2.2⟩

theorem disk_eq (hpending : st.pending = (s.stage t).pending)
    (hno : ∀ t' v, (update s.stage t st t').pending ≠ some (blk, v)) :
    disk blk = lastWrite disk0 s.hist blk := by
  refine h.disk blk fun t' v hp => hno t' v ?_
  obtain rfl | ht := eq_or_ne t' t
  · rwa [update_self, hpending]
  · rwa [update_of_ne ht]

theorem valid_eq (hdev : s.c.dev b = ROOTDEV)
    (hvalid : s.c.valid b = true)
    (hmine : s.c.lock b = some t → (s.stage t).full ≠ none → st.full ≠ none) :
    s.data b = disk (s.c.blockno b) ∨
      ∃ t', s.c.lock b = some t' ∧ (update s.stage t st t').full ≠ none := by
  obtain heq | ⟨t', hl, hf⟩ := h.valid b hdev hvalid
  · exact .inl heq
  refine .inr ⟨t', hl, ?_⟩
  obtain rfl | ht := eq_or_ne t' t
  · rw [update_self]
    exact hmine hl hf
  · rwa [update_of_ne ht]

theorem frame (hs : SInv s') (hstage : s'.stage = update s.stage t st)
    (hdata : s'.data = s.data) (hhist : s'.hist = s.hist)
    (hpending : st.pending = (s.stage t).pending) (hfull : st.full = (s.stage t).full)
    (hown : StageOk disk0 s' t st) (hsel : ∀ t' ≠ t, s'.c.sel t' = s.c.sel t')
    (hvalid : ∀ b, s'.c.dev b = ROOTDEV → s'.c.valid b = true →
      s.c.dev b = ROOTDEV ∧ s.c.valid b = true ∧ s'.c.blockno b = s.c.blockno b)
    (hkeep : ∀ t' b, s.c.sel t' = some b → s.c.valid b = true → s'.c.valid b = true)
    (hlock : ∀ b t', s.c.lock b = some t' → s'.c.lock b = some t' ∨ t' = t ∧ st.full = none) :
    DInv disk0 ⟨s', disk⟩ := by
  refine h.move hs hstage hsel (fun _ _ _ _ _ => by rw [hhist]) (fun t' _ b hl => ?_) hown
    (fun blk hno => ?_) fun b hdev hv => ?_
  · exact ⟨by rw [hdata], hkeep t' b ((h.sinv.hold t' b).1 hl).2⟩
  · rw [hhist]
    exact h.disk_eq hpending (hstage ▸ hno)
  · obtain ⟨hdev', hv', hblk⟩ := hvalid b hdev hv
    rw [hdata, hblk, hstage]
    refine (h.valid_eq hdev' hv' fun _ hf => hfull ▸ hf).imp_right ?_
    rintro ⟨t', hl, hf⟩
    refine ⟨t', (hlock b t' hl).resolve_right ?_, hf⟩
    rintro ⟨rfl, hnone⟩
    exact hf (by rw [update_self, hnone])

theorem goto (hs : SInv (s.goto t st))
    (hpending : st.pending = (s.stage t).pending) (hfull : st.full = (s.stage t).full)
    (hown : StageOk disk0 s t st) : DInv disk0 ⟨s.goto t st, disk⟩ :=
  h.frame hs rfl rfl rfl hpending hfull hown (fun _ _ => rfl) (fun _ hdev hv => ⟨hdev, hv, rfl⟩)
    (fun _ _ _ hv => hv) fun _ _ hl => .inl hl

theorem acquire {op : BOp D} (hstage : s.stage t = .acquire op blk)
    (hsel : s.c.sel t = some b) (hfree : s.c.lock b = none) :
    DInv disk0 ⟨{ s with
      c := { s.c with lock := update s.c.lock b (some t) }
      hist := op.record blk s.hist }.goto t (.locked op blk), disk⟩ := by
  have hs := h.sinv.acquire hstage hsel hfree (op.record blk s.hist)
  refine h.move hs rfl (fun _ _ => rfl) (fun t' ht hholds blk' hselects => ?_)
    (fun _ _ _ _ => ⟨rfl, id⟩) ?_ (fun blk' hno => ?_) fun b' hdev hv => ?_
  · -- nobody else holds the block
    refine lastWrite_record disk0 s.hist op ?_
    rintro rfl
    exact ht (hs.holder_unique (by simpa [BState.goto, ht] using hholds)
      (by simp [BState.goto, Stage.holds]) (by simpa [BState.goto, ht] using hselects)
      (by simp [BState.goto, Stage.selects]))
  · cases op with
    | bread => simp [StageOk, Stage.pending, Stage.full]
    | bwrite w =>
      simp only [StageOk, Stage.pending, Stage.full, Option.some.injEq, Prod.mk.injEq]
      refine ⟨?_, by simp, by simp, by simp⟩
      rintro _ _ ⟨rfl, rfl⟩
      simp [BState.goto, BOp.record, lastWrite_append]
  · have hold : disk blk' = lastWrite disk0 s.hist blk' := by
      refine h.disk blk' fun t' v hp => ?_
      have ht : t' ≠ t := by
        rintro rfl
        simp [hstage, Stage.pending] at hp
      exact hno t' v (by simpa [BState.goto, ht] using hp)
    obtain rfl | hne := eq_or_ne blk' blk
    · cases op with
      | bread => exact hold
      | bwrite v => exact absurd (by simp [BState.goto, Stage.pending]) (hno t v)
    · exact hold.trans (lastWrite_record disk0 s.hist op hne).symm
  · have hmine : s.c.lock b' = some t → (s.stage t).full ≠ none →
        (Stage.locked op blk).full ≠ none := by
      simp [hstage, Stage.full]
    refine (h.valid_eq hdev hv hmine).imp_right ?_
    rintro ⟨t', hl, hf⟩
    have hb : b' ≠ b := ne_of_values hl hfree (by simp)
    exact ⟨t', by simpa [BState.goto, hb] using hl, hf⟩

theorem fill (hstage : s.stage t = .locked (.bwrite v) blk)
    (hsel : s.c.sel t = some b)
    (hs : SInv ({ s with data := update s.data b v }.goto t (.filled blk v))) :
    DInv disk0 ⟨{ s with data := update s.data b v }.goto t (.filled blk v),
      disk⟩ := by
  have hmine : s.c.lock b = some t := (h.sinv.hold t b).2 ⟨hstage ▸ rfl, hsel⟩
  have hpending : (Stage.filled blk v).pending = (s.stage t).pending := by rw [hstage]; rfl
  refine h.move hs rfl (fun _ _ => rfl) (fun _ _ _ _ _ => rfl) (fun t' ht b' hl => ?_) ?_
    (fun blk' hno => h.disk_eq hpending hno) fun b' hdev hv => ?_
  · have hb : b' ≠ b := ne_of_values hl hmine (by simp [ht])
    exact ⟨update_of_ne hb _ _, id⟩
  · refine ⟨fun blk' v' hp => h.pending t blk' v' (hpending ▸ hp), fun b' v' hf hb => ?_,
      nofun, nofun⟩
    obtain rfl : b = b' := Option.some.inj (hsel.symm.trans hb)
    obtain rfl : v = v' := by simpa [Stage.full] using hf
    simp [BState.goto]
  · obtain rfl | hb := eq_or_ne b' b
    · exact .inr ⟨t, hmine, by simp [BState.goto, Stage.full]⟩
    · simp only [BState.goto, update_of_ne hb]
      exact h.valid_eq hdev hv fun _ _ => by simp [Stage.full]

omit [DecidableEq T] in
/-- **The copy out of the buffer is what was last written.** -/
theorem data_eq (hstage : s.stage t = .loaded blk)
    (hsel : s.c.sel t = some b) : s.data b = lastWrite disk0 s.hist blk := by
  have hholds : (s.stage t).holds = true := by rw [hstage]; rfl
  have hselects : (s.stage t).selects = some blk := by rw [hstage]; rfl
  obtain ⟨hdev, hblk⟩ := h.sinv.block hselects hsel
  have hdisk : disk blk = lastWrite disk0 s.hist blk :=
    h.disk blk fun t' v => h.not_pending hholds hselects (by simp only [hstage]; rfl) t' v
  obtain heq | ⟨t', hl, hf⟩ := h.valid b hdev (h.loaded t b blk hstage hsel)
  · rw [← hdisk, ← hblk]
    exact heq
  · -- the thread itself holds the buffer
    rw [(h.sinv.hold t b).2 ⟨hholds, hsel⟩] at hl
    cases hl
    rw [hstage] at hf
    exact absurd rfl hf

/-- The block is read from the disk, and the buffer is valid. -/
theorem read (hstage : s.stage t = .reading blk)
    (hsel : s.c.sel t = some b) :
    DInv disk0 ⟨{ s with
      c := { s.c with valid := update s.c.valid b true }
      data := update s.data b (disk (s.c.blockno b)) }.goto t (.loaded blk),
      disk⟩ := by
  have hs : SInv ({ s with
      c := { s.c with valid := update s.c.valid b true }
      data := update s.data b (disk (s.c.blockno b)) }.goto t (.loaded blk)) :=
    (h.sinv.congr _ _ _).goto (by simp only [hstage]; rfl) (by simp only [hstage]; rfl)
  have hmine : s.c.lock b = some t := (h.sinv.hold t b).2 ⟨hstage ▸ rfl, hsel⟩
  have hpending : (Stage.loaded blk).pending = (s.stage t).pending := by rw [hstage]; rfl
  refine h.move hs rfl (fun _ _ => rfl) (fun _ _ _ _ _ => rfl) (fun t' ht b' hl => ?_) ?_
    (fun blk' hno => h.disk_eq hpending hno) fun b' hdev hv => ?_
  · have hb : b' ≠ b := ne_of_values hl hmine (by simp [ht])
    simp [BState.goto, hb]
  · refine ⟨by simp [Stage.pending], by simp [Stage.full], fun b' _ _ hb => ?_, by simp⟩
    obtain rfl : b = b' := Option.some.inj (hsel.symm.trans hb)
    simp [BState.goto]
  · obtain rfl | hb := eq_or_ne b' b
    · exact .inl (by simp [BState.goto])
    · simp only [BState.goto, update_of_ne hb] at hv ⊢
      exact h.valid_eq hdev hv fun _ hf => absurd (by rw [hstage]; rfl) hf

theorem write (hstage : s.stage t = .writing blk v)
    (hsel : s.c.sel t = some b) :
    DInv disk0 ⟨s.goto t (.written blk),
      update disk (s.c.blockno b) (s.data b)⟩ := by
  have hs : SInv (s.goto t (.written blk)) :=
    h.sinv.goto (by simp only [hstage]; rfl) (by simp only [hstage]; rfl)
  obtain ⟨hdev0, hblk⟩ : s.c.dev b = ROOTDEV ∧ s.c.blockno b = blk :=
    h.sinv.block (by simp only [hstage]; rfl) hsel
  have hdata : s.data b = v := h.full t b v (by simp only [hstage]; rfl) hsel
  have hlast : lastWrite disk0 s.hist blk = v :=
    h.pending t blk v (by simp only [hstage]; rfl)
  refine h.move hs rfl (fun _ _ => rfl) (fun _ _ _ _ _ => rfl) (fun _ _ _ _ => ⟨rfl, id⟩)
    (by simp [StageOk, Stage.pending, Stage.full]) (fun blk' hno => ?_) fun b' hdev hv => ?_
  · obtain rfl | heq := eq_or_ne blk' blk
    · simp [BState.goto, hblk, hdata, hlast]
    have hold : disk blk' = lastWrite disk0 s.hist blk' := by
      refine h.disk blk' fun t' v' hp => ?_
      have ht : t' ≠ t := by
        rintro rfl
        simp only [hstage, Stage.pending, Option.some.injEq, Prod.mk.injEq] at hp
        exact heq hp.1.symm
      exact hno t' v' (by simpa [BState.goto, ht] using hp)
    simpa [BState.goto, hblk, heq] using hold
  · obtain rfl | hb := eq_or_ne b' b
    · exact .inl (by simp [BState.goto])
    · -- another buffer has another block
      have hne : s.c.blockno b' ≠ s.c.blockno b := fun heq =>
        hb (h.sinv.cache.unique b' b hdev hdev0 heq)
      rw [show (s.goto t (.written blk)).c.blockno b' = s.c.blockno b' from rfl, update_of_ne hne]
      refine h.valid_eq hdev hv fun hl _ => ?_
      exact absurd (Option.some.inj (((h.sinv.hold t b').1 hl).2.symm.trans hsel)) hb

/-- **A step up to the driver keeps the invariant.** -/
theorem bioStep (hstep : BioStep s t s') :
    DInv disk0 ⟨s', disk⟩ := by
  have hs := h.sinv.step hstep
  cases hstep with
  | hit hstage hdev hblk =>
    exact h.frame hs rfl rfl rfl (hstage ▸ rfl) (hstage ▸ rfl)
      (by simp [StageOk, Stage.pending, Stage.full]) (fun _ ht => update_of_ne ht _ _)
      (fun _ hdev hv => ⟨hdev, hv, rfl⟩) (fun _ _ _ hv => hv) fun _ _ hl => .inl hl
  | @recycle op blk b hstage hnone hzero =>
    refine h.frame hs rfl rfl rfl (hstage ▸ rfl) (hstage ▸ rfl)
      (by simp [StageOk, Stage.pending, Stage.full]) (fun _ ht => update_of_ne ht _ _)
      (fun b' hdev hv => ?_) (fun t' b' hsel' hv => ?_) fun _ _ hl => .inl hl
    · have hb : b' ≠ b := by
        rintro rfl
        simp [BState.goto, Cache.recycle] at hv
      simp only [BState.goto, Cache.recycle, update_of_ne hb] at hdev hv ⊢
      exact ⟨hdev, hv, trivial⟩
    · -- nobody has selected the buffer
      have hb : b' ≠ b := by
        rintro rfl
        have hpos : 0 < s.c.refcnt b' := h.sinv.cache.refcnt_pos hsel'
        omega
      simpa [BState.goto, Cache.recycle, hb] using hv
  | acquire hstage hsel hfree => exact h.acquire hstage hsel hfree
  | valid hstage hsel hvalid =>
    refine h.goto hs (hstage ▸ rfl) (hstage ▸ rfl)
      ⟨by simp [Stage.pending], by simp [Stage.full], fun b' _ _ hb' => ?_, by simp⟩
    exact Option.some.inj (hsel.symm.trans hb') ▸ hvalid
  | invalid hstage _ _ =>
    exact h.goto hs (hstage ▸ rfl) (hstage ▸ rfl) (by simp [StageOk, Stage.pending, Stage.full])
  | @submit blk v b hstage _ =>
    have hp : (Stage.writing blk v).pending = (s.stage t).pending := by rw [hstage]; rfl
    have hf : (Stage.writing blk v).full = (s.stage t).full := by rw [hstage]; rfl
    exact h.goto hs hp hf ⟨hp ▸ h.pending t, fun b v => hf ▸ h.full t b v, by simp, by simp⟩
  | fill hstage hsel => exact h.fill hstage hsel hs
  | copy hstage hsel =>
    refine h.goto hs (hstage ▸ rfl) (hstage ▸ rfl)
      ⟨by simp [Stage.pending], by simp [Stage.full], by simp, ?_⟩
    rintro _ _ ⟨rfl, rfl⟩
    exact h.data_eq hstage hsel
  | @release blk b hstage hsel =>
    have hquiet : (s.stage t).pending = none ∧ (s.stage t).full = none ∧
        (s.stage t).holds = true := by
      obtain ⟨out, hstage⟩ | hstage := hstage <;> rw [hstage] <;> exact ⟨rfl, rfl, rfl⟩
    obtain ⟨hp, hf, hholds⟩ := hquiet
    refine h.frame hs rfl rfl rfl (hp ▸ rfl) (hf ▸ rfl)
      (by simp [StageOk, Stage.pending, Stage.full]) (fun _ _ => rfl)
      (fun _ hdev hv => ⟨hdev, hv, rfl⟩) (fun _ _ _ hv => hv) fun b' t' hl => ?_
    obtain rfl | hb := eq_or_ne b' b
    · rw [(h.sinv.hold t b').2 ⟨hholds, hsel⟩] at hl
      exact .inr ⟨(Option.some.inj hl).symm, rfl⟩
    · exact .inl (by simpa [BState.goto, Cache.releasesleep, hb] using hl)
  | @drop blk b hstage hsel =>
    obtain ⟨hsel', hlock, hdev, hblk, hvalid⟩ := s.c.drop_fields (t := t) (b := b)
    refine h.frame hs rfl rfl rfl (hstage ▸ rfl) (hstage ▸ rfl)
      (by simp [StageOk, Stage.pending, Stage.full]) (fun t' ht => ?_) (fun b' => ?_)
      (fun t' b' _ => ?_) fun b' t' hl => .inl (hlock ▸ hl)
    · simp [BState.goto, hsel', ht]
    · simp only [BState.goto, hdev, hvalid, hblk]
      exact fun hdev hv => ⟨hdev, hv, trivial⟩
    · simp only [BState.goto, hvalid]
      exact id

end

/-- **Every step keeps the invariant of the data**, and panics only when no buffer is free. -/
theorem step (h : DInv disk0 x) (pid : T → ℕ) (a : SyncAct T D) :
    Ends (fun e => e ≠ .noBuffers ∨ ∀ t, x.s.c.sel t = none → ∃ b, x.s.c.refcnt b = 0)
      (fun o => ∀ x' ∈ o, DInv disk0 x') (syncStep pid x a) := by
  obtain ⟨s, disk⟩ := x
  -- the steps of the cache
  have hbio : ∀ t, Ends (fun e => e ≠ .noBuffers ∨ ∀ t, s.c.sel t = none → ∃ b, s.c.refcnt b = 0)
      (fun o => ∀ x' ∈ o, DInv disk0 x') (do
        let s' ← Bio.bioStep pid s t
        pure (s'.map fun s' => (⟨s', disk⟩ : SyncState T D))) := by
    intro t
    refine (h.sinv.bioStep_ends pid t).bind fun o ho => ?_
    intro x' hx'
    obtain ⟨s', hs', rfl⟩ := Option.mem_map.1 hx'
    exact h.bioStep (ho s' hs')
  cases a with
  | call t op blkId i =>
    intro x' hx'
    obtain ⟨s', hs', rfl⟩ := Option.mem_map.1 hx'
    obtain ⟨hs, hidle, rfl⟩ := h.sinv.call hs'
    have hidle : s.stage t = .idle := hidle
    exact h.goto hs (hidle ▸ rfl) (hidle ▸ rfl) (by simp [StageOk, Stage.pending, Stage.full])
  | step t =>
    cases hstage : s.stage t with
    | reading blk =>
      obtain ⟨b, hsel⟩ : ∃ b, s.c.sel t = some b := h.sinv.selected (by simp only [hstage]; rfl)
      simp only [syncStep, hstage, hsel]
      rintro _ ⟨rfl⟩
      exact h.read hstage hsel
    | writing blk v =>
      obtain ⟨b, hsel⟩ : ∃ b, s.c.sel t = some b := h.sinv.selected (by simp only [hstage]; rfl)
      simp only [syncStep, hstage, hsel]
      rintro _ ⟨rfl⟩
      exact h.write hstage hsel
    | _ =>
      simp only [syncStep, hstage]
      exact hbio t

end DInv

/-! ### The result -/

variable [DecidableEq T]

/-- The invariant holds in every run. -/
theorem dInv_of_reach (h : (syncMachine pid disk0).Reach Machine.anyStep x) : DInv disk0 x := by
  refine Machine.Reach.invariant ?_ (fun x a x' hx _ hstep => ?_) h
  · rintro _ ⟨data, rfl⟩
    exact dInv_init disk0 data
  · have hends := hx.step pid a
    simp only [syncMachine] at hstep
    rcases hr : syncStep pid x a with e | o
    · simp [hr, Except.toOption] at hstep
    rw [hr] at hends hstep
    exact hends x' (by simpa [Except.toOption] using hstep)

omit [DecidableEq T] in
/-- **The cache is correct** in a state: a thread that has copied a block has what was last
written to it, and the buffers, their references, users and list are as they should be. -/
structure CacheCorrect (disk0 : ℕ → D) (s : BState T D) : Prop where
  copied : ∀ t blk out, s.stage t = .copied blk out → out = lastWrite disk0 s.hist blk
  unique : ∀ b b', s.c.dev b = ROOTDEV → s.c.dev b' = ROOTDEV →
    s.c.blockno b = s.c.blockno b' → b = b'
  refcnt : ∀ b, s.c.refcnt b = tally (· = some b) s.c.sel
  user : ∀ t t' b, (s.stage t).holds = true → s.c.sel t = some b →
    (s.stage t').holds = true → s.c.sel t' = some b → t = t'
  list : ∃ l, Listed s.c l ∧ l.Perm (List.finRange NBUF)

/-- **The cache is correct** in every interleaving of reads and writes by at most `NBUF`
threads, and no step panics. -/
theorem cache_correct (hcard : Fintype.card T ≤ NBUF)
    (h : (syncMachine pid disk0).Reach Machine.anyStep x) :
    CacheCorrect disk0 x.s ∧ ∀ a, ∃ o, syncStep pid x a = .ok o := by
  have hinv := dInv_of_reach h
  obtain ⟨l, hl, hall⟩ := hinv.sinv.cache.list
  refine ⟨⟨hinv.copied, hinv.sinv.cache.unique, hinv.sinv.cache.refcnt, ?_, l, hl, ?_⟩,
    fun a => ?_⟩
  · exact fun t t' b => hinv.sinv.user_unique
  · exact (List.perm_ext_iff_of_nodup hl.nodup (List.nodup_finRange NBUF)).2 fun b => by
      simp [hall b]
  · have hends := hinv.step pid a
    cases hr : syncStep pid x a with
    | ok o => exact ⟨o, rfl⟩
    | error e =>
      rw [hr] at hends
      exact absurd (.inr fun t hsel => hinv.sinv.cache.exists_unused hcard hsel) hends

set_option maxRecDepth 10000 in
/-- One thread writes a block, and another one reads it: the buffer is not valid after the
write, and the block is read from the disk. -/
theorem cache_correct_writeRead : ∃ x : SyncState Bool ℕ,
    (syncMachine (fun _ => 0) fun _ => 0).Reach Machine.anyStep x ∧
      x.s.stage true = .copied 7 5 ∧ lastWrite (fun _ => 0) x.s.hist 7 = 5 := by
  have hrun : (syncMachine (fun _ => 0) fun _ => 0).exec
      (⟨.boot fun _ => 0, fun _ => 0⟩ : SyncState Bool ℕ)
      (.call false (.bwrite 5) 4 3 :: List.replicate 7 (.step false) ++
        .call true .bread 7 0 :: List.replicate 5 (.step true)) = some _ := rfl
  have hreach := Machine.reach_of_exec
    (M := syncMachine (fun _ => 0) fun _ => 0) ⟨fun _ => 0, rfl⟩ hrun
  have hcopied := (cache_correct (by decide) hreach).1.copied true 7 5 rfl
  exact ⟨_, hreach, rfl, hcopied.symm⟩

end XVapor.Bio
