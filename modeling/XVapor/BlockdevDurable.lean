import XVapor.BlockdevAsync
import XVapor.BlockdevSync

/-!
# Durability of Disk Writes

When every submitted request has completed, does the disk hold what was last written? Two
things can go wrong. A write that finds fewer than three free descriptors gives up, and nobody
tries again. And a write is not waited for: the buffer is released, recycled for another block
and overwritten, and the device, when it reads the buffer at last, writes the data of the new
block to the old one.

`careful` is the condition on a step under which neither happens: a write that allocates its
descriptors finds three, and no thread overwrites a buffer from which the device still has to
read the data of another block. Writes of the same block need no such care: the device may read
the data of the later one twice.

## Main results

* `durable_of_careful`: **in runs of careful steps, writes are durable**.
* `write_lost`: a run that loses a write.
-/

namespace XVapor.Virtio

open Function

/-- The request of the call was submitted. -/
def Pc.published {B : Type} : Pc B → Bool
  | .submitted .. | .test .. | .asleep .. => true
  | .idle | .enter .. | .alloc .. | .format .. | .ring .. | .publish .. => false

theorem mul_sectors (n : ℕ) : n * (BSIZE / 512) = n := Nat.mul_one n

end XVapor.Virtio

namespace XVapor.Bio

open Function
open Virtio

variable {T D : Type}

/-! ### The condition -/

/-- The thread overwrites the buffer it has locked: in `blockdev_bwrite`, and in `bread` if the
buffer is not valid. -/
def BOp.overwrites (valid : Bool) : BOp D → Bool
  | .bread => !valid
  | .bwrite _ => true

/-- The device has read the buffer for every other block. -/
def bufferRead (queue : List (Transfer ℕ BufId D)) (b : BufId) (blk : ℕ) : Bool :=
  queue.all fun q =>
    !(q.write && q.fetched.isNone && decide (q.buf = b)) || decide (q.sector = blk)

/-- **A careful step.** -/
def careful (x : AsyncState T D) : AsyncAct T D → Bool
  | .step t =>
    (match x.v.pc t with
      | .alloc _ true => decide (3 ≤ x.v.disk.nfree)
      | _ => true) &&
    match x.s.stage t, x.s.c.sel t with
      | .locked op blk, some b => !op.overwrites (x.s.c.valid b) || bufferRead x.queue b blk
      | _, _ => true
  | _ => true

/-- Every submitted request has completed: the device has taken all of them, and works on
none. -/
def AsyncState.completed (x : AsyncState T D) : Prop :=
  x.v.devIdx = x.v.disk.availIdx ∧ x.v.inflight = []

/-- The block and the data of a write that was begun and not submitted yet. -/
def AsyncState.writes (x : AsyncState T D) (t : T) : Option (ℕ × D) :=
  if (x.v.pc t).published then none else (x.s.stage t).pending

theorem bufferRead_iff {queue : List (Transfer ℕ BufId D)} {b : BufId} {blk : ℕ} :
    bufferRead queue b blk = true ↔
      ∀ q ∈ queue, q.write = true → q.fetched = none → q.buf = b → q.sector = blk := by
  simp only [bufferRead, List.all_eq_true, Bool.or_eq_true, Bool.not_eq_true',
    Bool.and_eq_false_iff, decide_eq_false_iff_not, decide_eq_true_eq, Option.isNone_eq_false_iff]
  refine forall₂_congr fun q _ => ?_
  constructor
  · rintro (((hw | hf) | hb) | hk) hw' hf' hb'
    · rw [hw] at hw'
      cases hw'
    · rw [hf'] at hf
      cases hf
    · exact absurd hb' hb
    · exact hk
  · intro h
    by_cases hw : q.write = true
    · cases hf : q.fetched with
      | none =>
        by_cases hb : q.buf = b
        · exact .inr (h hw hf hb)
        · exact .inl (.inr hb)
      | some u => exact .inl (.inl (.inr rfl))
    · exact .inl (.inl (.inl (Bool.not_eq_true _ ▸ hw)))

/-! ### The invariant -/

variable {disk0 : ℕ → D} {x x' : AsyncState T D} {a : AsyncAct T D} {s s' : BState T D}
  {t t' : T} {b b' : BufId} {blk : ℕ} {u : D} {pid : T → ℕ}

theorem AsyncState.holds_of_writes (h : x.writes t = some (blk, u)) :
    (x.s.stage t).holds = true ∧ (x.s.stage t).selects = some blk := by
  rw [AsyncState.writes] at h
  split at h
  · cases h
  · exact Stage.holds_of_pending h

/-- **Durability, in one state.** -/
structure Durable (disk0 : ℕ → D) (x : AsyncState T D) : Prop where
  pending : ∀ t blk u, x.writes t = some (blk, u) → lastWrite disk0 x.s.hist blk = u
  disk : ∀ blk, (∀ t u, x.writes t ≠ some (blk, u)) →
    eventual x.s.data x.disk x.queue blk = lastWrite disk0 x.s.hist blk
  full : ∀ t b u, (x.s.stage t).full = some u → x.s.c.sel t = some b → x.s.data b = u
  reading : ∀ t b blk, x.s.stage t = .reading blk → x.s.c.sel t = some b →
    ∀ q ∈ x.queue, q.write = true → q.fetched = none → q.buf = b → q.sector = blk
  order : x.queue.Pairwise fun q q' =>
    q.write = false → q'.write = true → q'.sector ≠ q.sector

theorem durable_init (disk0 : ℕ → D) (data : BufId → D) :
    Durable (T := T) disk0 ⟨.boot data, .boot, disk0, []⟩ where
  pending t blk u h := by simp [AsyncState.writes, BState.boot, VState.boot, Pc.published,
    Stage.pending] at h
  disk _ _ := rfl
  full t b u h := by simp [BState.boot, Stage.full] at h
  reading t b blk h := by simp [BState.boot] at h
  order := .nil

/-- What durability says of one thread. -/
def ThreadOk (disk0 : ℕ → D) (x : AsyncState T D) (t : T) : Prop :=
  (∀ blk u, x.writes t = some (blk, u) → lastWrite disk0 x.s.hist blk = u) ∧
    (∀ b u, (x.s.stage t).full = some u → x.s.c.sel t = some b → x.s.data b = u) ∧
    ∀ b blk, x.s.stage t = .reading blk → x.s.c.sel t = some b →
      ∀ q ∈ x.queue, q.write = true → q.fetched = none → q.buf = b → q.sector = blk

namespace Durable

/-- **A step of one thread** that submits nothing. The other threads keep their buffers, what they
have put there, and what was last written to the blocks that they write. -/
theorem move (h : Durable disk0 x) (hqueue : x'.queue = x.queue)
    (hwrites : ∀ t' ≠ t, x'.writes t' = x.writes t')
    (hstage : ∀ t' ≠ t, x'.s.stage t' = x.s.stage t')
    (hsel : ∀ t' ≠ t, x'.s.c.sel t' = x.s.c.sel t')
    (hlast : ∀ t' ≠ t, ∀ blk u, x.writes t' = some (blk, u) →
      lastWrite disk0 x'.s.hist blk = lastWrite disk0 x.s.hist blk)
    (hdata : ∀ t' ≠ t, ∀ b u, (x.s.stage t').full = some u → x.s.c.sel t' = some b →
      x'.s.data b = x.s.data b) (hown : ThreadOk disk0 x' t)
    (hdisk : ∀ blk, (∀ t u, x'.writes t ≠ some (blk, u)) →
      eventual x'.s.data x'.disk x.queue blk = lastWrite disk0 x'.s.hist blk) :
    Durable disk0 x' := by
  have hok : ∀ t', ThreadOk disk0 x' t' := by
    intro t'
    obtain rfl | ht := eq_or_ne t' t
    · exact hown
    refine ⟨fun blk u hw => ?_, fun b u hf hb => ?_, fun b blk hr hb => ?_⟩
    · rw [hwrites t' ht] at hw
      rw [hlast t' ht blk u hw]
      exact h.pending t' blk u hw
    · rw [hstage t' ht] at hf
      rw [hsel t' ht] at hb
      rw [hdata t' ht b u hf hb]
      exact h.full t' b u hf hb
    · rw [hqueue]
      exact h.reading t' b blk (hstage t' ht ▸ hr) (hsel t' ht ▸ hb)
  exact ⟨fun t => (hok t).1, hqueue ▸ hdisk, fun t => (hok t).2.1, fun t => (hok t).2.2,
    hqueue ▸ h.order⟩

variable {v' : VState T BufId}

theorem congr (h : Durable disk0 x)
    (hwrites : AsyncState.writes { x with v := v' } = x.writes) (hx' : x' = { x with v := v' }) :
    Durable disk0 x' := by
  subst hx'
  exact ⟨fun t => hwrites ▸ h.pending t, fun blk => hwrites ▸ h.disk blk, h.full, h.reading, h.order⟩

theorem disk_eq (h : Durable disk0 x) (hown : x'.writes t = x.writes t)
    (hother : ∀ t' ≠ t, x'.writes t' = x.writes t')
    (hno : ∀ t' u, x'.writes t' ≠ some (blk, u)) :
    eventual x.s.data x.disk x.queue blk = lastWrite disk0 x.s.hist blk := by
  refine h.disk blk fun t' u hw => hno t' u ?_
  obtain rfl | ht := eq_or_ne t' t
  · exact hown.trans hw
  · exact (hother t' ht).trans hw

variable [Fintype T] [DecidableEq T]

/-! ### Steps of the cache -/

omit [Fintype T] in
theorem callDriver_other (s : BState T D) (v : VState T BufId) (ht : t' ≠ t) :
    (callDriver s v t).pc t' = v.pc t' := by
  simp only [callDriver]
  split
  · exact update_of_ne ht _ _
  · rfl

theorem writes_cache (hw : Joined x.s x.v) (ha : Aside x.s s' t) :
    x.writes t = (x.s.stage t).pending ∧
      AsyncState.writes { x with s := s', v := callDriver s' x.v t } t =
        (s'.stage t).pending ∧
      ∀ t' ≠ t, AsyncState.writes { x with s := s', v := callDriver s' x.v t } t' =
        x.writes t' := by
  have hidle := hw.pc_idle ha.driver
  refine ⟨by simp [AsyncState.writes, hidle, Pc.published], ?_, fun t' ht => ?_⟩
  · have hpub : ((callDriver s' x.v t).pc t).published = false := by
      simp only [callDriver]
      split
      · simp [VState.goto, Pc.published]
      · rw [hidle]
        rfl
    simp [AsyncState.writes, hpub]
  · simp only [AsyncState.writes, callDriver_other s' x.v ht, ha.stage t' ht]

section

variable (h : Durable disk0 x)
include h

section

variable (hw : Joined x.s x.v)
include hw

/-- A step of the cache that leaves the data and the history alone. -/
theorem quiet (ha : Aside x.s s' t)
    (hdata : s'.data = x.s.data) (hhist : s'.hist = x.s.hist)
    (hpending : (s'.stage t).pending = (x.s.stage t).pending)
    (hfull : ∀ u, (s'.stage t).full = some u →
      (x.s.stage t).full = some u ∧ s'.c.sel t = x.s.c.sel t)
    (hreading : ∀ b blk, s'.stage t = .reading blk → s'.c.sel t = some b →
      ∀ q ∈ x.queue, q.write = true → q.fetched = none → q.buf = b → q.sector = blk) :
    Durable disk0 { x with s := s', v := callDriver s' x.v t } := by
  obtain ⟨hwt, hwt', hother⟩ := writes_cache hw ha
  have hsame := hwt'.trans (hpending.trans hwt.symm)
  refine h.move rfl hother ha.stage ha.sel (fun _ _ _ _ _ => by rw [hhist])
    (fun _ _ _ _ _ _ => by rw [hdata])
    ⟨fun blk u hp => ?_, fun b u hf hb => ?_, hreading⟩ fun blk hno => ?_
  · rw [hhist]
    exact h.pending t blk u (hsame.symm.trans hp)
  · obtain ⟨hf', hsel⟩ := hfull u hf
    rw [hdata]
    exact h.full t b u hf' (hsel.symm.trans hb)
  · rw [hdata, hhist]
    exact h.disk_eq hsame hother hno

theorem acquire {op : BOp D}
    (hstage : x.s.stage t = .acquire op blk) (hsel : x.s.c.sel t = some b)
    (hfree : x.s.c.lock b = none) (hs' : s' = { x.s with
      c := { x.s.c with lock := update x.s.c.lock b (some t) }
      hist := op.record blk x.s.hist }.goto t (.locked op blk)) :
    Durable disk0 { x with s := s', v := callDriver s' x.v t } := by
  have hbio : BioStep x.s t s' := hs' ▸ .acquire hstage hsel hfree
  have hs := hw.sinv.step hbio
  have ha := hw.sinv.aside hbio
  have hstage' : s'.stage t = .locked op blk := by simp [hs', BState.goto]
  obtain ⟨-, hwt', hother⟩ := writes_cache hw ha
  have hdata : s'.data = x.s.data := by rw [hs']; rfl
  have hhist : s'.hist = op.record blk x.s.hist := by rw [hs']; rfl
  refine h.move rfl hother ha.stage ha.sel (fun t' ht blk' u hwt => ?_)
    (fun _ _ _ _ _ _ => by rw [hdata])
    ⟨fun blk' u hwt => ?_, by simp [hstage', Stage.full], by simp [hstage']⟩ fun blk' hno => ?_
  · -- nobody else holds the block
    rw [hhist]
    refine lastWrite_record disk0 x.s.hist op ?_
    rintro rfl
    obtain ⟨hholds', hselects'⟩ := AsyncState.holds_of_writes hwt
    rw [← ha.stage t' ht] at hholds' hselects'
    exact ht (hs.holder_unique hholds' (hstage' ▸ rfl) hselects' (hstage' ▸ rfl))
  · rw [hwt', hstage'] at hwt
    cases op with
    | bread => simp [Stage.pending] at hwt
    | bwrite u' =>
      have heq : blk = blk' ∧ u' = u := by simpa [Stage.pending] using hwt
      obtain ⟨rfl, rfl⟩ := heq
      simp [hhist, BOp.record, lastWrite_append]
  · have hno' : ∀ t' u, x.writes t' ≠ some (blk', u) := by
      intro t' u hwt
      obtain rfl | ht := eq_or_ne t' t
      · have hquiet := (AsyncState.holds_of_writes hwt).1
        simp [hstage, Stage.holds] at hquiet
      · exact hno t' u ((hother t' ht).trans hwt)
    simp only [hdata, hhist]
    rw [h.disk blk' hno']
    obtain rfl | hblk := eq_or_ne blk' blk
    · cases op with
      | bread => rfl
      | bwrite u =>
        refine absurd ?_ (hno t u)
        rw [hwt', hstage']
        rfl
    · exact (lastWrite_record disk0 x.s.hist op hblk).symm

theorem fill
    (hstage : x.s.stage t = .locked (.bwrite u) blk) (hsel : x.s.c.sel t = some b)
    (hread : bufferRead x.queue b blk = true)
    (hs' : s' = { x.s with data := update x.s.data b u }.goto t (.filled blk u)) :
    Durable disk0 { x with s := s', v := callDriver s' x.v t } := by
  have hbio : BioStep x.s t s' := hs' ▸ .fill hstage hsel
  have ha := hw.sinv.aside hbio
  have hstage' : s'.stage t = .filled blk u := by simp [hs', BState.goto]
  obtain ⟨hwt, hwt', hother⟩ := writes_cache hw ha
  rw [hstage] at hwt
  rw [hstage'] at hwt'
  have hdata : s'.data = update x.s.data b u := by rw [hs']; rfl
  have hhist : s'.hist = x.s.hist := by rw [hs']; rfl
  have hsel' : s'.c.sel = x.s.c.sel := by rw [hs']; rfl
  refine h.move rfl hother ha.stage ha.sel (fun _ _ _ _ _ => by rw [hhist])
    (fun t' ht b' u' hf hb => ?_)
    ⟨fun blk' u' hp => ?_, fun b' u' hf hb => ?_, by simp [hstage']⟩ fun blk' hno => ?_
  · have hne : b' ≠ b := by
      rintro rfl
      exact ht (hw.sinv.user_unique (Stage.holds_of_full hf) hb (hstage ▸ rfl) hsel)
    rw [hdata, update_of_ne hne]
  · rw [hhist]
    exact h.pending t blk' u' (hwt.trans (hwt'.symm.trans hp))
  · rw [hsel', hsel] at hb
    cases hb
    obtain rfl : u = u' := by simpa [hstage', Stage.full] using hf
    simp [hdata]
  · have hblk : blk' ≠ blk := by
      rintro rfl
      exact hno t u hwt'
    rw [hhist, ← h.disk_eq (hwt'.trans hwt.symm) hother hno]
    -- the device reads nothing from the buffer that it writes elsewhere
    refine eventual_congr fun q hq hqw hqk hqf => ?_
    have hb : q.buf ≠ b := fun hb =>
      hblk (hqk.symm.trans (bufferRead_iff.1 hread q hq hqw hqf hb))
    rw [hdata, update_of_ne hb]

/-- **A careful step of the cache keeps durability.** -/
theorem cache (hcareful : careful x (.step t) = true)
    (hstep : BioStep x.s t s') :
    Durable disk0 { x with s := s', v := callDriver s' x.v t } := by
  have ha := hw.sinv.aside hstep
  -- what the condition says of a thread that overwrites its buffer
  have hover : ∀ {op blk b}, x.s.stage t = .locked op blk → x.s.c.sel t = some b →
      op.overwrites (x.s.c.valid b) = true → bufferRead x.queue b blk = true := by
    intro op blk b hstage hsel hover
    simp only [careful, hstage, hsel, hover, Bool.not_true, Bool.false_or,
      Bool.and_eq_true] at hcareful
    exact hcareful.2
  cases hstep with
  | hit hstage _ _ | recycle hstage _ _ | valid hstage _ _ | copy hstage _ | drop hstage _ =>
    refine h.quiet hw ha rfl rfl ?_ (fun u hf => ?_) fun b blk hr => ?_
    · simp [BState.goto, hstage, Stage.pending]
    · simp [BState.goto, Stage.full] at hf
    · simp [BState.goto] at hr
  | acquire hstage hsel hfree => exact h.acquire hw hstage hsel hfree rfl
  | @invalid blk b hstage hsel hvalid =>
    refine h.quiet hw ha rfl rfl ?_ (fun u hf => ?_) fun b' blk' hr hb => ?_
    · simp [BState.goto, hstage, Stage.pending]
    · simp [BState.goto, Stage.full] at hf
    · have hblk : blk = blk' := by simpa [BState.goto] using hr
      subst hblk
      obtain rfl : b = b' := Option.some.inj (hsel.symm.trans hb)
      exact bufferRead_iff.1 (hover hstage hsel (by simp [BOp.overwrites, hvalid]))
  | fill hstage hsel => exact h.fill hw hstage hsel (hover hstage hsel rfl) rfl
  | submit hstage _ =>
    refine h.quiet hw ha rfl rfl ?_ (fun u hf => ?_) fun b blk hr => ?_
    · simp [BState.goto, hstage, Stage.pending]
    · refine ⟨?_, rfl⟩
      simpa [BState.goto, hstage, Stage.full] using hf
    · simp [BState.goto] at hr
  | @release blk b hstage _ =>
    have hpending : (x.s.stage t).pending = none := by
      obtain ⟨out, hstage⟩ | hstage := hstage <;> rw [hstage] <;> rfl
    refine h.quiet hw ha rfl rfl ?_ (fun u hf => ?_) fun b blk hr => ?_
    · rw [hpending]
      simp [BState.goto, Stage.pending]
    · simp [BState.goto, Stage.full] at hf
    · simp [BState.goto] at hr

end

end

/-! ### Steps in the driver -/

theorem returnDriver_quiet (h : SInv s) (ht : (s.stage t).driver ≠ none) :
    (returnDriver s t).data = s.data ∧ (returnDriver s t).hist = s.hist ∧
      ((returnDriver s t).stage t).pending = none ∧ ((returnDriver s t).stage t).full = none ∧
      ∀ blk, (returnDriver s t).stage t ≠ .reading blk := by
  cases hstage : s.stage t with
  | reading blk =>
    obtain ⟨b, hsel, -⟩ := h.buf t blk (by rw [hstage]; rfl)
    simp [returnDriver, hstage, hsel, BState.goto, Stage.pending, Stage.full]
  | writing blk u => simp [returnDriver, hstage, BState.goto, Stage.pending, Stage.full]
  | _ => simp [hstage, Stage.driver] at ht

variable {w : Bool}

/-- A step in the driver that submits nothing and does not give up a write. -/
theorem drive (h : Durable disk0 x) (hw : Joined x.s x.v) {n : ℕ}
    (ht : (x.s.stage t).driver = some w) (hstep : DriverStep x.v t n v')
    (hsubmit : submit x.v t x.queue = x.queue)
    (hpub : v'.pc t = .idle ∧ (x.s.stage t).pending = none ∨
      (v'.pc t = .idle ∧ (x.v.pc t).published = true) ∨
      (v'.pc t ≠ .idle ∧ (v'.pc t).published = (x.v.pc t).published)) :
    Durable disk0 { x with
      v := v'
      queue := submit x.v t x.queue
      s := if v'.pc t = .idle then returnDriver x.s t else x.s } := by
  have hother : ∀ t' ≠ t, v'.pc t' = x.v.pc t' := fun t' htt => hstep.pc_other htt
  by_cases hidle : v'.pc t = .idle
  · obtain ⟨hdata, hhist, hpending, hfull, hreading⟩ :=
      returnDriver_quiet hw.sinv (t := t) (by simp [ht])
    obtain ⟨-, -, hstage, hsel, -, -⟩ := hw.sinv.returnDriver (t := t) (by simp [ht])
    have hbefore : x.writes t = none := by
      obtain ⟨-, hp⟩ | ⟨-, hp⟩ | ⟨hbusy, -⟩ := hpub
      · simp [AsyncState.writes, hp]
      · simp [AsyncState.writes, hp]
      · exact absurd hidle hbusy
    rw [if_pos hidle]
    refine h.move hsubmit (fun t' htt => ?_) hstage (fun _ _ => by rw [hsel])
      (fun _ _ _ _ _ => by rw [hhist]) (fun _ _ _ _ _ _ => by rw [hdata])
      ⟨by simp [AsyncState.writes, hpending], by simp [hfull],
        fun _ blk hr => absurd hr (hreading blk)⟩ fun blk hno => ?_
    · simp only [AsyncState.writes, hother t' htt, hstage t' htt]
    · rw [hdata, hhist]
      refine h.disk_eq (t := t) ?_ (fun t' htt => ?_) hno
      · rw [hbefore]
        simp [AsyncState.writes, hpending]
      · simp only [AsyncState.writes, hother t' htt, hstage t' htt]
  · have hsame : (v'.pc t).published = (x.v.pc t).published := by
      obtain ⟨hi, -⟩ | ⟨hi, -⟩ | ⟨-, hp⟩ := hpub
      · exact absurd hi hidle
      · exact absurd hi hidle
      · exact hp
    rw [if_neg hidle, hsubmit]
    refine h.congr (funext fun t' => ?_) rfl
    obtain rfl | htt := eq_or_ne t' t
    · simp only [AsyncState.writes, hsame]
    · simp only [AsyncState.writes, hother t' htt]

theorem publish (h : Durable disk0 x) (hw : Wired x) {n : ℕ}
    {c : Chain} (ht : (x.s.stage t).driver = some w) (hsel : x.s.c.sel t = some b)
    (hpc : x.v.pc t = .publish b w c) (hstep : DriverStep x.v t n v')
    (hpc' : v'.pc t = .submitted b w c) :
    Durable disk0 { x with
      v := v'
      queue := submit x.v t x.queue
      s := if v'.pc t = .idle then returnDriver x.s t else x.s } := by
  have hsubmit : submit x.v t x.queue =
      x.queue ++ [⟨c.i0, (x.v.disk.ops c.i0).sector, w, b, none⟩] := by
    simp only [submit, hpc]
  obtain ⟨blk, hselects, hholds⟩ := Stage.of_driver ht
  have hblock := hw.joined.sinv.block hselects hsel
  have hsector : (x.v.disk.ops c.i0).sector = blk := by
    have hok := hw.joined.sector t
    rw [hpc] at hok
    rwa [Pc.SectorOk, mul_sectors, hblock.2] at hok
  rw [if_neg (by simp [hpc']), hsubmit, hsector]
  -- the write of the thread is now in the queue
  have hwt : x.writes t = (x.s.stage t).pending := by simp [AsyncState.writes, hpc, Pc.published]
  have hwt' : ∀ (l : List (Transfer ℕ BufId D)),
      AsyncState.writes { x with v := v', queue := l } t = none := by
    intro l
    simp [AsyncState.writes, hpc', Pc.published]
  have hother : ∀ (l : List (Transfer ℕ BufId D)), ∀ t' ≠ t,
      AsyncState.writes { x with v := v', queue := l } t' = x.writes t' := by
    intro l t' htt
    simp only [AsyncState.writes, hstep.pc_other htt]
  refine ⟨fun t' blk' u hwrites => ?_, fun blk' hno => ?_, h.full,
    fun t' b' blk' hr hb q hq => ?_, ?_⟩
  · have htt : t' ≠ t := by
      rintro rfl
      rw [hwt'] at hwrites
      cases hwrites
    exact h.pending t' blk' u ((hother _ t' htt).symm.trans hwrites)
  · rw [eventual_concat]
    by_cases hc : w = true ∧ blk = blk'
    · obtain ⟨rfl, rfl⟩ := hc
      rw [if_pos ⟨rfl, rfl⟩]
      -- a write: its data is in the buffer
      cases hstage : x.s.stage t with
      | writing blk'' u =>
        obtain rfl : blk'' = blk := by simpa [hstage, Stage.selects] using hselects
        have hdata := h.full t b u (by rw [hstage]; rfl) hsel
        have hlast := h.pending t blk'' u (by rw [hwt, hstage]; rfl)
        rw [hlast]
        exact hdata
      | _ => simp [hstage, Stage.driver] at ht
    · rw [if_neg hc]
      refine h.disk blk' fun t' u hwrites => ?_
      obtain rfl | htt := eq_or_ne t' t
      · obtain ⟨-, hselects'⟩ := AsyncState.holds_of_writes hwrites
        rw [hselects] at hselects'
        cases hselects'
        cases w with
        | true => exact hc ⟨rfl, rfl⟩
        | false =>
          rw [hwt] at hwrites
          cases hstage : x.s.stage t' <;> simp_all [Stage.driver, Stage.pending]
      · exact hno t' u ((hother _ t' htt).trans hwrites)
  · intro hqw hqf hqb
    obtain hq | hq := List.mem_append.1 hq
    · exact h.reading t' b' blk' hr hb q hq hqw hqf hqb
    · -- the thread that reads holds another buffer, or reads itself
      rw [List.mem_singleton.1 hq] at hqw hqb ⊢
      simp only at hqw hqb
      subst hqb hqw
      have hstage' : x.s.stage t' = .reading blk' := hr
      obtain rfl := hw.joined.sinv.user_unique (hstage' ▸ rfl) hb hholds hsel
      simp [hstage', Stage.driver] at ht
  · rw [List.pairwise_append]
    refine ⟨h.order, List.pairwise_singleton _ _, fun q hq q' hq' hread hwrite heq => ?_⟩
    rw [List.mem_singleton.1 hq'] at hwrite heq
    simp only at hwrite heq
    subst hwrite
    -- the reader of an earlier request for the sector holds the same buffer
    obtain ⟨t', hstage', -⟩ := hw.reader hq hread
    have htt : t' = t := hw.joined.sinv.holder_unique (by rw [hstage']; rfl) hholds
      (by rw [hstage', ← heq]; rfl) hselects
    subst htt
    simp [hstage', Stage.driver] at ht

/-- **A careful step in the driver keeps durability.** -/
theorem driver (h : Durable disk0 x) (hw : Wired x) (hcareful : careful x (.step t) = true)
    (ht : (x.s.stage t).driver = some w)
    (hsel : x.s.c.sel t = some b) (hstep : DriverStep x.v t (x.s.c.blockno b) v') :
    Durable disk0 { x with
      v := v'
      queue := submit x.v t x.queue
      s := if v'.pc t = .idle then returnDriver x.s t else x.s } := by
  have htarget := hw.joined.pc_target ht hsel
  have hall := hstep
  cases hstep with
  | enter hpc _ | sleep hpc _ | wake hpc _ | alloc hpc _ _ | format hpc | ring hpc | mark hpc =>
    refine h.drive hw.joined ht hall (by simp only [submit, hpc]) (.inr (.inr ?_))
    simp [VState.goto, hpc, Pc.published]
  | @giveUp b' w' l hpc hfew _ =>
    cases w' with
    | true =>
      -- the condition: there are three free descriptors
      simp only [careful, hpc, Bool.and_eq_true, decide_eq_true_eq] at hcareful
      omega
    | false =>
      refine h.drive hw.joined ht hall (by simp only [submit, hpc]) (.inr (.inr ?_))
      simp [VState.goto, hpc, Pc.published]
  | @publish b' w' c hpc =>
    rw [hpc] at htarget
    cases htarget
    exact h.publish hw ht hsel hpc hall (by simp [VState.goto])
  | leave hpc | finish hpc _ _ =>
    refine h.drive hw.joined ht hall (by simp only [submit, hpc]) (.inr (.inl ?_))
    simp [VState.goto, hpc, Pc.published]

/-! ### Steps of the device -/

omit [Fintype T] [DecidableEq T] in
theorem fetch (h : Durable disk0 x) {id : ℕ} (hbuf : ∀ q ∈ x.queue, q.id = id → q.buf = b) :
    Durable disk0 { x with queue := x.queue.map (Transfer.fetch id (x.s.data b)) } := by
  refine ⟨h.pending, fun blk hno => ?_, h.full, fun t b' blk hr hb q' hq' hw hf hb' => ?_, ?_⟩
  · rw [← h.disk blk hno]
    exact eventual_fetch fun q hq hid => by rw [hbuf q hq hid]
  · obtain ⟨q, hq, rfl⟩ := List.mem_map.1 hq'
    obtain ⟨-, hbf, hwf, hsf, hff⟩ := q.fetch_fields id (x.s.data b)
    rw [hsf]
    exact h.reading t b' blk hr hb q hq (hwf ▸ hw) (hff hf) (hbf ▸ hb')
  · refine List.pairwise_map.2 (h.order.imp fun {q q'} hne hr hw => ?_)
    obtain ⟨-, -, hwf, hsf, -⟩ := q.fetch_fields id (x.s.data b)
    obtain ⟨-, -, hwf', hsf', -⟩ := q'.fetch_fields id (x.s.data b)
    rw [hsf, hsf']
    exact hne (hwf ▸ hr) (hwf' ▸ hw)

variable {q : Transfer ℕ BufId D} {l1 l2 : List (Transfer ℕ BufId D)}

omit [Fintype T] [DecidableEq T] in
theorem write (h : Durable disk0 x)
    (hqueue : x.queue = l1 ++ q :: l2) (hw : q.write = true) (hu : q.fetched = some u)
    (hfirst : ∀ q' ∈ l1, q'.sector ≠ q.sector) :
    Durable disk0 { x with
      queue := l1 ++ l2, disk := update x.disk q.sector u } := by
  have hsub : (l1 ++ l2).Sublist x.queue := by simp [hqueue]
  refine ⟨h.pending, fun blk hno => ?_, h.full, fun t b blk hr hb q' hq' => ?_,
    h.order.sublist hsub⟩
  · rw [← h.disk blk hno, hqueue]
    exact eventual_write (by simp [Transfer.value, hu]) hfirst hw
  · exact h.reading t b blk hr hb q' (hsub.subset hq')

omit [DecidableEq T] in
/-- A read takes effect: only its own thread uses the buffer. -/
theorem read (h : Durable disk0 x) (hw : Wired x) (hqueue : x.queue = l1 ++ q :: l2)
    (hread : q.write = false) (hfirst : ∀ q' ∈ l1, q'.sector ≠ q.sector) :
    Durable disk0 { x with
      queue := l1 ++ l2
      s := { x.s with data := update x.s.data q.buf (x.disk q.sector) } } := by
  have hsub : (l1 ++ l2).Sublist x.queue := by simp [hqueue]
  have hq : q ∈ x.queue := hqueue ▸ List.mem_append_right _ List.mem_cons_self
  -- the thread that waits for the read
  obtain ⟨t0, hstage0, hsel0⟩ := hw.reader hq hread
  -- no write to the sector is left
  have hnone : ∀ q' ∈ l1 ++ l2, q'.write = true → q'.sector ≠ q.sector := by
    intro q' hq' hwrite
    obtain hq' | hq' := List.mem_append.1 hq'
    · exact hfirst q' hq'
    · have horder := h.order
      rw [hqueue, List.pairwise_append, List.pairwise_cons] at horder
      exact horder.2.1.1 q' hq' hread hwrite
  refine ⟨h.pending, fun blk hno => ?_, fun t b u hf hb => ?_, fun t b blk hr hb q' hq' => ?_,
    h.order.sublist hsub⟩
  · rw [← h.disk blk hno, hqueue, ← eventual_erase_read hread]
    refine eventual_congr fun q' hq' hwrite hk hf => ?_
    have hb : q'.buf ≠ q.buf := by
      intro hb
      have hsec := h.reading t0 q.buf _ hstage0 hsel0 q' (hsub.subset hq') hwrite hf hb
      exact hnone q' hq' hwrite hsec
    exact update_of_ne hb _ _
  · have hne : b ≠ q.buf := by
      rintro rfl
      obtain rfl := hw.joined.sinv.user_unique (hstage0 ▸ rfl) hsel0 (Stage.holds_of_full hf) hb
      simp [hstage0, Stage.full] at hf
    simp only [update_of_ne hne]
    exact h.full t b u hf hb
  · exact h.reading t b blk hr hb q' (hsub.subset hq')

/-- **A careful step keeps durability.** -/
theorem step (h : Durable disk0 x) (hw : Wired x) (hcareful : careful x a = true)
    (hstep : AsyncStep x a x') : Durable disk0 x' := by
  -- the driver and the device change the data of no buffer but by a transfer
  have hvirtio : ∀ {v' : VState T BufId}, v'.pc = x.v.pc → Durable disk0 { x with v := v' } := by
    intro v' hpc
    refine h.congr (funext fun t => ?_) rfl
    simp only [AsyncState.writes, hpc]
  cases hstep with
  | @call t op blkId i hidle =>
    have hother : ∀ t' ≠ t, AsyncState.writes { x with
        s := x.s.goto t (.get op ((blkId + i) % 2 ^ 32)) } t' = x.writes t' := fun t' ht => by
      simp [AsyncState.writes, BState.goto, ht]
    refine h.move rfl hother (fun t' ht => update_of_ne ht _ _) (fun _ _ => rfl)
      (fun _ _ _ _ _ => rfl) (fun _ _ _ _ _ _ => rfl) ⟨?_, ?_, ?_⟩ fun blk hno => ?_
    · simp [AsyncState.writes, BState.goto, Stage.pending]
    · simp [BState.goto, Stage.full]
    · simp [BState.goto]
    · refine h.disk_eq ?_ hother hno
      simp [AsyncState.writes, BState.goto, hidle, Stage.pending]
  | cache hbio => exact h.cache hw.joined hcareful hbio
  | driver hd hsel hdriver => exact h.driver hw hcareful hd hsel hdriver
  | enter _ => exact hvirtio rfl
  | handler hhandler =>
    refine hvirtio ?_
    cases hhandler <;> rfl
  | take htake =>
    simp only [takeStep, Option.ite_none_left_eq_some, Option.some.injEq] at htake
    obtain ⟨-, rfl⟩ := htake
    exact hvirtio rfl
  | fetch hbuf => exact h.fetch hbuf
  | write hqueue hwrite hu hfirst => exact h.write hqueue hwrite hu hfirst
  | read hqueue hread hfirst => exact h.read hw hqueue hread hfirst
  | complete _ hcomplete =>
    obtain ⟨-, rfl⟩ := guard_eq_some.1 hcomplete
    exact hvirtio rfl

end Durable

/-! ### The result -/

variable [Fintype T] [DecidableEq T]

/-- **In runs of careful steps, writes are durable**: once every submitted request has
completed, a block holds what was last written to it, or what it held before, unless a thread
is about to write it. -/
theorem durable_of_careful (h : (asyncMachine pid disk0).Reach (fun x a => careful x a = true) x)
    (hdone : x.completed) (hno : ∀ t u, x.writes t ≠ some (blk, u)) :
    x.disk blk = lastWrite disk0 x.s.hist blk := by
  have hinv : Wired x ∧ Durable disk0 x := by
    refine Machine.Reach.invariant (I := fun x => Wired x ∧ Durable disk0 x) ?_
      (fun x a x' hx hcareful hstep => ?_) h
    · rintro _ ⟨data, rfl⟩
      exact ⟨wired_init data disk0, durable_init disk0 data⟩
    · have hcases := hx.1.asyncStep_cases hstep
      exact ⟨hx.1.step hcases, hx.2.step hx.1 hcareful hcases⟩
  have hempty := hinv.1.queued.eq_nil hinv.1.joined.vinv hdone.1 hdone.2
  have hdisk := hinv.2.disk blk hno
  rwa [hempty, eventual_nil] at hdisk

/-- A disk of zeros. -/
def zeroDisk : AsyncState Unit ℕ := ⟨.boot fun _ => 0, .boot, fun _ => 0, []⟩

/-- A call of `bwrite`, and `n` steps. -/
def writeSteps (v blk n : ℕ) : List (AsyncAct Unit ℕ) :=
  .call () (.bwrite v) blk 0 :: List.replicate n (.step ())

/-- A thread writes, and the device carries the write out. -/
def oneWriteRun : List (AsyncAct Unit ℕ) :=
  writeSteps 5 7 12 ++ [.take, .fetch 0, .effect 0, .complete 0]

/-- One write, carried out by the device. -/
theorem durable_of_careful_oneWrite : ∃ x : AsyncState Unit ℕ,
    (asyncMachine (fun _ => 0) fun _ => 0).Reach (fun x a => careful x a = true) x ∧
      x.completed ∧ lastWrite (fun _ => 0) x.s.hist 7 = 5 ∧ x.disk 7 = 5 := by
  have halong : (asyncMachine (fun _ => 0) fun _ => 0).Along
      (fun x a => careful x a = true) zeroDisk oneWriteRun := by
    decide +kernel
  obtain ⟨x, hx, htaken, hflight, hidle, hlast⟩ :
      ∃ x ∈ (asyncMachine (fun _ => 0) fun _ => 0).exec zeroDisk oneWriteRun,
        x.v.devIdx = x.v.disk.availIdx ∧ x.v.inflight = [] ∧ x.s.stage () = .idle ∧
          lastWrite (fun _ => 0) x.s.hist 7 = 5 := by
    decide +kernel
  have hinit : (asyncMachine (fun _ => 0) fun _ => 0).init zeroDisk := ⟨fun _ => 0, rfl⟩
  have hreach := (Machine.Reach.init hinit).exec_along halong hx
  have hno : ∀ t u, x.writes t ≠ some (7, u) := by
    rintro ⟨⟩ u
    simp [AsyncState.writes, hidle, Stage.pending]
  have hdisk := durable_of_careful hreach ⟨htaken, hflight⟩ hno
  exact ⟨x, hreach, ⟨htaken, hflight⟩, hlast, hdisk.trans hlast⟩

/-- A thread writes three times, and the device carries out two of the writes. -/
def lostRun : List (AsyncAct Unit ℕ) :=
  writeSteps 5 1 12 ++ writeSteps 6 2 12 ++ writeSteps 7 3 8 ++
    [.take, .take, .fetch 0, .fetch 3, .effect 3, .effect 0, .complete 0, .complete 3]

/-- **A write is lost**: with two writes under way, two descriptors are free, and the third write
gives up. When the two have completed and the thread is idle, the third block holds its old
contents. -/
theorem write_lost : ∃ x : AsyncState Unit ℕ,
    (asyncMachine (fun _ => 0) fun _ => 0).Reach Machine.anyStep x ∧ x.completed ∧
      x.s.stage () = .idle ∧ x.s.hist = [(1, 5), (2, 6), (3, 7)] ∧
      lastWrite (fun _ => 0) x.s.hist 3 = 7 ∧ x.disk 3 = 0 := by
  obtain ⟨x, hx, htaken, hflight, hidle, hhist, hdisk⟩ :
      ∃ x ∈ (asyncMachine (fun _ => 0) fun _ => 0).exec zeroDisk lostRun,
        x.v.devIdx = x.v.disk.availIdx ∧ x.v.inflight = [] ∧ x.s.stage () = .idle ∧
          x.s.hist = [(1, 5), (2, 6), (3, 7)] ∧ x.disk 3 = 0 := by
    decide +kernel
  have hinit : (asyncMachine (fun _ => 0) fun _ => 0).init zeroDisk := ⟨fun _ => 0, rfl⟩
  exact ⟨x, Machine.reach_of_exec hinit hx, ⟨htaken, hflight⟩, hidle, hhist, by rw [hhist]; rfl, hdisk⟩

end XVapor.Bio
