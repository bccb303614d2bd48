import XVapor.Blockdev
import XVapor.VirtioSafe
import XVapor.WriteQueue

/-!
# The Block Cache over the Virtio Disk

`blockdev_bread` and `blockdev_bwrite` down to the device: the threads in the cache
(`XVapor.Blockdev`), the driver with its descriptors and rings (`XVapor.Virtio`), and a device
that transfers data. The device takes a request from the avail ring, reads the buffer of a
write at some time, lets the request take effect, and completes it. Requests for the same
sector take effect in the order in which they were submitted; nothing else is ordered.

`queue` has the requests that were submitted and have not taken effect. The device finds the
sector and the buffer of a request through its chain of descriptors.

## Main results

* `diskSafe_of_reach`: every interleaving is safe.
-/

namespace XVapor.Virtio

open Function

/-! ### Calls of the driver -/

variable {T B : Type} {p : Pc B} {b : B} {c : Chain} {v v' : VState T B} {t t' : T} {n : ℕ}

/-- The buffer and the direction of a call of the driver. -/
def Pc.target : Pc B → Option (B × Bool)
  | .idle => none
  | .enter b w | .alloc b w | .format b w _ | .ring b w _ | .publish b w _
  | .submitted b w _ => some (b, w)
  | .test b _ | .asleep b _ => some (b, false)

/-- The command of the chain that is being built has the sector of the buffer. -/
def Pc.SectorOk (ops : ℕ → BlkReq) (blockno : B → ℕ) : Pc B → Prop
  | .ring b _ c | .publish b _ c => (ops c.i0).sector = blockno b * (BSIZE / 512)
  | .idle | .enter .. | .alloc .. | .format .. | .submitted .. | .test .. | .asleep .. => True

theorem Pc.sectorOk_of_outside {ops : ℕ → BlkReq} {blockno : B → ℕ}
    (h : p.inside = false) : p.SectorOk ops blockno := by
  cases p <;> trivial

theorem Pc.target_eq_none : p.target = none ↔ p = .idle := by
  cases p <;> simp [Pc.target]

theorem Pc.target_of_waits (h : p.waits = some (b, c)) : p.target = some (b, false) := by
  cases p with
  | submitted b' w c' => cases w <;> simp_all [Pc.waits, Pc.target]
  | test b' c' | asleep b' c' => simp_all [Pc.waits, Pc.target]
  | _ => simp [Pc.waits] at h

theorem Pc.target_of_buf (h : p.buf = some b) : ∃ w, p.target = some (b, w) := by
  cases p <;> simp_all [Pc.buf, Pc.target]

/-- The command and the buffer of a request, as the device finds them. -/
def chainOf (d : Disk B) (id : ℕ) : Option (BlkReq × B) :=
  match (d.desc id).addr, (d.desc (d.desc id).next).addr with
  | .op i, .data b => some (d.ops i, b)
  | _, _ => none

/-- The queue after a step of a thread in the driver: `disk.avail->idx += 1` submits. -/
def submit {D : Type} (v : VState T B) (t : T) (queue : List (Transfer ℕ B D)) :
    List (Transfer ℕ B D) :=
  match v.pc t with
  | .publish b w c => queue ++ [⟨c.i0, (v.disk.ops c.i0).sector, w, b, none⟩]
  | _ => queue

namespace DriverStep

variable [DecidableEq T] [DecidableEq B]

section

variable (h : DriverStep v t n v')
include h

/-- A step in the driver is one of a thread that is inside, or may enter. -/
theorem inside : (v.pc t).inside = true ∨ v.lock = none := by
  cases h with
  | enter _ hlock | wake _ hlock => exact .inr hlock
  | alloc hpc _ _ | giveUp hpc _ _ | finish hpc _ _ | sleep hpc _ | format hpc | ring hpc
  | publish hpc | leave hpc | mark hpc => exact .inl (by rw [hpc]; rfl)

theorem pc_other (ht : t' ≠ t) : v'.pc t' = v.pc t' := by
  cases h <;> exact update_of_ne ht _ _

theorem target_eq :
    v'.pc t = .idle ∨ v'.pc t ≠ .idle ∧ (v'.pc t).target = (v.pc t).target := by
  cases h with
  | leave _ | finish _ _ _ => exact .inl (update_self ..)
  | @giveUp b w l hpc _ _ =>
    cases w with
    | true => exact .inl (update_self ..)
    | false => exact .inr (by simp [VState.goto, hpc, Pc.target])
  | enter hpc _ | wake hpc _ | sleep hpc _ | alloc hpc _ _ | format hpc | ring hpc | publish hpc
  | mark hpc =>
    exact .inr (by simp [VState.goto, hpc, Pc.target])

theorem sectorOk {blockno : B → ℕ}
    (hok : (v.pc t).SectorOk v.disk.ops blockno)
    (hn : ∀ b, (v.pc t).buf = some b → blockno b = n) :
    (v'.pc t).SectorOk v'.disk.ops blockno := by
  cases h with
  | @format b w c hpc =>
    have hb : blockno b = n := hn b (by rw [hpc]; rfl)
    simp [VState.goto, Pc.SectorOk, formatDescs, hb]
  | ring hpc =>
    rw [hpc] at hok
    simpa [VState.goto, Pc.SectorOk] using hok
  | @giveUp b w l hpc _ _ => cases w <;> simp [VState.goto, Pc.SectorOk]
  | _ => simp [VState.goto, Pc.SectorOk]

theorem reqs_eq {D : Type} (queue : List (Transfer ℕ B D)) :
    (v'.reqs = v.reqs ∧ submit v t queue = queue) ∨
      (∃ b w c, v.pc t = .publish b w c ∧
        v'.reqs = v.reqs ++ [⟨c, b, w, (v.disk.ops c.i0).sector, false⟩]) ∨
      ∃ r ∈ v.reqs, r.handled = true ∧ v'.reqs = v.reqs.filter (·.chain.i0 ≠ r.chain.i0) ∧
        submit v t queue = queue := by
  cases h with
  | publish hpc => exact .inr (.inl ⟨_, _, _, hpc, rfl⟩)
  | finish hpc hr hdone => exact .inr (.inr ⟨_, hr, hdone, rfl, by simp only [submit, hpc]⟩)
  | enter hpc _ | wake hpc _ | sleep hpc _ | alloc hpc _ _ | giveUp hpc _ _ | format hpc
  | ring hpc | leave hpc | mark hpc => exact .inl ⟨rfl, by simp only [submit, hpc]⟩

theorem used_eq :
    v'.disk.usedRing = v.disk.usedRing ∧ v'.disk.usedIdx = v.disk.usedIdx ∧
      v'.disk.usedRingIdx = v.disk.usedRingIdx := by
  cases h <;> exact ⟨rfl, rfl, rfl⟩

end

end DriverStep

end XVapor.Virtio

namespace XVapor.Bio

open Function
open Virtio

variable {T D : Type}

/-! ### The machine -/

/-- The cache, the driver, the disk, and the requests that have not taken effect. -/
structure AsyncState (T D : Type) where
  s : BState T D
  v : VState T BufId
  disk : ℕ → D
  queue : List (Transfer ℕ BufId D)

/-- The stages in the driver, and the direction of the transfer. -/
def Stage.driver : Stage D → Option Bool
  | .reading _ => some false
  | .writing _ _ => some true
  | .idle | .get .. | .acquire .. | .locked .. | .loaded .. | .copied .. | .filled ..
  | .written .. | .dropping .. => none

theorem Stage.of_driver {st : Stage D} {w : Bool} (h : st.driver = some w) :
    ∃ blk, st.selects = some blk ∧ st.holds = true := by
  cases st <;> simp_all [Stage.driver, Stage.selects, Stage.holds]

variable [DecidableEq T]

/-- A thread calls `virtio_disk_rw`, if it has come to that. -/
def callDriver (s : BState T D) (v : VState T BufId) (t : T) : VState T BufId :=
  match (s.stage t).driver, s.c.sel t with
  | some w, some b => v.goto t (.enter b w) v.lock
  | _, _ => v

/-- `virtio_disk_rw` returns, and `bread` sets `valid`. -/
def returnDriver (s : BState T D) (t : T) : BState T D :=
  match s.stage t, s.c.sel t with
  | .reading blk, some b =>
    { s with c := { s.c with valid := update s.c.valid b true } }.goto t (.loaded blk)
  | .writing blk _, _ => s.goto t (.written blk)
  | _, _ => s

omit [DecidableEq T] in
/-- The device reads the buffer of a write. -/
def fetchStep (x : AsyncState T D) (id : ℕ) : Option (AsyncState T D) :=
  match chainOf x.v.disk id with
  | some (⟨.tOut, _⟩, b) =>
    if id ∈ x.v.inflight then
      some { x with queue := x.queue.map (Transfer.fetch id (x.s.data b)) }
    else none
  | _ => none

omit [DecidableEq T] in
/-- A request takes effect, if none before it is for the same sector. -/
def effectStep (x : AsyncState T D) (id : ℕ) : Option (AsyncState T D) := do
  let q ← x.queue.find? (·.id = id)
  let (op, b) ← chainOf x.v.disk id
  if id ∉ x.v.inflight ∨ (x.queue.takeWhile (·.id ≠ id)).any (·.sector = op.sector) then none
  else
    let queue := x.queue.eraseP (·.id = id)
    match op.type with
    | .tOut => do
        let v ← q.fetched
        some { x with queue, disk := update x.disk op.sector v }
    | .tIn =>
      some { x with
        queue
        s := { x.s with data := update x.s.data b (x.disk op.sector) } }

/-- The actions: a thread begins with a block of a call, or goes on; the handler is entered, or
goes on; the device consumes a request, reads its buffer, lets it take effect, or completes
it. -/
inductive AsyncAct (T D : Type)
  | call (t : T) (op : BOp D) (blkId i : ℕ)
  | step (t : T)
  | intrEnter
  | intr
  | take
  | fetch (id : ℕ)
  | effect (id : ℕ)
  | complete (id : ℕ)

/-- One step. A panic ends the run. -/
def asyncStep (pid : T → ℕ) (x : AsyncState T D) : AsyncAct T D → Option (AsyncState T D)
  | .call t op blkId i => (callStep x.s t op blkId i).map fun s => { x with s }
  | .step t =>
    match (x.s.stage t).driver, x.s.c.sel t with
    | some _, some b => do
        let v ← (threadStep x.v t (x.s.c.blockno b)).toOption.join
        some { x with
          v
          queue := submit x.v t x.queue
          s := if v.pc t = .idle then returnDriver x.s t else x.s }
    | _, _ => do
        let s ← (bioStep pid x.s t).toOption.join
        some { x with s, v := callDriver s x.v t }
  | .intrEnter => (vstep x.v .intrEnter).toOption.join.map fun v => { x with v }
  | .intr => (vstep x.v .intr).toOption.join.map fun v => { x with v }
  | .take => (vstep x.v .take).toOption.join.map fun v => { x with v }
  | .fetch id => fetchStep x id
  | .effect id => effectStep x id
  | .complete id =>
    if x.queue.any (·.id = id) then none
    else (vstep x.v (.complete id)).toOption.join.map fun v => { x with v }

/-- The machine. The buffers hold anything before they are read. -/
def asyncMachine (pid : T → ℕ) (disk0 : ℕ → D) : Machine (AsyncState T D) (AsyncAct T D) where
  init x := ∃ data, x = ⟨.boot data, .boot, disk0, []⟩
  step := asyncStep pid

/-! ### Threads in the cache and in the driver -/

omit [DecidableEq T]

variable [Fintype T] {s s' : BState T D} {v v' : VState T BufId} {t t' : T} {b : BufId}
  {n blk : ℕ} {w : Bool} {queue : List (Transfer ℕ BufId D)}

/-- **The threads in the driver are those that the cache has sent there.** -/
structure Joined (s : BState T D) (v : VState T BufId) : Prop where
  sinv : SInv s
  vinv : VInv s.c.lock v
  link : ∀ t, (v.pc t).target =
    (s.stage t).driver.bind fun w => (s.c.sel t).map fun b => (b, w)
  sector : ∀ t, (v.pc t).SectorOk v.disk.ops s.c.blockno
  read : ∀ r ∈ v.reqs, r.write = false →
    r.sector = s.c.blockno r.b * (Virtio.BSIZE / 512)

namespace Joined

theorem pc_idle (h : Joined s v) (ht : (s.stage t).driver = none) : v.pc t = .idle := by
  rw [← Pc.target_eq_none, h.link t, ht]
  rfl

theorem pc_target (h : Joined s v) (ht : (s.stage t).driver = some w)
    (hsel : s.c.sel t = some b) : (v.pc t).target = some (b, w) := by
  rw [h.link t, ht, hsel]
  rfl

theorem of_target (h : Joined s v) (ht : (v.pc t).target = some (b, w)) :
    (s.stage t).driver = some w ∧ s.c.sel t = some b := by
  rw [h.link t] at ht
  obtain ⟨w', hd, ht⟩ := Option.bind_eq_some_iff.1 ht
  obtain ⟨b', hsel, heq⟩ := Option.map_eq_some_iff.1 ht
  cases heq
  exact ⟨hd, hsel⟩

theorem reader (h : Joined s v) {c : Chain} (hw : (v.pc t).waits = some (b, c)) :
    (∃ blk, s.stage t = .reading blk) ∧ s.c.sel t = some b := by
  obtain ⟨hd, hsel⟩ := h.of_target (Pc.target_of_waits hw)
  refine ⟨?_, hsel⟩
  cases hstage : s.stage t with
  | reading blk => exact ⟨blk, rfl⟩
  | _ => simp [hstage, Stage.driver] at hd

end Joined

/-- What a step of the cache leaves to the other threads. -/
structure Aside (s s' : BState T D) (t : T) : Prop where
  driver : (s.stage t).driver = none
  stage : ∀ t' ≠ t, s'.stage t' = s.stage t'
  sel : ∀ t' ≠ t, s'.c.sel t' = s.c.sel t'
  lock : ∀ t' ≠ t, ∀ b, s.c.lock b = some t' → s'.c.lock b = some t'
  blockno : ∀ t' ≠ t, ∀ b, s.c.sel t' = some b → s'.c.blockno b = s.c.blockno b

variable [DecidableEq T]

omit [Fintype T] in
theorem Aside.goto {c : Cache T} {data : BufId → D} {hist : List (ℕ × D)} {st : Stage D}
    (hdriver : (s.stage t).driver = none) (hsel : ∀ t' ≠ t, c.sel t' = s.c.sel t')
    (hlock : ∀ t' ≠ t, ∀ b, s.c.lock b = some t' → c.lock b = some t')
    (hblockno : ∀ t' ≠ t, ∀ b, s.c.sel t' = some b → c.blockno b = s.c.blockno b) :
    Aside s ((⟨c, s.stage, data, hist⟩ : BState T D).goto t st) t :=
  ⟨hdriver, fun _ ht => update_of_ne ht _ _, hsel, hlock, hblockno⟩

/-- **A step of the cache leaves the other threads their buffers.** -/
theorem SInv.aside (h : SInv s) (hstep : BioStep s t s') : Aside s s' t := by
  cases hstep with
  | hit hstage _ _ =>
    exact .goto (by rw [hstage]; rfl) (fun _ ht => update_of_ne ht _ _)
      (fun _ _ _ hl => hl) fun _ _ _ _ => rfl
  | @recycle op blk b hstage _ hzero =>
    refine .goto (by rw [hstage]; rfl) (fun _ ht => update_of_ne ht _ _)
      (fun _ _ _ hl => hl) fun t' _ b' hsel' => ?_
    have hne : b' ≠ b := by
      rintro rfl
      have hpos := h.cache.refcnt_pos hsel'
      omega
    exact update_of_ne hne _ _
  | @acquire op blk b hstage hsel hfree =>
    refine .goto (by rw [hstage]; rfl) (fun _ _ => rfl) (fun t' _ b' hl => ?_)
      fun _ _ _ _ => rfl
    have hne : b' ≠ b := ne_of_values hl hfree nofun
    exact (update_of_ne hne _ _).trans hl
  | valid hstage _ _ | invalid hstage _ _ | fill hstage _ | copy hstage _ | submit hstage _ =>
    exact .goto (by rw [hstage]; rfl) (fun _ _ => rfl) (fun _ _ _ hl => hl)
      fun _ _ _ _ => rfl
  | @release blk b hstage hsel =>
    have hquiet : (s.stage t).driver = none ∧ (s.stage t).holds = true := by
      obtain ⟨out, hstage⟩ | hstage := hstage <;> rw [hstage] <;> exact ⟨rfl, rfl⟩
    refine .goto hquiet.1 (fun _ _ => rfl) (fun t' ht b' hl => ?_) fun _ _ _ _ => rfl
    have hne : b' ≠ b := ne_of_values hl ((h.hold t b).2 ⟨hquiet.2, hsel⟩) (by simp [ht])
    exact (update_of_ne hne _ _).trans hl
  | @drop blk b hstage hsel =>
    obtain ⟨hsel', hlock, -, hblk, -⟩ := s.c.drop_fields (t := t) (b := b)
    refine .goto (by rw [hstage]; rfl) (fun t' ht => ?_) (fun _ _ _ hl => hlock ▸ hl)
      fun _ _ _ _ => by rw [hblk]
    rw [hsel', update_of_ne ht]

namespace Joined

/-- **A step of the cache**, with the call of the driver it may end in. -/
theorem cache (h : Joined s v) (hs : SInv s') (ha : Aside s s' t) :
    Joined s' (callDriver s' v t) := by
  have hidle := h.pc_idle ha.driver
  have hne : ∀ t' b, (v.pc t').buf = some b → t' ≠ t := by
    rintro t' b hb rfl
    simp [hidle, Pc.buf] at hb
  have hvinv : VInv s'.c.lock v :=
    h.vinv.own_congr fun t' b hb hown => ha.lock t' (hne t' b hb) b hown
  -- the other threads have kept their buffers, and these their blocks
  have hother : ∀ t' ≠ t, (v.pc t').target =
      ((s'.stage t').driver.bind fun w => (s'.c.sel t').map fun b => (b, w)) ∧
      (v.pc t').SectorOk v.disk.ops s'.c.blockno := by
    intro t' ht
    rw [ha.stage t' ht, ha.sel t' ht]
    refine ⟨h.link t', ?_⟩
    have hok := h.sector t'
    cases hpc : v.pc t' with
    | ring b w c | publish b w c =>
      have hsel := (h.of_target (t := t') (b := b) (w := w) (by rw [hpc]; rfl)).2
      rw [hpc] at hok
      simp only [Pc.SectorOk, ha.blockno t' ht b hsel] at hok ⊢
      exact hok
    | _ => trivial
  have hread : ∀ r ∈ v.reqs, r.write = false →
      r.sector = s'.c.blockno r.b * (Virtio.BSIZE / 512) := by
    intro r hr hw
    obtain ⟨t', hwaits⟩ := h.vinv.threads.read r hr hw
    have ht := hne t' r.b (Pc.buf_of_waits hwaits)
    rw [ha.blockno t' ht r.b (h.reader hwaits).2]
    exact h.read r hr hw
  cases hd : (s'.stage t).driver with
  | none =>
    have hcall : callDriver s' v t = v := by simp only [callDriver, hd]
    rw [hcall]
    refine ⟨hs, hvinv, fun t' => ?_, fun t' => ?_, hread⟩
    · obtain rfl | ht := eq_or_ne t' t
      · rw [hidle, hd]
        rfl
      · exact (hother t' ht).1
    · obtain rfl | ht := eq_or_ne t' t
      · rw [hidle]
        trivial
      · exact (hother t' ht).2
  | some w =>
    -- the thread has selected a buffer, and holds its lock
    obtain ⟨blk, hselects, hholds⟩ := Stage.of_driver hd
    obtain ⟨b, hsel, -⟩ := hs.buf t blk hselects
    have hcall : callDriver s' v t = v.goto t (.enter b w) v.lock := by
      simp only [callDriver, hd, hsel]
    rw [hcall]
    refine ⟨hs, ?_, fun t' => ?_, fun t' => ?_, hread⟩
    · refine hvinv.goto hidle (.inl ⟨rfl, rfl⟩) fun b' hb => ?_
      cases hb
      exact (hs.hold t b).2 ⟨hholds, hsel⟩
    · obtain rfl | ht := eq_or_ne t' t
      · simp [VState.goto, Pc.target, hd, hsel]
      · simpa [VState.goto, ht] using (hother t' ht).1
    · obtain rfl | ht := eq_or_ne t' t
      · simp only [VState.goto, update_self]
        trivial
      · simpa [VState.goto, ht] using (hother t' ht).2

end Joined

/-! ### Steps in the driver -/

theorem SInv.returnDriver (h : SInv s) (ht : (s.stage t).driver ≠ none) :
    SInv (returnDriver s t) ∧ ((Bio.returnDriver s t).stage t).driver = none ∧
      (∀ t' ≠ t, (Bio.returnDriver s t).stage t' = s.stage t') ∧
      (Bio.returnDriver s t).c.sel = s.c.sel ∧ (Bio.returnDriver s t).c.lock = s.c.lock ∧
      (Bio.returnDriver s t).c.blockno = s.c.blockno := by
  cases hstage : s.stage t with
  | reading blk =>
    obtain ⟨b, hsel, -⟩ := h.buf t blk (by rw [hstage]; rfl)
    have heq : Bio.returnDriver s t = { s with c := { s.c with
        valid := update s.c.valid b true } }.goto t (.loaded blk) := by
      simp only [Bio.returnDriver, hstage, hsel]
    rw [heq]
    refine ⟨?_, by simp [BState.goto, Stage.driver],
      fun t' ht => by simp [BState.goto, ht], rfl, rfl, rfl⟩
    exact (h.congr _ _ _).goto (by rw [hstage]; rfl) (by rw [hstage]; rfl)
  | writing blk u =>
    have heq : Bio.returnDriver s t = s.goto t (.written blk) := by
      simp only [Bio.returnDriver, hstage]
    rw [heq]
    exact ⟨h.goto (by rw [hstage]; rfl) (by rw [hstage]; rfl), by simp [BState.goto, Stage.driver],
      fun t' ht => by simp [BState.goto, ht], rfl, rfl, rfl⟩
  | _ => simp [hstage, Stage.driver] at ht

/-- **A step in the driver**, with the return it may end in. -/
theorem Joined.driver (h : Joined s v) (ht : (s.stage t).driver = some w)
    (hsel : s.c.sel t = some b) (hstep : DriverStep v t (s.c.blockno b) v') :
    Joined (if v'.pc t = .idle then returnDriver s t else s) v' := by
  have hvinv := h.vinv.driverStep hstep
  have htarget := h.pc_target ht hsel
  have hn : ∀ b', (v.pc t).buf = some b' → s.c.blockno b' = s.c.blockno b := by
    intro b' hb'
    obtain ⟨w', hw'⟩ := Pc.target_of_buf hb'
    rw [htarget] at hw'
    cases hw'
    rfl
  -- a thread that builds a chain holds the lock
  have hsector : ∀ t', (v'.pc t').SectorOk v'.disk.ops s.c.blockno := by
    intro t'
    obtain rfl | htt := eq_or_ne t' t
    · exact hstep.sectorOk (h.sector t') hn
    rw [hstep.pc_other htt]
    refine Pc.sectorOk_of_outside ?_
    obtain hin | hfree := hstep.inside
    · exact h.vinv.threads.outside hin htt
    · exact h.vinv.threads.outside_of_lock (by simp [hfree])
  have hread : ∀ r ∈ v'.reqs, r.write = false →
      r.sector = s.c.blockno r.b * (Virtio.BSIZE / 512) := by
    intro r hr hw
    obtain ⟨heq, -⟩ | ⟨b', w', c, hpc, heq⟩ | ⟨r', -, -, heq, -⟩ :=
      hstep.reqs_eq ([] : List (Transfer ℕ BufId D))
    · exact h.read r (heq ▸ hr) hw
    · rw [heq, List.mem_append, List.mem_singleton] at hr
      obtain hr | rfl := hr
      · exact h.read r hr hw
      · have hok := h.sector t
        rw [hpc] at hok
        exact hok
    · rw [heq] at hr
      exact h.read r (List.mem_filter.1 hr).1 hw
  obtain hidle | ⟨hbusy, hsame⟩ := hstep.target_eq
  · rw [if_pos hidle]
    obtain ⟨hs, hd, hstage, hsel', hlock, hblk⟩ := h.sinv.returnDriver (t := t) (by simp [ht])
    refine ⟨hs, hlock ▸ hvinv, fun t' => ?_, hblk ▸ hsector, hblk ▸ hread⟩
    obtain rfl | htt := eq_or_ne t' t
    · rw [hidle, hd]
      rfl
    · rw [hstep.pc_other htt, hstage t' htt, hsel']
      exact h.link t'
  · rw [if_neg hbusy]
    refine ⟨h.sinv, hvinv, fun t' => ?_, hsector, hread⟩
    obtain rfl | htt := eq_or_ne t' t
    · rw [hsame]
      exact h.link t'
    · rw [hstep.pc_other htt]
      exact h.link t'

omit [DecidableEq T] in
theorem Joined.congr (h : Joined s v) (hvinv : VInv s.c.lock v') (hpc : v'.pc = v.pc)
    (hops : v'.disk.ops = v.disk.ops)
    (hreqs : ∀ r ∈ v'.reqs, ∃ r' ∈ v.reqs, r'.write = r.write ∧ r'.sector = r.sector ∧
      r'.b = r.b) : Joined s v' := by
  refine ⟨h.sinv, hvinv, hpc ▸ h.link, hpc ▸ hops ▸ h.sector, fun r hr hw => ?_⟩
  obtain ⟨r', hr', hwrite, hsector, hb⟩ := hreqs r hr
  rw [← hsector, ← hb]
  exact h.read r' hr' (hwrite.trans hw)

/-! ### The queue -/

omit [DecidableEq T] [Fintype T]

/-- **The requests in the queue** are requests of the driver, each once, and none was
completed. -/
structure Queued (v : VState T BufId) (queue : List (Transfer ℕ BufId D)) : Prop where
  req : ∀ q ∈ queue, ∃ r ∈ v.reqs, r.handled = false ∧ r.chain.i0 = q.id ∧ r.b = q.buf ∧
    r.write = q.write ∧ r.sector = q.sector
  nodup : (queue.map Transfer.id).Nodup
  used : ∃ usedQ, RingHolds NUM U16 v.disk.usedRing v.disk.usedIdx v.disk.usedRingIdx usedQ ∧
    ∀ q ∈ queue, q.id ∉ usedQ

namespace Queued

variable {own : BufId → Option T} {q : Transfer ℕ BufId D}

section

variable (h : Queued v queue)
include h

theorem congr (hreqs : v'.reqs = v.reqs)
    (hused : v'.disk.usedRing = v.disk.usedRing ∧ v'.disk.usedIdx = v.disk.usedIdx ∧
      v'.disk.usedRingIdx = v.disk.usedRingIdx) : Queued v' queue := by
  obtain ⟨hring, hidx, hdev⟩ := hused
  refine ⟨hreqs ▸ h.req, h.nodup, ?_⟩
  rw [hring, hidx, hdev]
  exact h.used

/-- A request has taken effect, or its buffer was read. -/
theorem of_forall {queue' : List (Transfer ℕ BufId D)}
    (hnodup : (queue'.map Transfer.id).Nodup)
    (hmem : ∀ q' ∈ queue', ∃ q ∈ queue, q'.id = q.id ∧ q'.buf = q.buf ∧ q'.write = q.write ∧
      q'.sector = q.sector) : Queued v queue' := by
  refine ⟨fun q' hq' => ?_, hnodup, ?_⟩
  · obtain ⟨q, hq, hid, hbuf, hwrite, hsector⟩ := hmem q' hq'
    rw [hid, hbuf, hwrite, hsector]
    exact h.req q hq
  · obtain ⟨usedQ, hring, hnot⟩ := h.used
    refine ⟨usedQ, hring, fun q' hq' => ?_⟩
    obtain ⟨q, hq, hid, -⟩ := hmem q' hq'
    exact hid ▸ hnot q hq

theorem erase {l1 l2 : List (Transfer ℕ BufId D)}
    (hqueue : queue = l1 ++ q :: l2) : Queued v (l1 ++ l2) := by
  have hsub : (l1 ++ l2).Sublist queue := by simp [hqueue]
  exact h.of_forall (h.nodup.sublist (hsub.map _)) fun q' hq' =>
    ⟨q', hsub.subset hq', rfl, rfl, rfl, rfl⟩

theorem remove {id : ℕ} (hid : ∀ q ∈ queue, q.id ≠ id)
    (hreqs : v'.reqs = v.reqs.filter (·.chain.i0 ≠ id)) :
    ∀ q ∈ queue, ∃ r ∈ v'.reqs, r.handled = false ∧ r.chain.i0 = q.id ∧ r.b = q.buf ∧
      r.write = q.write ∧ r.sector = q.sector := by
  intro q hq
  obtain ⟨r, hr, hhandled, hhead, hrest⟩ := h.req q hq
  have hne : r.chain.i0 ≠ id := hhead ▸ hid q hq
  exact ⟨r, hreqs ▸ List.mem_filter.2 ⟨hr, decide_eq_true hne⟩, hhandled, hhead, hrest⟩

/-- **A step in the driver.** -/
theorem driver (hinv : VInv own v) [DecidableEq T]
    (hstep : DriverStep v t n v') : Queued v' (submit v t queue) := by
  obtain ⟨hring, hidx, hdev⟩ := hstep.used_eq
  obtain ⟨hreqs, hsame⟩ | ⟨b, w, c, hpc, hreqs⟩ | ⟨r, hr, hdone, hreqs, hsame⟩ :=
    hstep.reqs_eq queue
  · rw [hsame]
    exact h.congr hreqs hstep.used_eq
  · -- the head of the new chain is the head of no request
    have hpool : Virtio.Pool v.disk v.reqs [c] := hinv.pool_of_pc hpc rfl
    have hfresh : ∀ r ∈ v.reqs, r.chain.i0 ≠ c.i0 := fun r hr heq =>
      hpool.not_mem_held hr (head_mem_ids _) (heq ▸ head_mem_ids _)
    have hnew : ∀ q ∈ queue, q.id ≠ c.i0 := by
      intro q hq
      obtain ⟨r, hr, -, hhead, -⟩ := h.req q hq
      exact hhead ▸ hfresh r hr
    have hsubmit : submit v t queue =
        queue ++ [⟨c.i0, (v.disk.ops c.i0).sector, w, b, none⟩] := by
      simp only [submit, hpc]
    rw [hsubmit]
    refine ⟨fun q hq => ?_, ?_, ?_⟩
    · rw [hreqs]
      obtain hq | hq := List.mem_append.1 hq
      · obtain ⟨r, hr, hrest⟩ := h.req q hq
        exact ⟨r, List.mem_append_left _ hr, hrest⟩
      · rw [List.mem_singleton.1 hq]
        exact ⟨_, List.mem_append_right _ (List.mem_singleton.2 rfl), rfl, rfl, rfl, rfl, rfl⟩
    · rw [List.map_append, List.map_singleton, List.nodup_append_comm]
      refine List.nodup_cons.2 ⟨fun hmem => ?_, by simpa using h.nodup⟩
      obtain ⟨q, hq, hid⟩ := List.mem_map.1 (by simpa using hmem)
      exact hnew q hq hid
    · obtain ⟨usedQ, hused, hnot⟩ := h.used
      obtain ⟨availQ, usedQ', -, hused', hperm, -⟩ := hinv.rings
      obtain rfl := hused.unique hused' NUM_lt_U16
      rw [hring, hidx, hdev]
      refine ⟨usedQ, hused, fun q hq hmem => ?_⟩
      obtain hq | hq := List.mem_append.1 hq
      · exact hnot q hq hmem
      · rw [List.mem_singleton.1 hq] at hmem
        obtain ⟨r, hr, -, hhead⟩ := mem_pending.1 (hperm.subset (List.mem_append_right _ hmem))
        exact hfresh r hr hhead
  · rw [hsame]
    refine ⟨h.remove (fun q hq heq => ?_) hreqs, h.nodup, ?_⟩
    · -- a request in the queue was not handled
      obtain ⟨r', hr', hnot, hhead, -⟩ := h.req q hq
      have hsame : r' = r := hinv.pool.head_inj hr r' hr' (hhead.trans heq)
      rw [hsame, hdone] at hnot
      cases hnot
    · rw [hring, hidx, hdev]
      exact h.used

theorem ne_used (hne : v.disk.usedIdx ≠ v.disk.usedRingIdx) :
    (∀ q ∈ queue, q.id ≠ v.disk.usedRing (v.disk.usedIdx % NUM)) ∧
      ∃ usedQ, RingHolds NUM U16 v.disk.usedRing ((v.disk.usedIdx + 1) % U16)
        v.disk.usedRingIdx usedQ ∧ ∀ q ∈ queue, q.id ∉ usedQ := by
  obtain ⟨usedQ, hring, hnot⟩ := h.used
  obtain _ | ⟨id, usedQ⟩ := usedQ
  · exact absurd ((hring.eq_nil_iff NUM_lt_U16).2 rfl) hne
  rw [hring.head]
  refine ⟨fun q hq heq => hnot q hq (heq ▸ List.mem_cons_self), usedQ,
    hring.consume NUM_dvd_U16, fun q hq hmem => ?_⟩
  exact hnot q hq (List.mem_cons_of_mem _ hmem)

/-- **A step of the handler.** -/
theorem handler (hstep : HandlerStep v v') : Queued v' queue := by
  cases hstep with
  | done _ _ => exact h.congr rfl ⟨rfl, rfl, rfl⟩
  | @read r _ hne hid hr _ =>
    obtain ⟨hnot, hused⟩ := h.ne_used hne
    refine ⟨fun q hq => ?_, h.nodup, hused⟩
    obtain ⟨r', hr', hhandled, hhead, hrest⟩ := h.req q hq
    have hother : r'.chain.i0 ≠ r.chain.i0 := by
      rw [hhead, ← hid]
      exact hnot q hq
    exact ⟨r', List.mem_map.2 ⟨r', hr', if_neg hother⟩, hhandled, hhead, hrest⟩
  | @write r _ hne hid hr _ =>
    obtain ⟨hnot, hused⟩ := h.ne_used hne
    exact ⟨h.remove (hid ▸ hnot) rfl, h.nodup, hused⟩

theorem complete (hinv : VInv own v) {id : ℕ} (hid : ∀ q ∈ queue, q.id ≠ id)
    (hstep : completeStep v id = some v') : Queued v' queue := by
  obtain ⟨hmem, rfl⟩ := guard_eq_some.1 hstep
  rw [hinv.writeStatus_eq hmem]
  refine ⟨h.req, h.nodup, ?_⟩
  obtain ⟨usedQ, hring, hnot⟩ := h.used
  obtain ⟨availQ, usedQ', -, hring', hperm, -⟩ := hinv.rings
  obtain rfl := hring.unique hring' NUM_lt_U16
  have hlen := Rings.length_avail_le hperm
  have hlt := hinv.length_lt
  refine ⟨usedQ ++ [id], (hring.write NUM_dvd_U16 (by omega) id).produce NUM_dvd_U16 (by omega)
    (update_self ..), fun q hq hq' => ?_⟩
  obtain hq' | hq' := List.mem_append.1 hq'
  · exact hnot q hq hq'
  · exact hid q hq (List.mem_singleton.1 hq')

/-- **When every request was completed, the queue is empty.** -/
theorem eq_nil (hinv : VInv own v) (hdev : v.devIdx = v.disk.availIdx)
    (hinflight : v.inflight = []) : queue = [] := by
  refine List.eq_nil_iff_forall_not_mem.2 fun q hq => ?_
  obtain ⟨usedQ, hring, hnot⟩ := h.used
  obtain ⟨availQ, usedQ', havail, hring', hperm, -⟩ := hinv.rings
  obtain rfl := hring.unique hring' NUM_lt_U16
  obtain ⟨r, hr, hhandled, hhead, -⟩ := h.req q hq
  have hmem : q.id ∈ availQ ++ v.inflight ++ usedQ :=
    hperm.symm.subset (mem_pending.2 ⟨r, hr, hhandled, hhead⟩)
  rw [(havail.eq_nil_iff NUM_lt_U16).1 hdev, hinflight] at hmem
  exact hnot q hq (by simpa using hmem)

theorem chainOf_eq (hinv : VInv own v) (hq : q ∈ queue) :
    chainOf v.disk q.id = some (⟨if q.write then .tOut else .tIn, q.sector⟩, q.buf) := by
  obtain ⟨r, hr, -, hhead, hb, hwrite, hsector⟩ := h.req q hq
  obtain ⟨hlinked, hs⟩ := hinv.pool.linked r hr
  have hop : v.disk.ops r.chain.i0 = ⟨if q.write then .tOut else .tIn, q.sector⟩ := by
    rw [← hwrite, ← hlinked.type, ← hsector, ← hs]
  rw [← hhead]
  simp only [chainOf, hlinked.desc0, hlinked.desc1, hop, hb]

end

end Queued

/-! ### The steps of the machine -/

variable [DecidableEq T] {x x' : AsyncState T D} {a : AsyncAct T D} {pid : T → ℕ}

/-- **What a step can do.** -/
inductive AsyncStep (x : AsyncState T D) : AsyncAct T D → AsyncState T D → Prop
  | call {t : T} {op : BOp D} {blkId i : ℕ} : x.s.stage t = .idle →
      AsyncStep x (.call t op blkId i)
        { x with s := x.s.goto t (.get op ((blkId + i) % 2 ^ 32)) }
  | cache {t : T} {s' : BState T D} : BioStep x.s t s' →
      AsyncStep x (.step t) { x with s := s', v := callDriver s' x.v t }
  | driver {t : T} {w : Bool} {b : BufId} {v' : VState T BufId} :
      (x.s.stage t).driver = some w → x.s.c.sel t = some b →
      DriverStep x.v t (x.s.c.blockno b) v' →
      AsyncStep x (.step t)
        { x with
          v := v'
          queue := submit x.v t x.queue
          s := if v'.pc t = .idle then returnDriver x.s t else x.s }
  | enter : x.v.lock = none →
      AsyncStep x .intrEnter { x with v := { x.v with lock := some .intr } }
  | handler {v' : VState T BufId} : HandlerStep x.v v' → AsyncStep x .intr { x with v := v' }
  | take {v' : VState T BufId} : takeStep x.v = some v' → AsyncStep x .take { x with v := v' }
  | fetch {id : ℕ} {b : BufId} : (∀ q ∈ x.queue, q.id = id → q.buf = b) →
      AsyncStep x (.fetch id) { x with queue := x.queue.map (Transfer.fetch id (x.s.data b)) }
  | write {q : Transfer ℕ BufId D} {l1 l2 : List (Transfer ℕ BufId D)} {u : D} :
      x.queue = l1 ++ q :: l2 → q.write = true → q.fetched = some u →
      (∀ q' ∈ l1, q'.sector ≠ q.sector) →
      AsyncStep x (.effect q.id)
        { x with queue := l1 ++ l2, disk := update x.disk q.sector u }
  | read {q : Transfer ℕ BufId D} {l1 l2 : List (Transfer ℕ BufId D)} :
      x.queue = l1 ++ q :: l2 → q.write = false → (∀ q' ∈ l1, q'.sector ≠ q.sector) →
      AsyncStep x (.effect q.id)
        { x with
          queue := l1 ++ l2
          s := { x.s with data := update x.s.data q.buf (x.disk q.sector) } }
  | complete {id : ℕ} {v' : VState T BufId} : (∀ q ∈ x.queue, q.id ≠ id) →
      completeStep x.v id = some v' → AsyncStep x (.complete id) { x with v := v' }

variable [Fintype T]

/-- **The cache, the driver and the queue fit together.** -/
structure Wired (x : AsyncState T D) : Prop where
  joined : Joined x.s x.v
  queued : Queued x.v x.queue

omit [DecidableEq T] in
theorem wired_init (data : BufId → D) (disk0 : ℕ → D) :
    Wired (T := T) ⟨.boot data, .boot, disk0, []⟩ where
  joined := ⟨sInv_boot data, vInv_boot _, fun _ => rfl, fun _ => trivial, fun r hr => by cases hr⟩
  queued := ⟨fun q hq => (List.not_mem_nil hq).elim, List.nodup_nil, [],
    .nil (by decide : 0 < U16), fun q hq => (List.not_mem_nil hq).elim⟩

theorem ends_of_toOption {ε α : Type} {Q : Option α → Prop} {r : Except ε (Option α)} {y : α}
    {bad : ε → Prop} (h : Ends bad Q r) (hy : r.toOption.join = some y) : Q (some y) := by
  obtain e | o := r
  · simp [Except.toOption] at hy
  simp only [Except.toOption, Option.join_some] at hy
  exact hy ▸ h

namespace Wired

omit [DecidableEq T] in
/-- The thread that waits for a read in the queue. -/
theorem reader (h : Wired x) {q : Transfer ℕ BufId D} (hq : q ∈ x.queue) (hread : q.write = false) :
    ∃ t, x.s.stage t = .reading q.sector ∧ x.s.c.sel t = some q.buf := by
  obtain ⟨r, hr, -, -, hb, hwrite, hsector⟩ := h.queued.req q hq
  obtain ⟨t, hwaits⟩ := h.joined.vinv.threads.read r hr (hwrite.trans hread)
  obtain ⟨⟨blk, hstage⟩, hsel⟩ := h.joined.reader hwaits
  have hblk : x.s.c.blockno r.b = blk := (h.joined.sinv.block (by rw [hstage]; rfl) hsel).2
  refine ⟨t, ?_, hb ▸ hsel⟩
  rw [hstage, ← hsector, h.joined.read r hr (hwrite.trans hread), hblk]
  exact congrArg Stage.reading (Nat.mul_one blk).symm

theorem effectStep_cases (h : Wired x) {id : ℕ} (hstep : effectStep x id = some x') :
    AsyncStep x (.effect id) x' := by
  simp only [effectStep, Option.bind_eq_bind, Option.bind_eq_some_iff] at hstep
  obtain ⟨q, hfind, ⟨op, b⟩, hchain, hstep⟩ := hstep
  obtain ⟨hid, l1, l2, hqueue, hl1⟩ := List.find?_eq_some_iff_append.1 hfind
  obtain rfl : q.id = id := by simpa using hid
  have hq : q ∈ x.queue := List.mem_of_find?_eq_some hfind
  rw [h.queued.chainOf_eq h.joined.vinv hq] at hchain
  cases hchain
  have hne : ∀ q' ∈ l1, q'.id ≠ q.id := fun q' hq' => by simpa using hl1 q' hq'
  have htake : x.queue.takeWhile (·.id ≠ q.id) = l1 := by
    rw [hqueue, List.takeWhile_append_of_pos fun q' hq' => decide_eq_true (hne q' hq')]
    simp
  have herase : x.queue.eraseP (·.id = q.id) = l1 ++ l2 := by
    rw [hqueue, List.eraseP_append_right _ fun q' hq' => by simpa using hne q' hq']
    simp
  rw [htake, herase, Option.ite_none_left_eq_some] at hstep
  obtain ⟨hok, hstep⟩ := hstep
  have hfirst : ∀ q' ∈ l1, q'.sector ≠ q.sector := by
    intro q' hq' heq
    exact hok (.inr (List.any_eq_true.2 ⟨q', hq', decide_eq_true heq⟩))
  cases hw : q.write with
  | true =>
    simp only [hw, if_true, Option.bind_eq_some_iff, Option.some.injEq] at hstep
    obtain ⟨u, hu, rfl⟩ := hstep
    exact .write hqueue hw hu hfirst
  | false =>
    simp only [hw, Bool.false_eq_true, if_false, Option.some.injEq] at hstep
    obtain rfl := hstep
    exact .read hqueue hw hfirst

/-- **Every step is one of those.** -/
theorem asyncStep_cases (h : Wired x) (hstep : asyncStep pid x a = some x') :
    AsyncStep x a x' := by
  cases a with
  | call t op blkId i =>
    obtain ⟨s', hs', rfl⟩ := Option.map_eq_some_iff.1 hstep
    obtain ⟨-, hidle, rfl⟩ := h.joined.sinv.call hs'
    exact .call hidle
  | step t =>
    rcases hd : (x.s.stage t).driver with _ | w
    · simp only [asyncStep, hd, Option.bind_eq_bind, Option.bind_eq_some_iff,
        Option.some.injEq] at hstep
      obtain ⟨s', hs', rfl⟩ := hstep
      exact .cache (ends_of_toOption (h.joined.sinv.bioStep_ends pid t) hs' s' rfl)
    obtain ⟨blk, hselects, -⟩ := Stage.of_driver hd
    obtain ⟨b, hsel, -⟩ := h.joined.sinv.buf t blk hselects
    simp only [asyncStep, hd, hsel, Option.bind_eq_bind, Option.bind_eq_some_iff,
      Option.some.injEq] at hstep
    obtain ⟨v', hv', rfl⟩ := hstep
    exact .driver hd hsel
      (ends_of_toOption (h.joined.vinv.threadStep_ends t _) hv' v' rfl)
  | intrEnter =>
    obtain ⟨v', hv', rfl⟩ := Option.map_eq_some_iff.1 hstep
    obtain ⟨hlock, rfl⟩ := guard_eq_some.1 hv'
    exact .enter hlock
  | intr =>
    obtain ⟨v', hv', rfl⟩ := Option.map_eq_some_iff.1 hstep
    exact .handler (ends_of_toOption h.joined.vinv.intrStep_ends hv' v' rfl)
  | take =>
    obtain ⟨v', hv', rfl⟩ := Option.map_eq_some_iff.1 hstep
    exact .take hv'
  | fetch id =>
    simp only [asyncStep, fetchStep] at hstep
    split at hstep
    · rename_i sector b hchain
      obtain ⟨-, rfl⟩ := guard_eq_some.1 hstep
      refine .fetch fun q hq hid => ?_
      have hfound := h.queued.chainOf_eq h.joined.vinv hq
      rw [hid, hchain] at hfound
      exact (Prod.mk.inj (Option.some.inj hfound)).2.symm
    · cases hstep
  | effect id => exact h.effectStep_cases hstep
  | complete id =>
    simp only [asyncStep, Option.ite_none_left_eq_some] at hstep
    obtain ⟨hnot, hstep⟩ := hstep
    obtain ⟨v', hv', rfl⟩ := Option.map_eq_some_iff.1 hstep
    refine .complete (fun q hq heq => hnot ?_) hv'
    exact List.any_eq_true.2 ⟨q, hq, decide_eq_true heq⟩

/-- **Every step keeps the cache, the driver and the queue together.** -/
theorem step (h : Wired x) (hstep : AsyncStep x a x') : Wired x' := by
  cases hstep with
  | @call t op blkId i hidle =>
    have hs : SInv (x.s.goto t (.get op ((blkId + i) % 2 ^ 32))) :=
      h.joined.sinv.goto (by rw [hidle]; rfl) (by rw [hidle]; rfl)
    have hcall : callDriver (x.s.goto t (.get op ((blkId + i) % 2 ^ 32))) x.v t = x.v := by
      simp [callDriver, BState.goto, Stage.driver]
    refine ⟨?_, h.queued⟩
    have hjoined := h.joined.cache hs (.goto (by rw [hidle]; rfl) (fun _ _ => rfl)
      (fun _ _ _ hl => hl) fun _ _ _ _ => rfl)
    rwa [hcall] at hjoined
  | @cache t s' hbio =>
    refine ⟨h.joined.cache (h.joined.sinv.step hbio) (h.joined.sinv.aside hbio), ?_⟩
    refine h.queued.congr ?_ ?_
    · simp only [callDriver]
      split <;> rfl
    · simp only [callDriver]
      split <;> exact ⟨rfl, rfl, rfl⟩
  | driver hd hsel hdriver =>
    exact ⟨h.joined.driver hd hsel hdriver, h.queued.driver h.joined.vinv hdriver⟩
  | enter hlock =>
    refine ⟨h.joined.congr (h.joined.vinv.setLock (by simp [hlock]) (by simp)) rfl rfl ?_,
      h.queued.congr rfl ⟨rfl, rfl, rfl⟩⟩
    exact fun r hr => ⟨r, hr, rfl, rfl, rfl⟩
  | @handler v' hhandler =>
    have hvinv := h.joined.vinv.handlerStep hhandler
    refine ⟨?_, h.queued.handler hhandler⟩
    cases hhandler with
    | done _ _ => exact h.joined.congr hvinv rfl rfl fun r hr => ⟨r, hr, rfl, rfl, rfl⟩
    | @read r0 _ _ _ _ _ =>
      refine h.joined.congr hvinv rfl rfl fun r hr => ?_
      obtain ⟨r', hr', rfl⟩ := List.mem_map.1 hr
      refine ⟨r', hr', ?_⟩
      by_cases heq : r'.chain.i0 = r0.chain.i0
      · rw [if_pos heq]
        exact ⟨rfl, rfl, rfl⟩
      · rw [if_neg heq]
        exact ⟨rfl, rfl, rfl⟩
    | write _ _ _ _ _ =>
      exact h.joined.congr hvinv rfl rfl fun r hr =>
        ⟨r, (List.mem_filter.1 hr).1, rfl, rfl, rfl⟩
  | take htake =>
    have hvinv := h.joined.vinv.take htake
    simp only [takeStep, Option.ite_none_left_eq_some, Option.some.injEq] at htake
    obtain ⟨-, rfl⟩ := htake
    exact ⟨h.joined.congr hvinv rfl rfl fun r hr => ⟨r, hr, rfl, rfl, rfl⟩,
      h.queued.congr rfl ⟨rfl, rfl, rfl⟩⟩
  | @fetch id b _ =>
    refine ⟨h.joined, h.queued.of_forall ?_ fun q' hq' => ?_⟩
    · rw [List.map_map]
      exact (List.map_congr_left fun q _ => (Transfer.fetch_fields id _ q).1) ▸ h.queued.nodup
    · obtain ⟨q, hq, rfl⟩ := List.mem_map.1 hq'
      obtain ⟨hid, hbuf, hwrite, hsector, -⟩ := q.fetch_fields id (x.s.data b)
      exact ⟨q, hq, hid, hbuf, hwrite, hsector⟩
  | @write q l1 l2 u hqueue _ _ _ => exact ⟨h.joined, h.queued.erase hqueue⟩
  | @read q l1 l2 hqueue _ _ =>
    exact ⟨⟨h.joined.sinv.congr _ _ _, h.joined.vinv, h.joined.link, h.joined.sector,
      h.joined.read⟩, h.queued.erase hqueue⟩
  | complete hnot hcomplete =>
    have hvinv := h.joined.vinv.complete hcomplete
    refine ⟨?_, h.queued.complete h.joined.vinv hnot hcomplete⟩
    obtain ⟨hmem, rfl⟩ := guard_eq_some.1 hcomplete
    refine h.joined.congr hvinv rfl ?_ fun r hr => ⟨r, hr, rfl, rfl, rfl⟩
    rw [h.joined.vinv.writeStatus_eq hmem]

end Wired

/-- **The disk is safe to use.** What the device has yet to read goes to a buffer whose lock is
held by a thread that still waits for that block; and the only panic is that of `bget`. -/
structure DiskSafe (x : AsyncState T D) : Prop where
  unique : ∀ b b', x.s.c.dev b = ROOTDEV → x.s.c.dev b' = ROOTDEV →
    x.s.c.blockno b = x.s.c.blockno b' → b = b'
  refcnt : ∀ b, x.s.c.refcnt b = tally (· = some b) x.s.c.sel
  user : ∀ t t' b, (x.s.stage t).holds = true → x.s.c.sel t = some b →
    (x.s.stage t').holds = true → x.s.c.sel t' = some b → t = t'
  descs : Conserved x.v
  read : ∀ q ∈ x.queue, q.write = false →
    ∃ t, x.s.c.lock q.buf = some t ∧ x.s.stage t = .reading q.sector
  cache : ∀ pid t e, bioStep pid x.s t = .error e → e = .noBuffers
  driver : ∀ t n e, threadStep x.v t n ≠ .error e
  handler : ∀ e, intrStep x.v ≠ .error e

/-- **The cache, the driver and the device together** are safe in every interleaving, also in
those that lose a write. -/
theorem diskSafe_of_reach {pid : T → ℕ} {disk0 : ℕ → D}
    (h : (asyncMachine pid disk0).Reach Machine.anyStep x) : DiskSafe x := by
  have hinv : Wired x := by
    refine h.invariant ?_ fun x a x' hx _ hstep => hx.step (hx.asyncStep_cases hstep)
    rintro _ ⟨data, rfl⟩
    exact wired_init data disk0
  have hs := hinv.joined.sinv
  have hv := hinv.joined.vinv
  refine ⟨hs.cache.unique, hs.cache.refcnt, fun t t' b => hs.user_unique, hv.conserved, ?_, ?_,
    fun t n e he => (hv.threadStep_ends t n).not_bad he trivial,
    fun e he => hv.intrStep_ends.not_bad he trivial⟩
  · intro q hq hread
    obtain ⟨t, hstage, hsel⟩ := hinv.reader hq hread
    exact ⟨t, (hs.hold t q.buf).2 ⟨by rw [hstage]; rfl, hsel⟩, hstage⟩
  · intro pid t e he
    exact not_not.1 fun hne => (hs.bioStep_ends pid t).not_bad he (.inl hne)

/-- A read that the device has not carried out. -/
theorem diskSafe_of_reach_reading : ∃ x : AsyncState Unit ℕ,
    x.queue.map (·.write) = [false] ∧ DiskSafe x := by
  obtain ⟨x, hx, hread⟩ : ∃ x ∈ (asyncMachine (fun _ => 0) fun _ => 0).exec
      (⟨.boot fun _ => 0, .boot, fun _ => 0, []⟩ : AsyncState Unit ℕ)
      (.call () .bread 7 0 :: List.replicate 8 (.step ())), x.queue.map (·.write) = [false] := by
    decide +kernel
  exact ⟨x, hread, diskSafe_of_reach (Machine.reach_of_exec ⟨fun _ => 0, rfl⟩ hx)⟩

end XVapor.Bio
