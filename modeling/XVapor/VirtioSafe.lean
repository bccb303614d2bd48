import XVapor.VirtioThreads
import XVapor.Panic

/-!
# Safety of the Virtio Driver

The invariant of `virtio_disk_rw` and `virtio_disk_intr` under every interleaving with the
device, and with the callers, which take the sleeplock of the buffer before and release it
after the call.

## Main results

* `descriptors_conserved`: **the descriptors are conserved** in every run.
-/

namespace XVapor.Virtio

open Function

variable {T B : Type} {own : B → Option T} {s s' : VState T B} {t t' : T} {p0 p : Pc B} {b : B}
  {w : Bool} {c : Chain} {d : Disk B} {id n : ℕ}

/-- **The invariant of the driver.** -/
structure VInv (own : B → Option T) (s : VState T B) : Prop where
  threads : Threads own s
  pool : Pool s.disk s.reqs s.held
  built : ∀ t, (s.pc t).Built s.disk
  rings : Rings s.disk s.devIdx s.inflight s.reqs

theorem vInv_boot (own : B → Option T) : VInv own .boot where
  threads := ⟨fun t => by simp [VState.boot, Pc.inside], fun t b h => by
      simp [VState.boot, Pc.buf] at h, fun t b c h => by simp [VState.boot, Pc.waits] at h,
    fun r hr => by simp [VState.boot] at hr, fun r hr => by simp [VState.boot] at hr⟩
  pool := ⟨List.nodup_nil, fun i hi => by simp [VState.boot, VState.held, poolIds] at hi,
    fun i => by simp [VState.boot, VState.held, poolIds, virtioDiskInit],
    fun r hr => by simp [VState.boot] at hr⟩
  built _ := trivial
  rings := ⟨[], [], .nil (by decide : 0 < U16), .nil (by decide : 0 < U16), .refl _, by simp⟩

namespace VInv

theorem length_lt (h : VInv own s) : s.reqs.length < NUM := by
  have hle := h.pool.length_le
  have hnum : NUM = 8 := rfl
  omega

variable [DecidableEq T]

theorem built_update (h : VInv own s) (hin : (s.pc t).inside = true) (hp : p.Built d) :
    ∀ t', (update s.pc t p t').Built d := by
  intro t'
  obtain rfl | ht := eq_or_ne t' t
  · rwa [update_self]
  · rw [update_of_ne ht]
    exact Pc.built_of_outside (h.threads.outside hin ht)

theorem goto (h : VInv own s) {lock : Option (Holder T)} (hpc : s.pc t = p0)
    (hlock : (lock = s.lock ∧ p.inside = p0.inside) ∨
      (s.lock = none ∧ lock = some (.thread t) ∧ p.inside = true) ∨
      (s.lock = some (.thread t) ∧ lock = none ∧ p.inside = false))
    (hown : ∀ b, p.buf = some b → own b = some t)
    (hwaits : p.waits = p0.waits := by rfl) (hmarked : p.marked = p0.marked := by rfl)
    (hbuilding : p.building = [] ∧ p0.building = [] := by exact ⟨rfl, rfl⟩)
    (hbuilt : p.Built s.disk := by exact trivial) : VInv own (s.goto t p lock) := by
  subst hpc
  have hthreads := h.threads.goto hlock hown hwaits hmarked
  have hheld : (s.goto t p lock).held = s.held := by
    obtain ⟨rfl, hp⟩ | ⟨hnone, rfl, hp⟩ | ⟨hthread, rfl, hp⟩ := hlock
    · rw [VState.held, VState.held]
      rcases hl : s.lock with _ | a
      · rfl
      cases a with
      | intr => rfl
      | thread t' =>
        obtain rfl | ht := eq_or_ne t' t
        · simp [VState.goto, hbuilding]
        · simp [VState.goto, ht]
    · simp [VState.held, VState.goto, hnone, hbuilding]
    · simp [VState.held, VState.goto, hthread, hbuilding]
  refine ⟨hthreads, hheld ▸ h.pool, fun t' => ?_, h.rings⟩
  obtain rfl | ht := eq_or_ne t' t
  · simpa [VState.goto] using hbuilt
  · simpa [VState.goto, ht] using h.built t'

theorem held_goto (h : VInv own s) (hin : (s.pc t).inside = true) (s1 : VState T B) :
    (s1.goto t p s.lock).held = p.building := by
  simp [VState.held, VState.goto, (h.threads.locked t).1 hin]

theorem goto_disk (h : VInv own s) (hpc : s.pc t = p0) (hpool : Pool d s.reqs p.building)
    (hbuilt : p.Built d) (hrings : Rings d s.devIdx s.inflight s.reqs)
    (hin : p0.inside = true := by rfl) (hp : p.inside = true := by rfl)
    (hown : p.buf = p0.buf := by rfl) (hwaits : p.waits = p0.waits := by rfl)
    (hmarked : p.marked = p0.marked := by rfl) :
    VInv own ({ s with disk := d }.goto t p s.lock) := by
  subst hpc
  have hthreads : Threads own ({ s with disk := d }.goto t p s.lock) := by
    refine (h.threads.congr rfl rfl rfl rfl : Threads own { s with disk := d }).goto
      (.inl ⟨rfl, hp.trans hin.symm⟩) (fun b hb => ?_) hwaits hmarked
    exact h.threads.owns t b (hown ▸ hb)
  refine ⟨hthreads, ?_, h.built_update hin hbuilt, hrings⟩
  exact h.held_goto hin { s with disk := d } ▸ hpool

end VInv

/-! ### The steps of a thread -/

/-- A step that does not panic and keeps the invariant. -/
def Safe (own : B → Option T) : Except VPanic (Option (VState T B)) → Prop :=
  Ends (fun _ => True) fun o => ∀ s' ∈ o, VInv own s'

variable [DecidableEq T] [DecidableEq B]

/-- **What a step of a thread can do**, in the states of the invariant. -/
inductive DriverStep (s : VState T B) (t : T) (n : ℕ) : VState T B → Prop
  | enter {b : B} {w : Bool} : s.pc t = .enter b w → s.lock = none →
      DriverStep s t n (s.goto t (.alloc b w) (some (.thread t)))
  | alloc {b : B} {w : Bool} {c : Chain} : s.pc t = .alloc b w → c.ids.Nodup →
      (∀ i ∈ c.ids, i < NUM ∧ s.disk.free i = true) →
      DriverStep s t n ({ s with disk := s.disk.reserve c.ids }.goto t (.format b w c) s.lock)
  | giveUp {b : B} {w : Bool} {l : List ℕ} : s.pc t = .alloc b w → s.disk.nfree < 3 →
      (∀ i ∈ l, i < NUM ∧ s.disk.free i = true) →
      DriverStep s t n ({ s with disk := (s.disk.reserve l).release l }.goto t
        (if w then .idle else .enter b w) none)
  | format {b : B} {w : Bool} {c : Chain} : s.pc t = .format b w c →
      DriverStep s t n ({ s with disk := formatDescs s.disk c b w n }.goto t (.ring b w c)
        s.lock)
  | ring {b : B} {w : Bool} {c : Chain} : s.pc t = .ring b w c →
      DriverStep s t n ({ s with disk := { s.disk with
        availRing := update s.disk.availRing (s.disk.availIdx % NUM) c.i0 } }.goto t
        (.publish b w c) s.lock)
  | publish {b : B} {w : Bool} {c : Chain} : s.pc t = .publish b w c →
      DriverStep s t n ({ s with
        disk := { s.disk with availIdx := (s.disk.availIdx + 1) % U16 }
        reqs := s.reqs ++ [(⟨c, b, w, (s.disk.ops c.i0).sector, false⟩ : Req B)] }.goto t
        (.submitted b w c) s.lock)
  | leave {b : B} {c : Chain} : s.pc t = .submitted b true c →
      DriverStep s t n (s.goto t .idle none)
  | mark {b : B} {c : Chain} : s.pc t = .submitted b false c →
      DriverStep s t n ({ s with bdisk := update s.bdisk b true }.goto t (.test b c)
        s.lock)
  | sleep {b : B} {c : Chain} : s.pc t = .test b c → s.bdisk b = true →
      DriverStep s t n (s.goto t (.asleep b c) none)
  | finish {r : Req B} : s.pc t = .test r.b r.chain → r ∈ s.reqs → r.handled = true →
      DriverStep s t n ({ s with
        disk := s.disk.release r.chain.ids
        reqs := s.reqs.filter (·.chain.i0 ≠ r.chain.i0) }.goto t .idle none)
  | wake {b : B} {c : Chain} : s.pc t = .asleep b c → s.lock = none →
      DriverStep s t n (s.goto t (.test b c) (some (.thread t)))

namespace VInv

section

variable (h : VInv own s)
include h

section

omit [DecidableEq B]

omit [DecidableEq T] in
theorem pool_of_pc (hpc : s.pc t = p) (hin : p.inside = true) :
    Pool s.disk s.reqs p.building := by
  subst hpc
  have hheld : s.held = (s.pc t).building := by rw [VState.held, (h.threads.locked t).1 hin]
  exact hheld ▸ h.pool

theorem giveUp (hpc : s.pc t = .alloc b w) {l : List ℕ}
    (hl : ∀ i ∈ l, i < NUM ∧ s.disk.free i = true) :
    VInv own ({ s with disk := (s.disk.reserve l).release l }.goto t
      (if w then .idle else .enter b w) none) := by
  have hin : (s.pc t).inside = true := by rw [hpc]; rfl
  have hlock := (h.threads.locked t).1 hin
  have hthreads : Threads own { s with disk := (s.disk.reserve l).release l } :=
    h.threads.congr rfl rfl rfl rfl
  have hbase : VInv own { s with disk := (s.disk.reserve l).release l } :=
    ⟨hthreads, h.pool.giveBack hl,
      fun t' => by
        obtain rfl | ht := eq_or_ne t' t
        · simp only [hpc]
          trivial
        · exact Pc.built_of_outside (h.threads.outside hin ht),
      h.rings.congr rfl rfl rfl rfl rfl fun _ _ => rfl⟩
  cases w with
  | true => exact hbase.goto hpc (.inr (.inr ⟨hlock, rfl, rfl⟩)) fun b' hb => by cases hb
  | false =>
    exact hbase.goto hpc (.inr (.inr ⟨hlock, rfl, rfl⟩)) fun b' hb =>
      h.threads.owns t b' (by rw [hpc]; exact hb)

theorem format (hpc : s.pc t = .format b w c) :
    VInv own ({ s with disk := formatDescs s.disk c b w n }.goto t (.ring b w c) s.lock) := by
  have hpool : Pool s.disk s.reqs [c] := h.pool_of_pc hpc rfl
  obtain ⟨hpool', hlinked⟩ := hpool.format b w n
  refine h.goto_disk hpc hpool' hlinked ?_
  refine h.rings.congr rfl rfl rfl rfl rfl fun id hid => ?_
  -- the chain has no head of another request
  obtain ⟨r, hr, -, rfl⟩ := mem_pending.1 hid
  have hne : r.chain.i0 ≠ c.i0 := fun heq =>
    hpool.not_mem_held hr (head_mem_ids _) (heq ▸ head_mem_ids _)
  simp [formatDescs, hne]

theorem ring (hpc : s.pc t = .ring b w c) :
    VInv own ({ s with disk := { s.disk with
      availRing := update s.disk.availRing (s.disk.availIdx % NUM) c.i0 } }.goto t
      (.publish b w c) s.lock) := by
  have hpool : Pool s.disk s.reqs [c] := h.pool_of_pc hpc rfl
  have hbuilt : Linked s.disk c b w := by
    have := h.built t
    rwa [hpc] at this
  exact h.goto_disk hpc (hpool.congr rfl rfl rfl fun _ => ⟨rfl, rfl⟩)
    ⟨hbuilt.congr (fun _ _ => rfl) ⟨rfl, rfl⟩ rfl, update_self ..⟩
    (h.rings.write h.length_lt _)

theorem publish (hpc : s.pc t = .publish b w c) :
    VInv own ({ s with
      disk := { s.disk with availIdx := (s.disk.availIdx + 1) % U16 }
      reqs := s.reqs ++ [(⟨c, b, w, (s.disk.ops c.i0).sector, false⟩ : Req B)] }.goto t
      (.submitted b w c) s.lock) := by
  have hin : (s.pc t).inside = true := by rw [hpc]; rfl
  have hpool : Pool s.disk s.reqs [c] := h.pool_of_pc hpc rfl
  obtain ⟨hbuilt, hslot⟩ : Linked s.disk c b w ∧
      s.disk.availRing (s.disk.availIdx % NUM) = c.i0 := by
    have := h.built t
    rwa [hpc] at this
  refine ⟨h.threads.publish hpc _ _, ?_, h.built_update hin trivial,
    h.rings.publish h.length_lt hslot rfl⟩
  rw [h.held_goto hin]
  exact (hpool.submit hbuilt).congr rfl rfl rfl fun _ => ⟨rfl, rfl⟩

theorem finish {r : Req B} (hpc : s.pc t = .test r.b r.chain)
    (hr : r ∈ s.reqs) (hdone : r.handled = true) :
    VInv own ({ s with
      disk := s.disk.release r.chain.ids
      reqs := s.reqs.filter (·.chain.i0 ≠ r.chain.i0) }.goto t .idle none) := by
  have hin : (s.pc t).inside = true := by rw [hpc]; rfl
  have hpool : Pool s.disk s.reqs [] := h.pool_of_pc hpc rfl
  have hinj := hpool.head_inj hr
  refine ⟨h.threads.finish hinj hpc _, (hpool.release hr).2, h.built_update hin trivial, ?_⟩
  -- a request that was handled is in no ring
  have hpend : pending (s.reqs.filter (·.chain.i0 ≠ r.chain.i0)) = pending s.reqs := by
    rw [pending_filter, List.filter_eq_self]
    intro id hid
    obtain ⟨r', hr', hnot, rfl⟩ := mem_pending.1 hid
    refine decide_eq_true fun heq => ?_
    rw [hinj r' hr' heq, hdone] at hnot
    cases hnot
  obtain ⟨availQ, usedQ, ha, hu, hperm, hstatus⟩ := h.rings
  exact Rings.congr ⟨availQ, usedQ, ha, hu, hpend ▸ hperm, hstatus⟩ rfl rfl rfl rfl rfl fun _ _ => rfl

end

theorem mark (hpc : s.pc t = .submitted b false c) :
    VInv own ({ s with bdisk := update s.bdisk b true }.goto t (.test b c)
      s.lock) := by
  have hin : (s.pc t).inside = true := by rw [hpc]; rfl
  have hpool : Pool s.disk s.reqs [] := h.pool_of_pc hpc rfl
  refine ⟨h.threads.mark hpc, ?_, h.built_update hin trivial, h.rings⟩
  rw [h.held_goto hin]
  exact hpool

/-- **Every step of a thread is one of those, and none panics.** -/
theorem threadStep_ends (t : T) (n : ℕ) :
    Ends (fun _ => True) (fun o => ∀ s' ∈ o, DriverStep s t n s') (threadStep s t n) := by
  have hsome : ∀ {s' : VState T B}, DriverStep s t n s' → ∀ u ∈ some s', DriverStep s t n u := by
    rintro s' hs' _ ⟨rfl⟩
    exact hs'
  cases hpc : s.pc t with simp only [threadStep, hpc]
  | idle => exact fun _ hu => by cases hu
  | enter b w =>
    intro s' hs'
    obtain ⟨hlock, rfl⟩ := guard_eq_some.1 hs'
    exact .enter hpc hlock
  | alloc b w =>
    obtain ⟨l, hcall, hlen, hnodup, hl, -⟩ | ⟨l, hcall, hl, hfew⟩ := allocDescs_cases s.disk 3
    · obtain ⟨i0, i1, i2, rfl⟩ := List.length_eq_three.1 hlen
      simp only [hcall]
      exact hsome (.alloc (c := ⟨i0, i1, i2⟩) hpc hnodup hl)
    · simp only [hcall]
      exact hsome (.giveUp hpc hfew hl)
  | format b w c =>
    exact hsome (.format hpc)
  | ring b w c =>
    exact hsome (.ring hpc)
  | publish b w c =>
    exact hsome (.publish hpc)
  | submitted b w c =>
    cases w with
    | true =>
      simp only [if_true]
      exact hsome (.leave hpc)
    | false =>
      simp only [Bool.false_eq_true, if_false]
      exact hsome (.mark hpc)
  | test b c =>
    cases hb : s.bdisk b with
    | true =>
      simp only [if_true]
      exact hsome (.sleep hpc hb)
    | false =>
      have hpool : Pool s.disk s.reqs [] := h.pool_of_pc hpc rfl
      obtain ⟨r, hr, rfl, rfl, -, hhandled⟩ := h.threads.wait t b c (by rw [hpc]; rfl)
      have hdone : r.handled = true := hhandled.2 ⟨by rw [hpc]; rfl, hb⟩
      simp only [Bool.false_eq_true, if_false, (hpool.release hr).1]
      exact hsome (.finish hpc hr hdone)
  | asleep b c =>
    intro s' hs'
    obtain ⟨hlock, rfl⟩ := guard_eq_some.1 hs'
    exact .wake hpc hlock

/-- **A step of a thread keeps the invariant.** -/
theorem driverStep (hstep : DriverStep s t n s') : VInv own s' := by
  cases hstep with
  | enter hpc hlock | wake hpc hlock =>
    exact h.goto hpc (.inr (.inl ⟨hlock, rfl, rfl⟩)) fun b' hb =>
      h.threads.owns t b' (by rw [hpc]; exact hb)
  | @alloc b w c hpc hnodup hl =>
    have hpool : Pool s.disk s.reqs [] := h.pool_of_pc hpc rfl
    refine h.goto_disk hpc (hpool.reserve hnodup hl) trivial ?_
    exact h.rings.congr rfl rfl rfl rfl rfl fun _ _ => rfl
  | giveUp hpc _ hl => exact h.giveUp hpc hl
  | format hpc => exact h.format hpc
  | ring hpc => exact h.ring hpc
  | publish hpc => exact h.publish hpc
  | leave hpc =>
    have hlock := (h.threads.locked t).1 (by rw [hpc]; rfl)
    exact h.goto hpc (.inr (.inr ⟨hlock, rfl, rfl⟩)) fun b' hb => by cases hb
  | mark hpc => exact h.mark hpc
  | sleep hpc _ =>
    have hlock := (h.threads.locked t).1 (by rw [hpc]; rfl)
    exact h.goto hpc (.inr (.inr ⟨hlock, rfl, rfl⟩)) fun b' hb =>
      h.threads.owns t b' (by rw [hpc]; exact hb)
  | finish hpc hr hdone => exact h.finish hpc hr hdone

theorem thread (t : T) (n : ℕ) : Safe own (threadStep s t n) :=
  (h.threadStep_ends t n).mono fun _ ho s' hs' => h.driverStep (ho s' hs')

end

end VInv

/-! ### The handler and the device -/

section

omit [DecidableEq T] [DecidableEq B]

theorem VState.held_eq_nil (hlock : ∀ t, s.lock ≠ some (.thread t)) : s.held = [] := by
  rw [VState.held]
  split
  next t ht => exact absurd ht (hlock t)
  next => rfl

theorem VInv.pool_of_lock (h : VInv own s) (hlock : ∀ t, s.lock ≠ some (.thread t)) :
    Pool s.disk s.reqs [] :=
  VState.held_eq_nil hlock ▸ h.pool

theorem VInv.setLock (h : VInv own s) {l : Option (Holder T)}
    (hlock : ∀ t, s.lock ≠ some (.thread t)) (hl : ∀ t, l ≠ some (.thread t)) :
    VInv own { s with lock := l } := by
  refine ⟨⟨fun t => ?_, h.threads.owns, h.threads.wait, h.threads.read, h.threads.handled⟩,
    ?_, h.built, h.rings⟩
  · exact iff_of_false (by simp [h.threads.outside_of_lock (hlock t)]) (hl t)
  · rw [VState.held_eq_nil (by exact hl)]
    exact h.pool_of_lock hlock

end

/-- **What a step of the handler can do**, in the states of the invariant. -/
inductive HandlerStep (s : VState T B) : VState T B → Prop
  | done : s.lock = some .intr → s.disk.usedIdx = s.disk.usedRingIdx →
      HandlerStep s { s with lock := none }
  | read {r : Req B} : s.lock = some .intr → s.disk.usedIdx ≠ s.disk.usedRingIdx →
      s.disk.usedRing (s.disk.usedIdx % NUM) = r.chain.i0 → r ∈ s.reqs → r.write = false →
      HandlerStep s { s with
        disk := { s.disk with usedIdx := (s.disk.usedIdx + 1) % U16 }
        bdisk := update s.bdisk r.b false
        reqs := s.reqs.map fun r' =>
          if r'.chain.i0 = r.chain.i0 then { r' with handled := true } else r' }
  | write {r : Req B} : s.lock = some .intr → s.disk.usedIdx ≠ s.disk.usedRingIdx →
      s.disk.usedRing (s.disk.usedIdx % NUM) = r.chain.i0 → r ∈ s.reqs → r.write = true →
      HandlerStep s { s with
        disk := Disk.release { s.disk with usedIdx := (s.disk.usedIdx + 1) % U16 } r.chain.ids
        reqs := s.reqs.filter (·.chain.i0 ≠ r.chain.i0) }

section

variable (h : VInv own s)
include h

/-- **Every step of the handler is one of those, and none panics.** -/
theorem VInv.intrStep_ends :
    Ends (fun _ => True) (fun o => ∀ s' ∈ o, HandlerStep s s') (intrStep s) := by
  by_cases hlock : s.lock = some .intr
  swap
  · rw [intrStep, if_pos hlock]
    exact fun _ hu => by cases hu
  by_cases hidx : s.disk.usedIdx = s.disk.usedRingIdx
  · rw [intrStep, if_neg (not_not.2 hlock), if_pos hidx]
    rintro _ ⟨rfl⟩
    exact .done hlock hidx
  have hpool := h.pool_of_lock (by simp [hlock])
  obtain ⟨hpend, hstatus, -⟩ := h.rings.intr hidx hpool.pending_nodup
  obtain ⟨r, hr, -, hid⟩ := mem_pending.1 hpend
  rw [← hid] at hstatus
  have hlinked := (hpool.linked r hr).1
  rw [intrStep, if_neg (not_not.2 hlock), if_neg hidx]
  cases hwrite : r.write with
  | false =>
    have hidx1 : (s.disk.info r.chain.i0).idx1 < 0 := by simp [hlinked.idx1, hwrite]
    simp only [← hid, hstatus, ne_eq, not_true_eq_false, if_false, if_pos hidx1,
      hlinked.buf]
    rintro _ ⟨rfl⟩
    exact .read hlock hidx hid.symm hr hwrite
  | true =>
    have hidx1 : (s.disk.info r.chain.i0).idx1 = r.chain.i0 := by
      simp [hlinked.idx1, hwrite]
    have hpool' : Pool { s.disk with usedIdx := (s.disk.usedIdx + 1) % U16 } s.reqs [] :=
      hpool.congr rfl rfl rfl fun _ => ⟨rfl, rfl⟩
    simp only [← hid, hstatus, ne_eq, not_true_eq_false, if_false, hidx1,
      Int.not_ofNat_neg, Int.toNat_natCast, (hpool'.release hr).1]
    rintro _ ⟨rfl⟩
    exact .write hlock hidx hid.symm hr hwrite

omit [DecidableEq T] in
/-- **A step of the handler keeps the invariant.** -/
theorem VInv.handlerStep (hstep : HandlerStep s s') : VInv own s' := by
  have hbuilt : s.lock = some .intr → ∀ d t, (s.pc t).Built d := fun hlock d t =>
    Pc.built_of_outside (h.threads.outside_of_lock (by simp [hlock]))
  cases hstep with
  | done hlock hidx => exact h.setLock (by simp [hlock]) (by simp)
  | @read r hlock hidx hid hr hwrite =>
    have hpool := h.pool_of_lock (by simp [hlock])
    obtain ⟨-, -, hrings⟩ := h.rings.intr hidx hpool.pending_nodup
    rw [hid] at hrings
    refine ⟨h.threads.handle hr hwrite (hpool.head_inj hr) hlock _, ?_, hbuilt hlock _,
      hrings _ (pending_mark _ _)⟩
    simp only [VState.held, hlock]
    exact (hpool.mark _).congr rfl rfl rfl fun _ => ⟨rfl, rfl⟩
  | @write r hlock hidx hid hr hwrite =>
    have hpool := h.pool_of_lock (by simp [hlock])
    obtain ⟨-, -, hrings⟩ := h.rings.intr hidx hpool.pending_nodup
    rw [hid] at hrings
    have hinj := hpool.head_inj hr
    have hpool' : Pool { s.disk with usedIdx := (s.disk.usedIdx + 1) % U16 } s.reqs [] :=
      hpool.congr rfl rfl rfl fun _ => ⟨rfl, rfl⟩
    -- nobody waits for a write
    have hnone : ∀ t, (s.pc t).waits ≠ some (r.b, r.chain) := by
      intro t hw
      obtain ⟨r', hr', hchain, -, hread, -⟩ := h.threads.wait t _ _ hw
      rw [hinj r' hr' (by rw [hchain]), hwrite] at hread
      cases hread
    refine ⟨h.threads.remove hinj hnone _, ?_, hbuilt hlock _,
      (hrings _ (pending_filter _ _)).congr rfl rfl rfl rfl rfl fun _ _ => rfl⟩
    simp only [VState.held, hlock]
    exact (hpool'.release hr).2

theorem VInv.intr : Safe own (intrStep s) :=
  h.intrStep_ends.mono fun _ ho s' hs' => h.handlerStep (ho s' hs')

section

omit [DecidableEq T] [DecidableEq B]

theorem VInv.take (hstep : takeStep s = some s') : VInv own s' := by
  simp only [takeStep, Option.ite_none_left_eq_some, Option.some.injEq] at hstep
  obtain ⟨hne, rfl⟩ := hstep
  exact ⟨h.threads.congr rfl rfl rfl rfl, h.pool, h.built, (h.rings.take hne).1⟩

theorem VInv.writeStatus_eq (hid : id ∈ s.inflight) :
    writeStatus s.disk id = { s.disk with
      info := update s.disk.info id { s.disk.info id with status := 0 } } := by
  obtain ⟨r, hr, -, rfl⟩ := mem_pending.1 (h.rings.mem_pending hid)
  have hlinked := (h.pool.linked r hr).1
  simp only [writeStatus, hlinked.desc0, hlinked.desc1, hlinked.desc2]

theorem VInv.complete (hstep : completeStep s id = some s') : VInv own s' := by
  obtain ⟨hid, rfl⟩ := guard_eq_some.1 hstep
  rw [h.writeStatus_eq hid]
  -- the status is nothing the chains depend on
  have hinfo : ∀ i, ((update s.disk.info id { s.disk.info id with status := 0 }) i).b =
      (s.disk.info i).b ∧
      ((update s.disk.info id { s.disk.info id with status := 0 }) i).idx1 =
        (s.disk.info i).idx1 := by
    intro i
    obtain rfl | hi := eq_or_ne i id
    · simp
    · simp [hi]
  refine ⟨h.threads.congr rfl rfl rfl rfl, h.pool.congr rfl rfl rfl hinfo, fun t => ?_,
    h.rings.complete h.length_lt hid⟩
  have hbuilt := h.built t
  change (s.pc t).Built _
  cases hpc : s.pc t with
  | ring b w c =>
    rw [hpc] at hbuilt
    exact Linked.congr hbuilt (fun _ _ => rfl) (hinfo _) rfl
  | publish b w c =>
    rw [hpc] at hbuilt
    exact ⟨Linked.congr hbuilt.1 (fun _ _ => rfl) (hinfo _) rfl, hbuilt.2⟩
  | _ => trivial

end

/-- **Every step keeps the invariant, and none panics**, if calls are made by owners. -/
theorem VInv.vstep (a : VAct T B)
    (hcall : ∀ t b w, a = .call t b w → own b = some t) : Safe own (vstep s a) := by
  cases a with
  | call t b w =>
    intro s' hs'
    obtain ⟨hpc, rfl⟩ := guard_eq_some.1 hs'
    refine h.goto hpc (.inl ⟨rfl, rfl⟩) fun b' hb => ?_
    cases hb
    exact hcall t b w rfl
  | thread t n => exact h.thread t n
  | intrEnter =>
    intro s' hs'
    obtain ⟨hlock, rfl⟩ := guard_eq_some.1 hs'
    exact h.setLock (by simp [hlock]) (by simp)
  | intr => exact h.intr
  | take =>
    intro s' hs'
    exact h.take hs'
  | complete id =>
    intro s' hs'
    exact h.complete hs'

end

/-! ### The machine -/

/-- The driver with its callers: `own b` is the thread that holds the sleeplock of `b`. -/
structure DiskSys (T B : Type) where
  v : VState T B
  own : B → Option T

/-- The actions: those of the driver and the device, and those on the sleeplock of a buffer. -/
inductive DiskAct (T B : Type)
  | acquiresleep (t : T) (b : B)
  | releasesleep (t : T) (b : B)
  | virtio (a : VAct T B)

/-- A call is made with the sleeplock of the buffer held, as `bread` and `bwrite` do. -/
def CallOk (own : B → Option T) : VAct T B → Bool
  | .call t b _ => own b = some t
  | _ => true

/-- One step of the machine. -/
def diskStep (s : DiskSys T B) : DiskAct T B → Except VPanic (Option (DiskSys T B))
  | .acquiresleep t b =>
    pure (if s.v.pc t = .idle ∧ s.own b = none then
      some { s with own := update s.own b (some t) } else none)
  | .releasesleep t b =>
    pure (if s.v.pc t = .idle ∧ s.own b = some t then
      some { s with own := update s.own b none } else none)
  | .virtio a =>
    if CallOk s.own a then do
      let v ← vstep s.v a
      pure (v.map fun v => { s with v })
    else pure none

/-- The machine of the driver, its callers and the device. A panic has no next state. -/
def diskMachine (T B : Type) [DecidableEq T] [DecidableEq B] :
    Machine (DiskSys T B) (DiskAct T B) where
  init s := s = ⟨.boot, fun _ => none⟩
  step s a := (diskStep s a).toOption.join

omit [DecidableEq T] [DecidableEq B] in
theorem VInv.own_congr {own' : B → Option T} (h : VInv own s)
    (hown : ∀ t b, (s.pc t).buf = some b → own b = some t → own' b = some t) :
    VInv own' s :=
  ⟨⟨h.threads.locked, fun t b hb => hown t b hb (h.threads.owns t b hb), h.threads.wait,
    h.threads.read, h.threads.handled⟩, h.pool, h.built, h.rings⟩

/-- **No step panics, and each keeps the invariant.** -/
theorem diskStep_safe {s : DiskSys T B} (h : VInv s.own s.v) (a : DiskAct T B) :
    Ends (fun _ => True) (fun o => ∀ s' ∈ o, VInv s'.own s'.v) (diskStep s a) := by
  cases a with
  | acquiresleep t b =>
    intro s' hs'
    obtain ⟨⟨-, hnone⟩, rfl⟩ := guard_eq_some.1 hs'
    refine h.own_congr fun t' b' _ hown => ?_
    have hne : b' ≠ b := by
      rintro rfl
      simp [hnone] at hown
    simpa [hne] using hown
  | releasesleep t b =>
    intro s' hs'
    obtain ⟨⟨hidle, hself⟩, rfl⟩ := guard_eq_some.1 hs'
    refine h.own_congr fun t' b' hbuf hown => ?_
    have hne : b' ≠ b := by
      rintro rfl
      rw [hself] at hown
      cases hown
      simp [hidle, Pc.buf] at hbuf
    simpa [hne] using hown
  | virtio a =>
    rw [diskStep]
    split
    · rename_i hok
      refine (h.vstep a fun t b w ha => ?_).bind fun o ho s' hs' => ?_
      · subst ha
        simpa [CallOk] using hok
      · obtain ⟨v, hv, rfl⟩ := Option.map_eq_some_iff.1 hs'
        exact ho v hv
    · intro s' hs'
      cases hs'

/-- The invariant holds in every run. -/
theorem vInv_of_reach {s : DiskSys T B} (h : (diskMachine T B).Reach Machine.anyStep s) :
    VInv s.own s.v := by
  refine h.invariant (I := fun s => VInv s.own s.v) ?_ ?_
  · rintro s rfl
    exact vInv_boot _
  · intro s a s' hs _ hstep
    have hsafe := diskStep_safe hs a
    rcases hr : diskStep s a with e | o
    · simp [diskMachine, hr, Except.toOption] at hstep
    rw [hr] at hsafe
    simp only [diskMachine, hr, Except.toOption, Option.join_some] at hstep
    exact hsafe s' hstep

/-- **Conservation of descriptors**, in one state.

* `free_or_chain`: while the lock is free, a descriptor is free, or in the chain of exactly
  one request that was submitted and not released.
* `chain`: the chain of such a request is three different descriptors, linked.
* `id_read`: an id read from the used ring is the head of such a chain.
* `slot`: no entry that the device has not consumed is in the slot that is written.
* `all_free`: all descriptors are free once all requests are finished. -/
structure Conserved (s : VState T B) : Prop where
  free_or_chain : s.lock = none → ∀ i < NUM,
    (s.disk.free i = true ∧ ∀ r ∈ s.reqs, i ∉ r.chain.ids) ∨
      (s.disk.free i = false ∧ ∃! r, r ∈ s.reqs ∧ i ∈ r.chain.ids)
  chain : ∀ r ∈ s.reqs, r.chain.ids.Nodup ∧ Linked s.disk r.chain r.b r.write
  id_read : s.lock = some .intr → s.disk.usedIdx ≠ s.disk.usedRingIdx →
    ∃ r ∈ s.reqs, r.handled = false ∧ r.chain.i0 = s.disk.usedRing (s.disk.usedIdx % NUM)
  slot : ∀ t b w c, s.pc t = .ring b w c →
    ∀ k < (s.disk.availIdx + U16 - s.devIdx) % U16,
      (s.devIdx + k) % NUM ≠ s.disk.availIdx % NUM
  all_free : (∀ t, s.pc t = .idle) → s.devIdx = s.disk.availIdx → s.inflight = [] →
    s.disk.usedIdx = s.disk.usedRingIdx → ∀ i < NUM, s.disk.free i = true

omit [DecidableEq T] [DecidableEq B] in
theorem VInv.conserved (h : VInv own s) : Conserved s where
  free_or_chain hlock i hi := by
    have hpool := h.pool_of_lock (by simp [hlock])
    have hfree := hpool.free_iff i
    by_cases hmem : i ∈ poolIds s.reqs []
    · obtain ⟨r, hr, hir⟩ : ∃ r ∈ s.reqs, i ∈ r.chain.ids := by simpa [mem_poolIds] using hmem
      refine .inr ⟨by simpa [hmem] using hfree, r, ⟨hr, hir⟩, ?_⟩
      rintro r' ⟨hr', hir'⟩
      exact hpool.eq_of_mem hr' hr hir' hir
    · refine .inl ⟨hfree.2 ⟨hi, hmem⟩, fun r hr hir => hmem ?_⟩
      exact mem_poolIds.2 (.inl ⟨r, hr, hir⟩)
  chain r hr := ⟨h.pool.ids_nodup hr, (h.pool.linked r hr).1⟩
  id_read _ hne := mem_pending.1 (h.rings.intr hne h.pool.pending_nodup).1
  slot _ _ _ _ _ _ hk := h.rings.slot_consumed h.length_lt hk
  all_free hidle havail hinflight hused i hi := by
    have hlock : ∀ t, s.lock ≠ some (.thread t) := fun t ht => by
      have hin := (h.threads.locked t).2 ht
      simp [hidle t, Pc.inside] at hin
    have hpend : pending s.reqs = [] :=
      (hinflight ▸ h.rings : Rings s.disk s.devIdx [] s.reqs).pending_eq_nil havail hused
    -- a request that was handled is a read, and its thread waits for it
    have hreqs : s.reqs = [] := by
      refine List.eq_nil_iff_forall_not_mem.2 fun r hr => ?_
      cases hhandled : r.handled with
      | false =>
        have hmem := mem_pending.2 ⟨r, hr, hhandled, rfl⟩
        simp [hpend] at hmem
      | true =>
        obtain ⟨t, hw⟩ := h.threads.read r hr (h.threads.handled r hr hhandled)
        simp [hidle t, Pc.waits] at hw
    have hpool := h.pool_of_lock hlock
    rw [hreqs] at hpool
    exact (hpool.free_iff i).2 ⟨hi, by simp [poolIds]⟩

/-- **Descriptors are conserved** in every interleaving of `virtio_disk_rw` by any threads on
any buffers, `virtio_disk_intr` and the device, and neither `free_desc` nor `virtio_disk_intr`
panics. -/
theorem descriptors_conserved {s : DiskSys T B} (h : (diskMachine T B).Reach Machine.anyStep s) :
    Conserved s.v ∧ ∀ a, ∃ o, diskStep s a = .ok o := by
  have hinv := vInv_of_reach h
  refine ⟨hinv.conserved, fun a => ?_⟩
  have hsafe := diskStep_safe hinv a
  cases hr : diskStep s a with
  | error e =>
    rw [hr] at hsafe
    exact absurd trivial hsafe
  | ok o => exact ⟨o, rfl⟩

/-- A read of one buffer, up to the interrupt: its three descriptors are in use, and the other
five are free. -/
theorem descriptors_conserved_read : ∃ s : DiskSys Unit Unit,
    (diskMachine Unit Unit).Reach Machine.anyStep s ∧ s.v.lock = some .intr ∧
      (∃ r ∈ s.v.reqs, r.handled = false ∧ r.chain.i0 = 0) ∧
      (List.range NUM).map s.v.disk.free =
        [false, false, false, true, true, true, true, true] := by
  have hrun : (diskMachine Unit Unit).exec ⟨.boot, fun _ => none⟩
      [.acquiresleep () (), .virtio (.call () () false), .virtio (.thread () 7),
        .virtio (.thread () 7), .virtio (.thread () 7), .virtio (.thread () 7),
        .virtio (.thread () 7), .virtio .take, .virtio (.complete 0), .virtio (.thread () 7),
        .virtio (.thread () 7), .virtio .intrEnter] = some _ := rfl
  have hreach := Machine.reach_of_exec (M := diskMachine Unit Unit) rfl hrun
  exact ⟨_, hreach, rfl, (descriptors_conserved hreach).1.id_read rfl (by decide), rfl⟩

end XVapor.Virtio
