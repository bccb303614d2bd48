import XVapor.VirtioDescs
import Mathlib.Data.List.Flatten
import Mathlib.Data.List.Pairwise
import Mathlib.Tactic.Ring

/-!
# Descriptors are Conserved

The invariant of the virtio driver, in the parts in which it is proved: the pool of
descriptors, and the two rings. Each part has one lemma for each thing that can happen to it.

## Main results

* `Pool`: **every descriptor is free, or in exactly one chain**, that of a request or the one
  that is being built; the chains of requests are as they were formatted.
* `Rings`: the requests that were not handled are those in the avail ring, with the device,
  and in the used ring, each once.
-/

namespace XVapor.Virtio

open Function

variable {B : Type} {d d' : Disk B} {reqs : List (Req B)} {held : List Chain} {c : Chain}
  {b : B} {w : Bool} {r r' : Req B} {i id n : ℕ}

/-! ### The pool -/

/-- The descriptors of the requests and of the chain that is being built. -/
def poolIds (reqs : List (Req B)) (held : List Chain) : List ℕ :=
  (reqs.map Req.chain ++ held).flatMap Chain.ids

/-- **The pool**: a descriptor is free or in one of the chains. -/
structure Pool (d : Disk B) (reqs : List (Req B)) (held : List Chain) : Prop where
  nodup : (poolIds reqs held).Nodup
  lt : ∀ i ∈ poolIds reqs held, i < NUM
  free_iff : ∀ i, d.free i = true ↔ i < NUM ∧ i ∉ poolIds reqs held
  linked : ∀ r ∈ reqs, Linked d r.chain r.b r.write ∧ (d.ops r.chain.i0).sector = r.sector

theorem mem_poolIds : i ∈ poolIds reqs held ↔
    (∃ r ∈ reqs, i ∈ r.chain.ids) ∨ ∃ c ∈ held, i ∈ c.ids := by
  simp [poolIds, List.mem_flatMap, List.mem_append]

theorem head_mem_ids (c : Chain) : c.i0 ∈ c.ids := by simp [Chain.ids]

theorem length_poolIds (reqs : List (Req B)) (held : List Chain) :
    (poolIds reqs held).length = 3 * reqs.length + 3 * held.length := by
  have hlen : ∀ l : List Chain, (l.flatMap Chain.ids).length = 3 * l.length := by
    intro l
    induction l with
    | nil => rfl
    | cons c l ih =>
      rw [List.flatMap_cons, List.length_append, ih, List.length_cons]
      change 3 + _ = _
      ring
  rw [poolIds, hlen, List.length_append, List.length_map]
  ring

namespace Pool

section

variable (h : Pool d reqs held)
include h

/-- There are descriptors for all chains. -/
theorem length_le : 3 * reqs.length + 3 * held.length ≤ NUM := by
  rw [← length_poolIds]
  calc (poolIds reqs held).length
      = (poolIds reqs held).toFinset.card := (List.toFinset_card_of_nodup h.nodup).symm
    _ ≤ (Finset.range NUM).card := Finset.card_le_card fun i hi =>
        Finset.mem_range.2 (h.lt i (List.mem_toFinset.1 hi))
    _ = NUM := Finset.card_range NUM

section

variable (hr : r ∈ reqs)
include hr

theorem ids_nodup : r.chain.ids.Nodup :=
  (List.nodup_flatMap.1 h.nodup).1 r.chain
    (List.mem_append_left _ (List.mem_map_of_mem hr))

/-- The requests have no descriptor in common. -/
theorem eq_of_mem (hr' : r' ∈ reqs)
    (hi : i ∈ r.chain.ids) (hi' : i ∈ r'.chain.ids) : r = r' := by
  have hpair := (List.nodup_flatMap.1 h.nodup).2
  rw [List.pairwise_append] at hpair
  have hsymm : Std.Symm (fun r r' : Req B =>
      onFun List.Disjoint Chain.ids r.chain r'.chain) :=
    ⟨fun _ _ hd => List.Disjoint.symm hd⟩
  by_contra hne
  exact ((List.pairwise_map.1 hpair.1).forall hr hr' hne) hi hi'

theorem head_inj : ∀ r' ∈ reqs, r'.chain.i0 = r.chain.i0 → r' = r :=
  fun _ hr' heq => h.eq_of_mem hr' hr (head_mem_ids _) (heq ▸ head_mem_ids _)

theorem used (hi : i ∈ r.chain.ids) :
    i < NUM ∧ d.free i = false := by
  have hmem : i ∈ poolIds reqs held := mem_poolIds.2 (.inl ⟨r, hr, hi⟩)
  refine ⟨h.lt i hmem, Bool.eq_false_iff.2 fun hfree => ?_⟩
  exact ((h.free_iff i).1 hfree).2 hmem

end

end

theorem not_mem_held (h : Pool d reqs [c]) (hr : r ∈ reqs) (hi : i ∈ r.chain.ids) :
    i ∉ c.ids := by
  intro hic
  have hpair := (List.nodup_flatMap.1 h.nodup).2
  rw [List.pairwise_append] at hpair
  exact hpair.2.2 r.chain (List.mem_map_of_mem hr) c (by simp) hi hic

theorem congr (h : Pool d reqs held) (hdesc : d'.desc = d.desc) (hfree : d'.free = d.free)
    (hops : d'.ops = d.ops)
    (hinfo : ∀ i, (d'.info i).b = (d.info i).b ∧ (d'.info i).idx1 = (d.info i).idx1) :
    Pool d' reqs held where
  nodup := h.nodup
  lt := h.lt
  free_iff i := hfree ▸ h.free_iff i
  linked r hr :=
    ⟨(h.linked r hr).1.congr (fun _ _ => by rw [hdesc]) (hinfo _) (by rw [hops]),
      hops ▸ (h.linked r hr).2⟩

/-- `alloc_descs` takes a chain from the pool. -/
theorem reserve (h : Pool d reqs []) (hnodup : c.ids.Nodup)
    (hc : ∀ i ∈ c.ids, i < NUM ∧ d.free i = true) : Pool (d.reserve c.ids) reqs [c] := by
  have hids : poolIds reqs [c] = poolIds reqs [] ++ c.ids := by simp [poolIds]
  have hnew : ∀ i ∈ c.ids, i ∉ poolIds reqs [] := fun i hi =>
    ((h.free_iff i).1 (hc i hi).2).2
  refine ⟨?_, fun i hi => ?_, fun i => ?_, fun r hr =>
    ⟨(h.linked r hr).1.congr (fun _ _ => rfl) ⟨rfl, rfl⟩ rfl, (h.linked r hr).2⟩⟩
  · rw [hids]
    exact h.nodup.append hnodup fun i hi hic => hnew i hic hi
  · rw [hids, List.mem_append] at hi
    exact hi.elim (h.lt i) fun hic => (hc i hic).1
  · rw [hids, List.mem_append]
    by_cases hi : i ∈ c.ids
    · simp [Disk.reserve, hi]
    · simpa [Disk.reserve, hi] using h.free_iff i

/-- A failed `alloc_descs` gives back what it has taken. -/
theorem giveBack (h : Pool d reqs held) {l : List ℕ} (hl : ∀ i ∈ l, i < NUM ∧ d.free i = true) :
    Pool ((d.reserve l).release l) reqs held := by
  have hfree : ((d.reserve l).release l).free = d.free := by
    funext i
    by_cases hi : i ∈ l
    · simp [Disk.release, hi, (hl i hi).2]
    · simp [Disk.release, Disk.reserve, hi]
  refine ⟨h.nodup, h.lt, fun i => hfree ▸ h.free_iff i, fun r hr => ?_⟩
  obtain ⟨hlinked, hsector⟩ := h.linked r hr
  refine ⟨hlinked.congr (fun i hi => ?_) ⟨rfl, rfl⟩ rfl, hsector⟩
  have hmem : i ∉ l := fun hil => by
    simpa [(h.used hr hi).2] using (hl i hil).2
  simp [Disk.release, Disk.reserve, hmem]

/-- The descriptors of the chain are filled in. -/
theorem format (h : Pool d reqs [c]) (b : B) (w : Bool) (n : ℕ) :
    Pool (formatDescs d c b w n) reqs [c] ∧ Linked (formatDescs d c b w n) c b w := by
  have hnodup : c.ids.Nodup :=
    (List.nodup_flatMap.1 h.nodup).1 c (by simp)
  simp only [Chain.ids, List.nodup_cons, List.mem_cons, List.not_mem_nil, or_false,
    not_or] at hnodup
  obtain ⟨⟨h01, h02⟩, h12, -⟩ := hnodup
  constructor
  · refine ⟨h.nodup, h.lt, h.free_iff, fun r hr => ?_⟩
    obtain ⟨hlinked, hsector⟩ := h.linked r hr
    have hne : ∀ i ∈ r.chain.ids, i ≠ c.i0 ∧ i ≠ c.i1 ∧ i ≠ c.i2 := fun i hi => by
      have := h.not_mem_held hr hi
      simpa [Chain.ids] using this
    have hhead := (hne _ (head_mem_ids _)).1
    refine ⟨hlinked.congr (fun i hi => ?_) ?_ ?_, ?_⟩
    · obtain ⟨hi0, hi1, hi2⟩ := hne i hi
      simp [formatDescs, hi0, hi1, hi2]
    · simp [formatDescs, hhead]
    · simp [formatDescs, hhead]
    · simpa [formatDescs, hhead] using hsector
  · exact ⟨by simp [formatDescs, h01, h02], by simp [formatDescs, h12], by simp [formatDescs],
      by simp [formatDescs], by simp [formatDescs], by simp [formatDescs]⟩

/-- The chain becomes a request. -/
theorem submit (h : Pool d reqs [c]) (hc : Linked d c b w) :
    Pool d (reqs ++ [⟨c, b, w, (d.ops c.i0).sector, false⟩]) [] := by
  have hids : poolIds (reqs ++ [⟨c, b, w, (d.ops c.i0).sector, false⟩]) [] =
      poolIds reqs [c] := by simp [poolIds]
  refine ⟨hids ▸ h.nodup, hids ▸ h.lt, hids ▸ h.free_iff, fun r hr => ?_⟩
  obtain hr | hr := List.mem_append.1 hr
  · exact h.linked r hr
  · rw [List.mem_singleton.1 hr]
    exact ⟨hc, rfl⟩

/-- **A request is released.** -/
theorem release (h : Pool d reqs []) (hr : r ∈ reqs) :
    freeChain d r.chain.i0 = .ok (d.release r.chain.ids) ∧
      Pool (d.release r.chain.ids) (reqs.filter (·.chain.i0 ≠ r.chain.i0)) [] := by
  refine ⟨freeChain_eq (h.linked r hr).1 (h.ids_nodup hr) fun i hi => h.used hr hi, ?_⟩
  have hmem : ∀ i, i ∈ poolIds (reqs.filter (·.chain.i0 ≠ r.chain.i0)) [] ↔
      i ∈ poolIds reqs [] ∧ i ∉ r.chain.ids := by
    intro i
    simp only [mem_poolIds, List.mem_filter, decide_eq_true_eq, List.not_mem_nil, false_and,
      exists_false, or_false]
    constructor
    · rintro ⟨r', ⟨hr', hne⟩, hi⟩
      exact ⟨⟨r', hr', hi⟩, fun hir => hne (by rw [h.eq_of_mem hr' hr hi hir])⟩
    · rintro ⟨⟨r', hr', hi⟩, hir⟩
      refine ⟨r', ⟨hr', fun heq => hir ?_⟩, hi⟩
      rwa [← h.head_inj hr r' hr' heq]
  refine ⟨?_, fun i hi => h.lt i ((hmem i).1 hi).1, fun i => ?_, fun r' hr' => ?_⟩
  · refine h.nodup.sublist ?_
    simp only [poolIds, List.append_nil]
    exact ((List.filter_sublist (l := reqs)).map _).flatMap _
  · rw [hmem]
    by_cases hi : i ∈ r.chain.ids
    · simpa [Disk.release, hi] using (h.used hr hi).1
    · simpa [Disk.release, hi] using h.free_iff i
  · simp only [List.mem_filter, decide_eq_true_eq] at hr'
    obtain ⟨hlinked, hsector⟩ := h.linked r' hr'.1
    refine ⟨hlinked.congr (fun i hi => ?_) ⟨rfl, rfl⟩ rfl, hsector⟩
    have hmem' : i ∉ r.chain.ids := fun hir =>
      hr'.2 (by rw [h.eq_of_mem hr'.1 hr hi hir])
    simp [Disk.release, hmem']

/-- `virtio_disk_intr` handles a request. -/
theorem mark (h : Pool d reqs held) (id : ℕ) :
    Pool d (reqs.map fun r => if r.chain.i0 = id then { r with handled := true } else r)
      held := by
  have hchain : (reqs.map fun r => if r.chain.i0 = id then { r with handled := true } else r).map
      Req.chain = reqs.map Req.chain := by
    rw [List.map_map]
    refine List.map_congr_left fun r _ => ?_
    simp only [comp_apply]
    split <;> rfl
  have hids : poolIds (reqs.map fun r => if r.chain.i0 = id then { r with handled := true }
      else r) held = poolIds reqs held := by rw [poolIds, hchain, poolIds]
  refine ⟨hids ▸ h.nodup, hids ▸ h.lt, hids ▸ h.free_iff, fun r' hr' => ?_⟩
  obtain ⟨r, hr, rfl⟩ := List.mem_map.1 hr'
  have hold := h.linked r hr
  split
  · exact hold
  · exact hold

end Pool

/-! ### The rings -/

/-- The heads of the requests that `virtio_disk_intr` has not handled. -/
def pending (reqs : List (Req B)) : List ℕ := (reqs.filter (!·.handled)).map (·.chain.i0)

theorem mem_pending :
    id ∈ pending reqs ↔ ∃ r ∈ reqs, r.handled = false ∧ r.chain.i0 = id := by
  simp [pending, and_assoc]

theorem Pool.pending_nodup (h : Pool d reqs held) : (pending reqs).Nodup := by
  have hpair := (List.nodup_flatMap.1 h.nodup).2
  rw [List.pairwise_append, List.pairwise_map] at hpair
  have hheads : (reqs.map (·.chain.i0)).Nodup := by
    refine List.pairwise_map.2 (hpair.1.imp fun {r r'} hd heq => ?_)
    exact hd (head_mem_ids _) (heq ▸ head_mem_ids _)
  exact hheads.sublist (List.filter_sublist.map _)

theorem pending_filter (reqs : List (Req B)) (id : ℕ) :
    pending (reqs.filter (·.chain.i0 ≠ id)) = (pending reqs).filter (· ≠ id) := by
  simp only [pending, List.filter_map, List.filter_filter]
  congr 2
  funext r
  exact Bool.and_comm _ _

theorem pending_mark (reqs : List (Req B)) (id : ℕ) :
    pending (reqs.map fun r => if r.chain.i0 = id then { r with handled := true } else r) =
      (pending reqs).filter (· ≠ id) := by
  induction reqs with
  | nil => rfl
  | cons r reqs ih =>
    simp only [pending, List.map_cons] at ih ⊢
    by_cases hid : r.chain.i0 = id
    · cases hr : r.handled <;> simp [hid, hr, ih]
    · cases hr : r.handled <;> simp [hid, hr, ih]

/-- **The rings**: the requests that were not handled are in the avail ring, with the device,
or in the used ring, and those in the used ring have status 0. -/
def Rings (d : Disk B) (devIdx : ℕ) (inflight : List ℕ) (reqs : List (Req B)) : Prop :=
  ∃ availQ usedQ, RingHolds NUM U16 d.availRing devIdx d.availIdx availQ ∧
    RingHolds NUM U16 d.usedRing d.usedIdx d.usedRingIdx usedQ ∧
    (availQ ++ inflight ++ usedQ).Perm (pending reqs) ∧
    ∀ id ∈ usedQ, (d.info id).status = 0

theorem NUM_dvd_U16 : NUM ∣ U16 := ⟨8192, rfl⟩

theorem NUM_lt_U16 : NUM < U16 := by decide

namespace Rings

variable {devIdx : ℕ} {inflight : List ℕ}

theorem congr (h : Rings d devIdx inflight reqs) (havail : d'.availRing = d.availRing)
    (hidx : d'.availIdx = d.availIdx) (hused : d'.usedRing = d.usedRing)
    (hdev : d'.usedRingIdx = d.usedRingIdx) (husedIdx : d'.usedIdx = d.usedIdx)
    (hinfo : ∀ id ∈ pending reqs, (d'.info id).status = (d.info id).status) :
    Rings d' devIdx inflight reqs := by
  obtain ⟨availQ, usedQ, ha, hu, hperm, hstatus⟩ := h
  refine ⟨availQ, usedQ, ?_, ?_, hperm, fun id hid => ?_⟩
  · rwa [havail, hidx]
  · rwa [hused, hdev, husedIdx]
  · have hpend : id ∈ pending reqs := hperm.subset (List.mem_append_right _ hid)
    rw [hinfo id hpend, hstatus id hid]

theorem length_avail_le {availQ usedQ : List ℕ}
    (hperm : (availQ ++ inflight ++ usedQ).Perm (pending reqs)) :
    availQ.length + inflight.length + usedQ.length ≤ reqs.length := by
  have hlen := hperm.length_eq
  simp only [List.length_append] at hlen
  rw [pending, List.length_map] at hlen
  exact hlen.le.trans (List.length_filter_le _ _)

section

variable (h : Rings d devIdx inflight reqs)
include h

section

variable (hlen : reqs.length < NUM)
include hlen

/-- **The slot that is written next has been consumed.** -/
theorem slot_consumed {k : ℕ}
    (hk : k < (d.availIdx + U16 - devIdx) % U16) :
    (devIdx + k) % NUM ≠ d.availIdx % NUM := by
  obtain ⟨availQ, usedQ, ha, -, hperm, -⟩ := h
  have hle := length_avail_le hperm
  rw [← ha.length_eq NUM_lt_U16] at hk
  exact ha.slot_ne NUM_dvd_U16 (by omega) hk

theorem write (i : ℕ) :
    Rings { d with availRing := update d.availRing (d.availIdx % NUM) i } devIdx
      inflight reqs := by
  obtain ⟨availQ, usedQ, ha, hu, hperm, hstatus⟩ := h
  have hle := length_avail_le hperm
  exact ⟨availQ, usedQ, ha.write NUM_dvd_U16 (by omega) i, hu, hperm, hstatus⟩

theorem publish
    (hslot : d.availRing (d.availIdx % NUM) = r.chain.i0) (hr : r.handled = false) :
    Rings { d with availIdx := (d.availIdx + 1) % U16 } devIdx inflight (reqs ++ [r]) := by
  obtain ⟨availQ, usedQ, ha, hu, hperm, hstatus⟩ := h
  have hle := length_avail_le hperm
  refine ⟨availQ ++ [r.chain.i0], usedQ, ha.produce NUM_dvd_U16 (by omega) hslot, hu, ?_,
    hstatus⟩
  have hpend : pending (reqs ++ [r]) = pending reqs ++ [r.chain.i0] := by
    simp [pending, hr]
  rw [hpend, List.perm_iff_count]
  intro a
  have hcount := (List.perm_iff_count.1 hperm) a
  simp only [List.count_append] at hcount ⊢
  omega

end

theorem take (hne : devIdx ≠ d.availIdx) :
    Rings d ((devIdx + 1) % U16) (inflight ++ [d.availRing (devIdx % NUM)]) reqs ∧
      d.availRing (devIdx % NUM) ∈ pending reqs := by
  obtain ⟨availQ, usedQ, ha, hu, hperm, hstatus⟩ := h
  obtain _ | ⟨id, availQ⟩ := availQ
  · exact absurd ((ha.eq_nil_iff NUM_lt_U16).2 rfl) hne
  rw [ha.head]
  refine ⟨⟨availQ, usedQ, ha.consume NUM_dvd_U16, hu, ?_, hstatus⟩,
    hperm.subset (by simp)⟩
  rw [List.perm_iff_count]
  intro a
  have hcount := (List.perm_iff_count.1 hperm) a
  simp only [List.count_append, List.count_cons, List.count_nil] at hcount ⊢
  omega

theorem mem_pending (hid : id ∈ inflight) :
    id ∈ pending reqs := by
  obtain ⟨availQ, usedQ, -, -, hperm, -⟩ := h
  exact hperm.subset (by simp [hid])

theorem complete (hlen : reqs.length < NUM)
    (hid : id ∈ inflight) :
    Rings { d with
      info := update d.info id { d.info id with status := 0 }
      usedRing := update d.usedRing (d.usedRingIdx % NUM) id
      usedRingIdx := (d.usedRingIdx + 1) % U16 } devIdx (inflight.erase id) reqs := by
  obtain ⟨availQ, usedQ, ha, hu, hperm, hstatus⟩ := h
  have hle := length_avail_le hperm
  have hu' := (hu.write NUM_dvd_U16 (by omega) id).produce (a := id) NUM_dvd_U16 (by omega)
    (update_self ..)
  refine ⟨availQ, usedQ ++ [id], ha, hu', ?_, fun j hj => ?_⟩
  · rw [List.perm_iff_count]
    intro a
    have hcount := (List.perm_iff_count.1 hperm) a
    have hpos := List.count_pos_iff.2 hid
    simp only [List.count_append, List.count_erase, List.count_cons, List.count_nil,
      beq_iff_eq] at hcount ⊢
    obtain rfl | hia := eq_or_ne id a
    · simp only [if_true]
      omega
    · simp only [hia, if_false]
      omega
  · by_cases hji : j = id
    · simp [hji]
    · have hold := hstatus j (by simpa [hji] using hj)
      simpa [update_of_ne hji] using hold

/-- **An entry of the used ring is the head of a request** that was not handled, with status
0, and reading it leaves the others. -/
theorem intr (hne : d.usedIdx ≠ d.usedRingIdx)
    (hnodup : (pending reqs).Nodup) :
    d.usedRing (d.usedIdx % NUM) ∈ pending reqs ∧
      (d.info (d.usedRing (d.usedIdx % NUM))).status = 0 ∧
      ∀ reqs' : List (Req B),
        pending reqs' = (pending reqs).filter (· ≠ d.usedRing (d.usedIdx % NUM)) →
        Rings { d with usedIdx := (d.usedIdx + 1) % U16 } devIdx inflight reqs' := by
  obtain ⟨availQ, usedQ, ha, hu, hperm, hstatus⟩ := h
  obtain _ | ⟨id, usedQ⟩ := usedQ
  · exact absurd ((hu.eq_nil_iff NUM_lt_U16).2 rfl) hne
  rw [hu.head]
  refine ⟨hperm.subset (by simp), hstatus id (by simp), fun reqs' hreqs' => ?_⟩
  refine ⟨availQ, usedQ, ha, hu.consume NUM_dvd_U16, ?_, fun j hj =>
    hstatus j (List.mem_cons_of_mem _ hj)⟩
  have herase : (pending reqs).filter (· ≠ id) = (pending reqs).erase id := by
    rw [hnodup.erase_eq_filter]
    exact List.filter_congr fun j _ => by by_cases hj : j = id <;> simp [hj]
  rw [hreqs', herase, List.perm_iff_count]
  intro a
  have hcount := (List.perm_iff_count.1 hperm) a
  simp only [List.count_append, List.count_cons, List.count_erase] at hcount ⊢
  omega

end

/-- When nothing is in the rings or with the device, every request was handled. -/
theorem pending_eq_nil (h : Rings d devIdx [] reqs) (havail : devIdx = d.availIdx)
    (hused : d.usedIdx = d.usedRingIdx) : pending reqs = [] := by
  obtain ⟨availQ, usedQ, ha, hu, hperm, -⟩ := h
  rw [(ha.eq_nil_iff NUM_lt_U16).1 havail, (hu.eq_nil_iff NUM_lt_U16).1 hused] at hperm
  exact hperm.symm.eq_nil

end Rings

end XVapor.Virtio
