import XVapor.SpaceMachine

/-!
# The Mappings of a Process

`mmap` takes the address of a new mapping from a watermark, `max_vma`, that only moves down.
So the list of the mappings is in the order of falling addresses, and the watermark lies below
all of them. **The order is kept by calls with proper lengths**: a length of `mmap` that is
positive and not above the watermark, and a length of `munmap` that is a multiple of the page
size or takes the whole mapping. A process clone starts again with the watermark at the top,
so it keeps the order only if there is no mapping to copy.

## Main results

* `vmas_of_reach`: the mappings along runs with proper lengths.
-/

namespace XVapor.Vm

open Files (ProcId ProcState)

variable {k k' : Kernel} {p : ProcId} {top : ℕ} {vmas before after : List Vma} {w : Vma}

/-! ### Lists of mappings in order -/

/-- The bounds of the mapping are multiples of the page size, it is not empty, and it lies in
the area for mappings. -/
structure Vma.Proper (w : Vma) : Prop where
  start : PGSIZE ∣ w.start
  stop : PGSIZE ∣ w.stop
  lt : w.start < w.stop
  low : MMAP_END_ADDRESS ≤ w.start
  high : w.stop ≤ MMAP_MAX_ADDR_START

/-- **The mappings in order**, above the watermark. -/
structure MapsOk (top : ℕ) (vmas : List Vma) : Prop where
  aligned : PGSIZE ∣ top
  high : top ≤ MMAP_MAX_ADDR_START
  proper : ∀ w ∈ vmas, w.Proper
  above : ∀ w ∈ vmas, top ≤ w.start
  order : vmas.Pairwise fun w w' => w'.stop ≤ w.start

theorem MapsOk.nil : MapsOk MMAP_MAX_ADDR_START [] :=
  ⟨by decide, Nat.le_refl _, by simp, by simp, .nil⟩

variable {start : ℕ}

theorem MapsOk.lower (h : MapsOk top vmas) (hs : PGSIZE ∣ start) (hle : start ≤ top) :
    MapsOk start vmas :=
  ⟨hs, hle.trans h.high, h.proper, fun w hw => hle.trans (h.above w hw), h.order⟩

theorem MapsOk.mmap (h : MapsOk top vmas) (hw : w.Proper) (hstop : w.stop = top) :
    MapsOk w.start (vmas ++ [w]) := by
  have hlow := h.lower hw.start (hstop ▸ hw.lt.le)
  refine ⟨hw.start, hlow.high, fun w' hw' => ?_, fun w' hw' => ?_, ?_⟩
  · obtain hw' | hw' := List.mem_append.1 hw'
    · exact h.proper w' hw'
    · rwa [List.mem_singleton.1 hw']
  · obtain hw' | hw' := List.mem_append.1 hw'
    · exact hlow.above w' hw'
    · rw [List.mem_singleton.1 hw']
  · refine List.pairwise_append.2 ⟨h.order, List.pairwise_singleton _ _, fun w1 hw1 w2 hw2 => ?_⟩
    rw [List.mem_singleton.1 hw2, hstop]
    exact h.above w1 hw1

theorem MapsOk.remove (h : MapsOk top (before ++ w :: after)) : MapsOk top (before ++ after) := by
  have hsub : (before ++ after).Sublist (before ++ w :: after) :=
    (List.Sublist.refl before).append (List.sublist_cons_self w after)
  exact ⟨h.aligned, h.high, fun w' hw' => h.proper w' (hsub.subset hw'),
    fun w' hw' => h.above w' (hsub.subset hw'), h.order.sublist hsub⟩

theorem MapsOk.shrink (h : MapsOk top (before ++ w :: after)) (hs : PGSIZE ∣ start)
    (hle : w.start ≤ start) (hlt : start < w.stop) :
    MapsOk top (before ++ { w with start } :: after) := by
  have hw := h.proper w (by simp)
  have hnew : ({ w with start } : Vma).Proper :=
    ⟨hs, hw.stop, hlt, hw.low.trans hle, hw.high⟩
  -- the other mappings are in the old list as well
  have hmem : ∀ w' ∈ before ++ { w with start } :: after,
      w' = { w with start } ∨ w' ∈ before ++ w :: after := by
    intro w' hw'
    simp only [List.mem_append, List.mem_cons] at hw' ⊢
    tauto
  refine ⟨h.aligned, h.high, fun w' hw' => ?_, fun w' hw' => ?_, ?_⟩
  · obtain rfl | hold := hmem w' hw'
    · exact hnew
    · exact h.proper w' hold
  · obtain rfl | hold := hmem w' hw'
    · exact (h.above w (by simp)).trans hle
    · exact h.above w' hold
  · obtain ⟨hbefore, hcons, hcross⟩ := List.pairwise_append.1 h.order
    obtain ⟨hhead, hafter⟩ := List.pairwise_cons.1 hcons
    refine List.pairwise_append.2 ⟨hbefore, List.pairwise_cons.2
      ⟨fun w' hw' => (hhead w' hw').trans hle, hafter⟩, fun w1 hw1 w2 hw2 => ?_⟩
    obtain rfl | hw2 := List.mem_cons.1 hw2
    · exact hcross w1 hw1 w (by simp)
    · exact hcross w1 hw1 w2 (List.mem_cons_of_mem _ hw2)

/-! ### One call -/

/-- The lengths that keep the order, and no process clone with mappings. -/
def Call.proper (k : Kernel) (p : ProcId) : Call → Prop
  | .mmap length _ _ _ _ => 0 < length.toInt
  | .munmap addr len => ∀ r ∈ findVma addr (k.proc p).vmas,
      PGSIZE ∣ len.toInt.toNat ∨ r.2.1.stop ≤ r.2.1.start + len.toInt.toNat
  | .clone c => c.thread = false → (k.proc p).vmas = []
  | _ => True

/-- The guard: careful calls with proper lengths. -/
def ProperLengths (k : Kernel) (a : Act) : Prop := Careful k a ∧ a.call.proper k a.p

instance : ∀ (k : Kernel) (p : ProcId) (c : Call), Decidable (c.proper k p)
  | _, _, .mmap _ _ _ _ _ => inferInstanceAs (Decidable (_ < _))
  | k, p, .munmap addr _ =>
    inferInstanceAs (Decidable (∀ r ∈ findVma addr (k.proc p).vmas, _))
  | _, _, .clone _ => inferInstanceAs (Decidable (_ → _))
  | _, _, .sbrk _ => .isTrue trivial
  | _, _, .brk _ => .isTrue trivial
  | _, _, .load _ => .isTrue trivial
  | _, _, .store _ _ => .isTrue trivial
  | _, _, .execve _ _ _ => .isTrue trivial
  | _, _, .exit => .isTrue trivial
  | _, _, .exitGroup => .isTrue trivial
  | _, _, .wait _ _ _ => .isTrue trivial

instance (k : Kernel) (a : Act) : Decidable (ProperLengths k a) :=
  inferInstanceAs (Decidable (_ ∧ _))

theorem doMmap_maps {length : ℤ} {prot flags : BitVec 32} {fp : Option ℕ} {page : Bool}
    (ha : Area (k.proc p)) (hpos : 0 < length) (hmax : length ≤ (k.proc p).maxVma)
    (h : MapsOk (k.proc p).maxVma (k.proc p).vmas)
    (hk' : (doMmap k p length prot flags fp page).2 = k') :
    MapsOk (k'.proc p).maxVma (k'.proc p).vmas := by
  have hfloor : vpn (k.proc p).maxVma * PGSIZE = (k.proc p).maxVma :=
    Nat.div_mul_cancel h.aligned
  have hcall : doMmap k p length prot flags fp page = (_, k') := Prod.ext rfl hk'
  obtain rfl | ⟨start, rfl, rfl | ⟨hlow, rfl⟩⟩ := doMmap_ok ha hpos.le hmax hcall
  · exact h
  all_goals
    have hlt : vpn ((k.proc p).maxVma - length.toNat) * PGSIZE < (k.proc p).maxVma :=
      (Nat.div_mul_le_self _ _).trans_lt (by omega)
    rw [Kernel.setProc_self]
  · exact h.lower (Nat.dvd_mul_left _ _) hlt.le
  · rw [hfloor]
    exact h.mmap (w := ⟨_, (k.proc p).maxVma, prot, flags, fp⟩)
      ⟨Nat.dvd_mul_left _ _, h.aligned, hlt, hlow, h.high⟩ rfl

theorem doMunmap_maps {addr : ℕ} {len : ℤ} {b : Bool} (ha : Area (k.proc p)) (h0 : 0 ≤ len)
    (hlen : len < 2 ^ 32) (hproper : ∀ r ∈ findVma addr (k.proc p).vmas,
      PGSIZE ∣ len.toNat ∨ r.2.1.stop ≤ r.2.1.start + len.toNat)
    (h : MapsOk (k.proc p).maxVma (k.proc p).vmas) (hk' : doMunmap k p addr len = .ok (b, k')) :
    MapsOk (k'.proc p).maxVma (k'.proc p).vmas := by
  obtain rfl | ⟨before, w, after, T, S, hfind, -, -, -, rfl⟩ := doMunmap_ok ha h0 hlen hk'
  · exact h
  rw [(findVma_some hfind).1] at h
  rw [Kernel.setProc_self]
  split
  · exact h.remove
  rename_i hpart
  have hdvd := (hproper _ hfind).resolve_right hpart
  exact h.shrink (Nat.dvd_add (h.proper w (by simp)).start hdvd) (Nat.le_add_right _ _)
    (not_le.1 hpart)

/-! ### Runs -/

/-- The mappings have no address in common. -/
def Vma.Disjoint (w w' : Vma) : Prop :=
  ∀ x, ¬ ((w.start ≤ x ∧ x < w.stop) ∧ w'.start ≤ x ∧ x < w'.stop)

/-- **The mappings of a process are in order**: each has bounds that are multiples of the page
size, is not empty, lies in the area for mappings, at or above the watermark and above user
memory, and no two have an address in common. -/
structure VmasOk (k : Kernel) (p : ProcId) : Prop where
  proper : ∀ w ∈ (k.proc p).vmas, w.Proper
  disjoint : (k.proc p).vmas.Pairwise Vma.Disjoint
  above : ∀ w ∈ (k.proc p).vmas, (k.proc p).maxVma ≤ w.start
  apart : ∀ w ∈ (k.proc p).vmas, (k.proc p).sz ≤ w.start

/-- **The mappings along runs with proper lengths.** -/
theorem vmas_of_reach (h : spaceMachine.Reach ProperLengths k) (hp : (k.proc p).state = .used) :
    VmasOk k p := by
  have hmaps : MapsOk (k.proc p).maxVma (k.proc p).vmas := by
    refine forall_of_reach (I := fun m _ => MapsOk m.1 m.2) (fun k a hok => hok.1)
      (fun _ _ => .nil) (fun k a k' q hk hs hok hI hchange hq => ?_) h p hp
    obtain ⟨T, -, -, -, harea⟩ := hk.running hs
    obtain ⟨hcareful, hproper⟩ := hok
    rw [Careful] at hcareful
    cases hchange with
    | retains hret =>
      rw [hret.maps]
      exact hI
    | gone hgone => exact absurd hq hgone
    | mmap hcall hk' _ =>
      rw [hcall] at hcareful hproper
      exact doMmap_maps harea hproper hcareful.2 hI hk'
    | @munmap addr len _ hcall hk' _ =>
      rw [hcall] at hcareful hproper
      cases hfind : findVma addr (k.proc a.p).vmas with
      | none =>
        rw [doMunmap, hfind] at hk'
        cases hk'
        exact hI
      | some r =>
        exact doMunmap_maps harea (hcareful r hfind).1 (int32_lt len) hproper hI hk'
    | thread _ _ hmaps _ =>
      rw [hmaps]
      exact hI
    | child hcall hthread hmaps _ =>
      rw [hcall] at hproper
      rw [hmaps, hproper hthread]
      exact .nil
  have hk : Inv k := inv_of_reach (h.mono fun _ _ hok => hok.1)
  obtain ⟨T, hT, hshape, -, -⟩ := hk.running hp
  have hsz := hk.core.pages_le hT hshape
  have hdisjoint : ∀ {w w' : Vma}, w'.stop ≤ w.start → w.Disjoint w' := fun hle x hx =>
    absurd (hle.trans hx.1.1) (not_le.2 hx.2.2)
  refine ⟨hmaps.proper, hmaps.order.imp hdisjoint, hmaps.above, fun w hw => ?_⟩
  have hlow := (hmaps.proper w hw).low
  rw [mmap_end_eq] at hlow
  simp only [pages, PGSIZE] at hsz hlow
  omega

/-- A run that maps three pages, takes one of them away, and maps two more. -/
def mapAndUnmap : List Act :=
  [initAct (.mmap 12288 3 0x22 none true), initAct (.munmap (67108854 * PGSIZE) 4096),
    initAct (.mmap 5000 3 0x22 none true)]

theorem vmas_two : ∃ k, spaceMachine.Reach ProperLengths k ∧
    (k.proc initproc).vmas.length = 2 ∧ VmasOk k initproc := by
  obtain ⟨k, hk, hs, hlen⟩ : ∃ k ∈ spaceMachine.exec smallStart mapAndUnmap,
      (k.proc initproc).state = .used ∧ (k.proc initproc).vmas.length = 2 := by
    decide +kernel
  have hreach : spaceMachine.Reach ProperLengths k :=
    (Machine.Reach.init smallStart_init).exec_along (by decide +kernel) hk
  exact ⟨k, hreach, hlen, vmas_of_reach hreach hs⟩

/-- **A length of zero makes an empty mapping.** -/
theorem vmas_empty : ∃ k, spaceMachine.Reach Machine.anyStep k ∧
    (k.proc initproc).state = .used ∧ ¬ VmasOk k initproc := by
  obtain ⟨k, hk, hs, w, hw, hempty⟩ : ∃ k ∈ spaceMachine.exec smallStart
      [initAct (.mmap 0 3 0x22 none true)],
      (k.proc initproc).state = .used ∧ ∃ w ∈ (k.proc initproc).vmas, ¬ w.start < w.stop := by
    decide +kernel
  exact ⟨k, Machine.reach_of_exec smallStart_init hk, hs, fun hok => hempty (hok.proper w hw).lt⟩

end XVapor.Vm
