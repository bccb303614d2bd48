import XVapor.AddressSpace
import XVapor.PageTableSpec
import Mathlib.Data.Fintype.Card

/-!
# The Shape of an Address Space

What the page table of a process holds, as a function of its size, its threads and its
mappings: the trampoline and the code that returns from a signal handler, the trap frame of
each thread at its own page, a page for every address below the size, and pages inside the
mappings. Nothing else is mapped.

The operations of a call take entries away or add some. `Shape.extend` and `Shape.restrict`
say what is left to show in both cases.
-/

namespace XVapor.Vm

open Function

/-! ### The pages of the trap frames -/

variable {idx v newsz r n : ℕ}

theorem slot_eq (h : idx < 2 ^ 19) : slot idx = 67108861 - idx := by
  have hmod : Int.bmod (idx * PGSIZE : ℤ) (2 ^ 32) = idx * PGSIZE := by
    rw [Int.bmod_def]
    simp only [PGSIZE]
    norm_num
    omega
  rw [slot, threadTrapframe, hmod]
  simp only [vpn, u64, TRAPFRAME, SIGRETURN, TRAMPOLINE, MAXVA, PGSIZE]
  norm_num
  omega

/-- No two threads have the same slot. -/
theorem slot_inj {i j : ℕ} (hi : i < 2 ^ 19) (hj : j < 2 ^ 19) (h : slot i = slot j) : i = j := by
  rw [slot_eq hi, slot_eq hj] at h
  omega

theorem vpn_tramp : vpn TRAMPOLINE = 67108863 := by decide

theorem vpn_sig : vpn SIGRETURN = 67108862 := by decide

theorem mmap_max_eq : MMAP_MAX_ADDR_START = 67108857 * PGSIZE := by decide

theorem mmap_end_eq : MMAP_END_ADDRESS = 66846713 * PGSIZE := by decide

/-! ### The entries of a table -/

/-- The page meets the mapping. -/
def Vma.Holds (w : Vma) (v : ℕ) : Prop := vpn w.start ≤ v ∧ v * PGSIZE < w.stop

/-- The entries that an address space may have. -/
def Known (sz : ℕ) (ths : List Tcb) (vmas : List Vma) (v : ℕ) (e : Pte) : Prop :=
  v = vpn TRAMPOLINE ∨ v = vpn SIGRETURN ∨ (∃ t ∈ ths, v = slot t.tidx) ∨ v < pages sz ∨
    (∃ w ∈ vmas, w.Holds v) ∧ ∃ n, e.frame = .page n

/-- **The shape of an address space.** -/
structure Shape (T : Table) (sz : ℕ) (ths : List Tcb) (vmas : List Vma) : Prop where
  wf : T.Wf
  tramp : T.pte (vpn TRAMPOLINE) = some trampolinePte
  sig : T.pte (vpn SIGRETURN) = some sigreturnPte
  frame : ∀ t ∈ ths, ∃ n, t.trapframe = some n ∧
    T.pte (slot t.tidx) = some (trapframePte (.page n))
  low : ∀ v < pages sz, ∃ e n, T.pte v = some e ∧ e.frame = .page n
  only : ∀ v e, T.pte v = some e → Known sz ths vmas v e

variable {T T' : Table} {sz sz' : ℕ} {ths ths' : List Tcb} {vmas vmas' : List Vma}

variable {e : Pte}

theorem Known.mono (h : Known sz ths vmas v e) (hths : ∀ t ∈ ths, t ∈ ths')
    (hsz : pages sz ≤ pages sz') (hvmas : ∀ w ∈ vmas, w ∈ vmas') : Known sz' ths' vmas' v e := by
  obtain rfl | rfl | ⟨t, ht, hv⟩ | hv | ⟨⟨w, hw, hv⟩, he⟩ := h
  · exact .inl rfl
  · exact .inr (.inl rfl)
  · exact .inr (.inr (.inl ⟨t, hths t ht, hv⟩))
  · exact .inr (.inr (.inr (.inl (hv.trans_le hsz))))
  · exact .inr (.inr (.inr (.inr ⟨⟨w, hvmas w hw, hv⟩, he⟩)))

theorem Shape.tramp_kernel (h : Shape T sz ths vmas) (he : T.pte (vpn TRAMPOLINE) = some e) :
    e.frame = .kernel := by
  rw [← Option.some.inj (h.tramp.symm.trans he)]
  rfl

theorem Shape.sig_kernel (h : Shape T sz ths vmas) (he : T.pte (vpn SIGRETURN) = some e) :
    e.frame = .kernel := by
  rw [← Option.some.inj (h.sig.symm.trans he)]
  rfl

/-- A new table has the shape of an empty process. -/
theorem Shape.bare (hwf : T.Wf) (hpte : T.pte = bareEntries) : Shape T 0 [] [] := by
  have hne : vpn TRAMPOLINE ≠ vpn SIGRETURN := by decide
  refine ⟨hwf, ?_, ?_, by simp, by simp, fun v e hv => ?_⟩
  · rw [hpte, bareEntries, update_of_ne hne, update_self]
  · rw [hpte, bareEntries, update_self]
  · by_cases hsig : v = vpn SIGRETURN
    · exact .inr (.inl hsig)
    by_cases htramp : v = vpn TRAMPOLINE
    · exact .inl htramp
    rw [hpte, bareEntries, update_of_ne hsig, update_of_ne htramp] at hv
    cases hv

section

variable (h : Shape T sz ths vmas)
include h

/-- **A table with more entries.** The old ones are still there, and the new ones are known. -/
theorem Shape.extend (hwf : T'.Wf)
    (hsub : ∀ v e, T.pte v = some e → T'.pte v = some e)
    (hnew : ∀ v e, T'.pte v = some e → T.pte v = none → Known sz' ths' vmas' v e)
    (hframe : ∀ t ∈ ths', t ∈ ths ∨ ∃ n, t.trapframe = some n ∧
      T'.pte (slot t.tidx) = some (trapframePte (.page n)))
    (hlow : ∀ v < pages sz', v < pages sz ∨ ∃ e n, T'.pte v = some e ∧ e.frame = .page n)
    (hths : ∀ t ∈ ths, t ∈ ths') (hsz : pages sz ≤ pages sz') (hvmas : ∀ w ∈ vmas, w ∈ vmas') :
    Shape T' sz' ths' vmas' := by
  refine ⟨hwf, hsub _ _ h.tramp, hsub _ _ h.sig, fun t ht => ?_, fun v hv => ?_,
    fun v e hv => ?_⟩
  · rcases hframe t ht with ht | ht
    · obtain ⟨n, hn, hpte⟩ := h.frame t ht
      exact ⟨n, hn, hsub _ _ hpte⟩
    · exact ht
  · rcases hlow v hv with hv | hv
    · obtain ⟨e, n, he, hn⟩ := h.low v hv
      exact ⟨e, n, hsub _ _ he, hn⟩
    · exact hv
  · rcases hold : T.pte v with _ | e'
    · exact hnew v e hv hold
    obtain rfl : e' = e := Option.some.inj ((hsub v e' hold).symm.trans hv)
    exact (h.only v e' hold).mono hths hsz hvmas

/-- **A table with fewer entries.** The pages in `gone` are unmapped. -/
theorem Shape.restrict (hwf : T'.Wf) (gone : ℕ → Prop)
    (hkeep : ∀ v, ¬ gone v → T'.pte v = T.pte v) (hgone : ∀ v, gone v → T'.pte v = none)
    (htramp : ¬ gone (vpn TRAMPOLINE)) (hsig : ¬ gone (vpn SIGRETURN))
    (hths : ∀ t ∈ ths', t ∈ ths ∧ ¬ gone (slot t.tidx))
    (hlow : ∀ v < pages sz', v < pages sz ∧ ¬ gone v)
    (hknown : ∀ v e, ¬ gone v → Known sz ths vmas v e → Known sz' ths' vmas' v e) :
    Shape T' sz' ths' vmas' := by
  refine ⟨hwf, (hkeep _ htramp).trans h.tramp, (hkeep _ hsig).trans h.sig, fun t ht => ?_,
    fun v hv => ?_, fun v e hv => ?_⟩
  · obtain ⟨n, hn, hpte⟩ := h.frame t (hths t ht).1
    exact ⟨n, hn, (hkeep _ (hths t ht).2).trans hpte⟩
  · obtain ⟨e, n, he, hn⟩ := h.low v (hlow v hv).1
    exact ⟨e, n, (hkeep v (hlow v hv).2).trans he, hn⟩
  · by_cases hg : gone v
    · rw [hgone v hg] at hv
      cases hv
    · exact hknown v e hg (h.only v e ((hkeep v hg).symm.trans hv))

theorem Shape.mono_vmas (hvmas : ∀ w ∈ vmas, w ∈ vmas') :
    Shape T sz ths vmas' :=
  { h with only := fun v e hv => (h.only v e hv).mono (fun _ ht => ht) (Nat.le_refl _) hvmas }

theorem Shape.of_pages (hsz : pages sz' = pages sz) :
    Shape T sz' ths vmas :=
  ⟨h.wf, h.tramp, h.sig, h.frame, fun v hv => h.low v (hsz ▸ hv),
    fun v e hv => (h.only v e hv).mono (fun _ ht => ht) hsz.ge fun _ hw => hw⟩

end

/-! ### The operations -/

variable {S S' : Space}

theorem lt_pages {x : ℕ} : v < pages x ↔ v * PGSIZE < x := by
  simp only [pages, PGSIZE]
  omega

section

variable (h : Shape S.tbl sz ths vmas)
include h

theorem Shape.uvmalloc
    (hcall : Vm.uvmalloc S sz newsz = .ok (r, S')) :
    Space.Edit S S' 0 ∧ Shape S'.tbl (if r = 0 then sz else r) ths vmas := by
  obtain ⟨hedit, ⟨rfl, hpte⟩ | ⟨hr, hin, hout⟩⟩ := uvmalloc_ok hcall
  · rw [if_pos rfl]
    refine ⟨hedit, h.extend (hedit.wf h.wf) (fun v e hv => by rwa [hpte])
      (fun v e hv hnone => ?_) (fun t ht => .inl ht) (fun v hv => .inl hv) (fun _ ht => ht)
      (Nat.le_refl _) fun _ hw => hw⟩
    rw [hpte, hnone] at hv
    cases hv
  · have hif : (if r = 0 then sz else r) = r := by
      split
      next hzero => omega
      next => rfl
    rw [hif]
    refine ⟨hedit, h.extend (hedit.wf h.wf) (fun v e hv => ?_) (fun v e hv hnone => ?_)
      (fun t ht => .inl ht) (fun v hv => ?_) (fun _ ht => ht) (pages_mono (by omega))
      fun _ hw => hw⟩
    · rwa [hout v fun hv' => by simp [(hin v hv'.1 hv'.2).1] at hv]
    · by_cases hv' : pages sz ≤ v ∧ v < pages r
      · exact .inr (.inr (.inr (.inl hv'.2)))
      · rw [hout v hv', hnone] at hv
        cases hv
    · by_cases hv' : v < pages sz
      · exact .inl hv'
      · obtain ⟨-, n, hn, -⟩ := hin v (by omega) hv
        exact .inr ⟨userPte n, n, hn, rfl⟩

theorem Shape.uvmdealloc
    (hcall : Vm.uvmdealloc S sz newsz = .ok (r, S')) (hbound : pages sz ≤ 131072)
    (hths : ∀ t ∈ ths, t.tidx < 2 ^ 19) :
    Space.Edit S S' 0 ∧ Shape S'.tbl r ths vmas := by
  obtain ⟨hr, hpte, hedit⟩ := uvmdealloc_ok hcall
  have hpages : pages r ≤ pages sz := pages_mono (by omega)
  refine ⟨hedit, h.restrict (hedit.wf h.wf) (fun v => pages r ≤ v ∧ v < pages sz)
    (fun v hv => by rw [hpte, if_neg hv]) (fun v hv => by rw [hpte, if_pos hv])
    (by rw [vpn_tramp]; omega) (by rw [vpn_sig]; omega) (fun t ht => ⟨ht, ?_⟩)
    (fun v hv => by omega) fun v e hv hknown => ?_⟩
  · have hslot := slot_eq (hths t ht)
    have hidx := hths t ht
    omega
  · obtain hv' | hv' | hv' | hv' | hv' := hknown
    · exact .inl hv'
    · exact .inr (.inl hv')
    · exact .inr (.inr (.inl hv'))
    · exact .inr (.inr (.inr (.inl (by omega))))
    · exact .inr (.inr (.inr (.inr hv')))

theorem Shape.uvmclear
    (hcall : Vm.uvmclear S v = .ok S') (hv : v < pages sz) (hbound : pages sz ≤ 131072)
    (hths : ∀ t ∈ ths, t.tidx < 2 ^ 19) :
    Space.Edit S S' 0 ∧ Shape S'.tbl sz ths vmas := by
  obtain ⟨hedit, hpte⟩ := uvmclear_ok hcall
  refine ⟨hedit, hedit.wf h.wf, ?_, ?_, fun t ht => ?_, fun i hi => ?_, fun i e hi => ?_⟩
  · rw [hpte, if_neg (by rw [vpn_tramp]; omega), h.tramp]
  · rw [hpte, if_neg (by rw [vpn_sig]; omega), h.sig]
  · have hslot := slot_eq (hths t ht)
    have hidx := hths t ht
    rw [hpte, if_neg (by omega)]
    exact h.frame t ht
  · obtain ⟨e, n, he, hn⟩ := h.low i hi
    by_cases hiv : i = v
    · exact ⟨{ e with u := false }, n, by rw [hpte, if_pos hiv, ← hiv, he]; rfl, hn⟩
    · exact ⟨e, n, by rw [hpte, if_neg hiv, he], hn⟩
  · by_cases hiv : i = v
    · exact .inr (.inr (.inr (.inl (hiv ▸ hv))))
    · rw [hpte, if_neg hiv] at hi
      exact h.only i e hi

end

section

variable (h : Shape T sz ths vmas)
include h

theorem Shape.addThread (hwf : T'.Wf) (hnone : T.pte (slot idx) = none)
    (hpte : T'.pte = update T.pte (slot idx) (some (trapframePte (.page n)))) :
    Shape T' sz (ths ++ [⟨idx, some n⟩]) vmas := by
  refine h.extend hwf (fun v e hv => ?_) (fun v e hv hold => ?_) (fun t ht => ?_)
    (fun v hv => .inl hv) (fun t ht => List.mem_append_left _ ht) (Nat.le_refl _) fun _ hw => hw
  · rwa [hpte, update_of_ne fun hvs => by simp [hvs, hnone] at hv]
  · by_cases hvs : v = slot idx
    · exact .inr (.inr (.inl ⟨⟨idx, some n⟩, by simp, hvs⟩))
    · rw [hpte, update_of_ne hvs, hold] at hv
      cases hv
  · rcases List.mem_append.1 ht with ht | ht
    · exact .inl ht
    · obtain rfl := List.mem_singleton.1 ht
      exact .inr ⟨n, rfl, by rw [hpte, update_self]⟩

theorem Shape.addPage {w : Vma} (hwf : T'.Wf)
    (hw : w ∈ vmas) (hv : w.Holds v) (he : e.frame = .page n) (hnone : T.pte v = none)
    (hpte : T'.pte = update T.pte v (some e)) : Shape T' sz ths vmas := by
  refine h.extend hwf (fun i e' hi => ?_) (fun i e' hi hold => ?_) (fun t ht => .inl ht)
    (fun v hv => .inl hv) (fun t ht => ht) (Nat.le_refl _) fun _ hw => hw
  · rwa [hpte, update_of_ne fun hiv => by simp [hiv, hnone] at hi]
  · by_cases hiv : i = v
    · rw [hiv, hpte, update_self, Option.some.injEq] at hi
      subst hi hiv
      exact .inr (.inr (.inr (.inr ⟨⟨w, hw, hv⟩, n, he⟩)))
    · rw [hpte, update_of_ne hiv, hold] at hi
      cases hi

theorem Shape.dropThreads (hwf : T'.Wf) (hbound : pages sz ≤ 131072)
    (hidx : ∀ t ∈ ths, t.tidx < 2 ^ 19) (hsub : ∀ t ∈ ths', t ∈ ths)
    (gone : ℕ → Prop) (hslot : ∀ v, gone v → ∃ t ∈ ths, v = slot t.tidx)
    (hgone : ∀ v, gone v → T'.pte v = none) (hkeep : ∀ v, ¬ gone v → T'.pte v = T.pte v)
    (hleft : ∀ t ∈ ths, ¬ gone (slot t.tidx) ↔ t ∈ ths') : Shape T' sz ths' vmas := by
  have hhigh : ∀ v, gone v → 131072 < v ∧ v < 67108862 := by
    intro v hv
    obtain ⟨t, ht, rfl⟩ := hslot v hv
    have hlt := hidx t ht
    rw [slot_eq hlt]
    omega
  refine h.restrict hwf gone hkeep hgone (fun hv => ?_) (fun hv => ?_)
    (fun t ht => ⟨hsub t ht, (hleft t (hsub t ht)).2 ht⟩) (fun v hv => ⟨hv, fun hg => ?_⟩)
    fun v e hg hknown => ?_
  · have := hhigh _ hv
    rw [vpn_tramp] at this
    omega
  · have := hhigh _ hv
    rw [vpn_sig] at this
    omega
  · have := hhigh _ hg
    omega
  · obtain hv' | hv' | ⟨t, ht, hv'⟩ | hv' | hv' := hknown
    · exact .inl hv'
    · exact .inr (.inl hv')
    · exact .inr (.inr (.inl ⟨t, (hleft t ht).1 (hv' ▸ hg), hv'⟩))
    · exact .inr (.inr (.inr (.inl hv')))
    · exact .inr (.inr (.inr (.inr hv')))

end

/-! ### How much there is -/

variable {m : Mem}

theorem Mem.card_le_total (hroom : m.Room) (hlive : ∀ n, 0 ≤ m.live n)
    {s : Finset ℕ} (hs : ∀ n ∈ s, 1 ≤ m.live n) : s.card ≤ m.total := by
  -- a page that has been freed was allocated, and was freed once
  have hcount : ∀ n, m.freed.count n ≤ 1 ∧ (n ∈ m.freed → n < m.next) := by
    intro n
    have hn := hlive n
    rw [Mem.live] at hn
    refine ⟨by split at hn <;> omega, fun hmem => ?_⟩
    have hpos := List.count_pos_iff.2 hmem
    by_contra hlt
    rw [if_neg hlt] at hn
    omega
  have hnodup : m.freed.Nodup := List.nodup_iff_count_le_one.2 fun n => (hcount n).1
  have hdisj : Disjoint s m.freed.toFinset := by
    rw [Finset.disjoint_left]
    intro n hn hmem
    exact (Mem.one_le_live (hs n hn)).2 (List.mem_toFinset.1 hmem)
  have hsub : s ∪ m.freed.toFinset ⊆ Finset.range m.next := by
    intro n hn
    rw [Finset.mem_range]
    rcases Finset.mem_union.1 hn with hn | hn
    · exact (Mem.one_le_live (hs n hn)).1
    · exact (hcount n).2 (List.mem_toFinset.1 hn)
  have hcard := Finset.card_le_card hsub
  rw [Finset.card_union_of_disjoint hdisj, List.toFinset_card_of_nodup hnodup,
    Finset.card_range] at hcard
  rw [Mem.Room] at hroom
  omega

theorem Table.pte_inj (hrefs : ∀ n, T.refs n ≤ m.live n) {v' : ℕ} {e' : Pte}
    (h : T.pte v = some e) (h' : T.pte v' = some e') (he : e.frame = .page n)
    (he' : e'.frame = .page n) : v = v' := by
  by_contra hne
  have htwo := Table.two_le_refs hne h h' he he'
  have hone := m.live_le_one n
  have hle := hrefs n
  omega

/-- **User memory is no larger than the memory of the machine.** -/
theorem Shape.pages_le (h : Shape T sz ths vmas) (hroom : m.Room)
    (hrefs : ∀ n, T.refs n ≤ m.live n) : pages sz ≤ m.total := by
  have hpage : ∀ v : Fin (pages sz), ∃ n, ∃ e, T.pte v = some e ∧ e.frame = .page n := by
    intro v
    obtain ⟨e, n, he, hn⟩ := h.low v v.2
    exact ⟨n, e, he, hn⟩
  choose page hpage using hpage
  have hinj : Injective page := by
    intro v v' hvv
    obtain ⟨e, he, hn⟩ := hpage v
    obtain ⟨e', he', hn'⟩ := hpage v'
    exact Fin.ext (Table.pte_inj hrefs he he' hn (hvv ▸ hn'))
  have hcard : (Finset.univ.image page).card ≤ m.total := by
    refine Mem.card_le_total hroom (fun n => (T.refs_nonneg n).trans (hrefs n)) fun n hn => ?_
    obtain ⟨v, -, rfl⟩ := Finset.mem_image.1 hn
    obtain ⟨e, he, hn⟩ := hpage v
    exact (Table.one_le_refs he hn).trans (hrefs _)
  rwa [Finset.card_image_of_injective _ hinj, Finset.card_fin] at hcard

end XVapor.Vm
