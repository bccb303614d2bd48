import XVapor.FutexTable
import XVapor.Machine

/-!
# The Futex Table Against a Finite Map

What the futex table is for: a finite map from address space and user address to the
futex, and so to the wait queue, that the latest unfreed creation for this pair returned.
The map is kept beside the concrete table and follows what the calls return, so each call
can be compared with the map it meets.

## Main results

* `refinesAlong_iff`: a sequence of calls from boot follows the map if and only if no call is for
  an address that has a node, and every creation finds its pages.
-/

namespace XVapor.FutexTable

variable {AS T : Type}

/-! ### Calls and what they have to do -/

/-- A call of the table, with the address space of the calling process. -/
inductive Op (AS : Type)
  | get (as : AS) (uaddr : UAddr) (assert : Bool)
  | free (as : AS) (uaddr : UAddr)

/-- The numeric address of a call: all that `futex.c` looks at. -/
def Op.uaddr : Op AS → UAddr
  | .get _ u _ => u
  | .free _ u => u

/-- The concrete table and the abstract map. -/
structure TableState (AS T : Type) where
  kern : Kern T
  map : AS → UAddr → Option ℕ

/-- Every node points to a futex that has not been freed, and no two nodes have the same
key. -/
def TableOk (k : Kern T) : Prop :=
  (∀ i, ∀ pos ∈ k.bucket i, ∃ n f, k.page pos = .node n ∧ k.page n.fp = .futex f) ∧
  (∀ i, (k.bucket i).Nodup) ∧
  ∀ i j, ∀ pos ∈ k.bucket i, ∀ pos' ∈ k.bucket j, ∀ n n',
    k.page pos = .node n → k.page pos' = .node n' → n.uaddr = n'.uaddr → pos = pos'

/-- What `get_futex` has to return on the map `m`: the futex bound to the pair, else
`NULL` or a fresh futex with an empty queue, and never a futex bound to the same address
by another address space. -/
def GetOk (m : AS → UAddr → Option ℕ) (as : AS) (u : UAddr) (assert : Bool)
    (r : Option ℕ) (k' : Kern T) : Prop :=
  (match m as u with
    | some fp => r = some fp
    | none =>
      if assert then r = none
      else ∃ fp name, r = some fp ∧ k'.page fp = .futex ⟨name, []⟩ ∧
        ∀ as' u', m as' u' ≠ some fp) ∧
  ∀ as', as' ≠ as → ∀ fp, r = some fp → m as' u ≠ some fp

/-- The call returns, returns what the map requires, and leaves a sound table. -/
def CallOk (s : TableState AS T) : Op AS → Prop
  | .get as u assert => ∃ r k', getFutex s.kern u assert = .ok (r, k') ∧
      GetOk s.map as u assert r k' ∧ TableOk k'
  | .free _ u => ∃ k', futexFree s.kern u = .ok k' ∧ TableOk k'

/-- The call meets no node for its address, and if it is a creation, the free list holds
the two pages it takes. -/
def Fresh (s : TableState AS T) (op : Op AS) : Prop :=
  ¬ HasNode s.kern op.uaddr ∧
  ∀ as u, op = .get as u false → 2 ≤ s.kern.freelist.length

/-- The coupling of the table and the map: the table is well-formed and every bound pair
has its node. -/
structure Coupled (s : TableState AS T) : Prop where
  wf : Wf s.kern
  bound : ∀ as u fp, s.map as u = some fp →
    ∃ pos ∈ s.kern.bucket (hashGetEntry u), s.kern.page pos = .node ⟨u, fp⟩

theorem coupled_boot (n : ℕ) :
    Coupled (⟨boot n, fun _ _ => none⟩ : TableState AS T) where
  wf := wf_boot n
  bound := by simp

theorem Wf.tableOk {k : Kern T} (hw : Wf k) : TableOk k := by
  refine ⟨?_, hw.nodup, ?_⟩
  · intro i pos hpos
    obtain ⟨n, q, hn, -, hf⟩ := hw.node_live i pos hpos
    exact ⟨n, _, hn, hf⟩
  · intro i j pos hpos pos' hpos' n n' hn hn' hnn
    obtain ⟨m, -, hm, hi, -⟩ := hw.node_live i pos hpos
    obtain ⟨m', -, hm', hj, -⟩ := hw.node_live j pos' hpos'
    rw [hn, Page.node.injEq] at hm
    rw [hn', Page.node.injEq] at hm'
    subst hm hm'
    -- equal keys have equal hashes, so the two nodes share a bucket
    obtain rfl : i = j := by rw [← hi, ← hj, hnn]
    exact hw.key_inj i pos hpos pos' hpos' n n' hn hn' hnn

section

variable {s : TableState AS T} {as : AS} {u : UAddr}

section

variable (hc : Coupled s)
include hc

theorem Coupled.map_eq_none (h : ¬ HasNode s.kern u) (as : AS) :
    s.map as u = none := by
  rw [Option.eq_none_iff_forall_ne_some]
  intro fp hfp
  obtain ⟨pos, hpos, hn⟩ := hc.bound as u fp hfp
  exact h ⟨pos, hpos, fp, hn⟩

theorem Coupled.map_ne_of_free {fp : ℕ} (hfp : s.kern.page fp = .free)
    (as : AS) (u : UAddr) : s.map as u ≠ some fp := by
  intro hm
  obtain ⟨pos, hpos, hn⟩ := hc.bound as u fp hm
  obtain ⟨n, q, hn', -, hf⟩ := hc.wf.node_live _ pos hpos
  rw [hn, Page.node.injEq] at hn'
  subst hn'
  rw [hfp] at hf
  cases hf

/-- A call that meets a node for its address goes wrong: `get_futex` leaves the node
dangling, and `futex_free` panics. -/
theorem Coupled.not_callOk (op : Op AS) (h : HasNode s.kern op.uaddr) :
    ¬ CallOk s op := by
  cases op with
  | get as u assert =>
    simp only [Op.uaddr] at h
    rintro ⟨r, k', hget, -, hlive, -⟩
    obtain ⟨pos, hpos, fp, k'', hn, hget', hb, hfree, hpage, -⟩ :=
      hc.wf.getFutex_present h assert
    rw [hget', Except.ok.injEq, Prod.mk.injEq] at hget
    obtain ⟨-, rfl⟩ := hget
    obtain ⟨n, f, hn', hf⟩ := hlive _ pos (hb ▸ hpos)
    rw [hpage, hn, Page.node.injEq] at hn'
    subst hn'
    rw [hfree] at hf
    cases hf
  | free as u =>
    simp only [Op.uaddr] at h
    rintro ⟨k', hfree, -⟩
    rw [hc.wf.futexFree_present h] at hfree
    cases hfree

theorem Coupled.not_callOk_noMem (h : ¬ HasNode s.kern u)
    (hlen : s.kern.freelist.length < 2) : ¬ CallOk s (.get as u false) := by
  rintro ⟨r, k', hget, hok, -⟩
  obtain ⟨k'', hget'⟩ := hc.wf.getFutex_noMem h hlen
  rw [hget', Except.ok.injEq, Prod.mk.injEq] at hget
  simp [GetOk, hc.map_eq_none h as, ← hget.1] at hok

theorem Coupled.callOk {op : Op AS} (h : Fresh s op) : CallOk s op := by
  obtain ⟨hno, hlen⟩ := h
  cases op with
  | free as u => exact ⟨_, hc.wf.futexFree_absent hno, hc.wf.tableOk⟩
  | get as u assert =>
    have hm : ∀ as, s.map as u = none := hc.map_eq_none hno
    cases assert with
    | true =>
      refine ⟨_, _, hc.wf.getFutex_absent_assert hno, ?_, hc.wf.tableOk⟩
      simp [GetOk, hm]
    | false =>
      obtain ⟨fp, fhn, rest, hfl⟩ := exists_pages (hlen as u rfl)
      refine ⟨_, _, hc.wf.getFutex_create hno hfl, ?_, (hc.wf.create hno hfl).tableOk⟩
      have hne := hc.map_ne_of_free (hc.wf.free fp (by simp [hfl]))
      have hnew := hc.wf.page_withFutex_futex u hfl
      simp only [GetOk, hm, Bool.false_eq_true, if_false]
      exact ⟨⟨fp, _, rfl, hnew, hne⟩, by simp⟩

/-- **One call**: under the coupling, it behaves as on the map exactly if it is fresh. -/
theorem Coupled.callOk_iff_fresh (op : Op AS) :
    CallOk s op ↔ Fresh s op := by
  refine ⟨fun h => ⟨fun hno => hc.not_callOk op hno h, ?_⟩, hc.callOk⟩
  rintro as u rfl
  by_contra hlen
  have hno : ¬ HasNode s.kern u := fun hno => hc.not_callOk (.get as u false) hno h
  exact hc.not_callOk_noMem hno (by omega) h

end

end

/-! ### Sequences of calls -/

variable [DecidableEq AS]

/-- Bind or unbind one pair of the map. -/
def setMap (m : AS → UAddr → Option ℕ) (as : AS) (u : UAddr) (v : Option ℕ) :
    AS → UAddr → Option ℕ :=
  fun as' u' => if as' = as ∧ u' = u then v else m as' u'

/-- The map after a `get_futex` that returned `r`: a creation binds its pair. -/
def mapGet (m : AS → UAddr → Option ℕ) (as : AS) (u : UAddr) (r : Option ℕ) :
    AS → UAddr → Option ℕ :=
  if m as u = none then setMap m as u r else m

/-- One call on both. -/
def tableStep (s : TableState AS T) : Op AS → Option (TableState AS T)
  | .get as u assert =>
    match getFutex s.kern u assert with
    | .ok (r, k) => some ⟨k, mapGet s.map as u r⟩
    | .error _ => none
  | .free as u =>
    match futexFree s.kern u with
    | .ok k => some ⟨k, setMap s.map as u none⟩
    | .error _ => none

/-- The sequences of calls, from the table of `futex_hash_init` on. -/
def tableMachine (AS T : Type) [DecidableEq AS] : Machine (TableState AS T) (Op AS) where
  init s := ∃ n, s = ⟨boot n, fun _ _ => none⟩
  step := tableStep

variable {s : TableState AS T}

theorem Coupled.tableStep_create (hc : Coupled s) (as : AS)
    {u : UAddr} (h : ¬ HasNode s.kern u) {fp fhn : ℕ} {rest : List ℕ}
    (hfl : s.kern.freelist = fp :: fhn :: rest) :
    tableStep s (.get as u false) =
      some ⟨withFutex s.kern u fp fhn rest, mapGet s.map as u (some fp)⟩ := by
  simp only [tableStep, hc.wf.getFutex_create h hfl]

theorem Coupled.unbind (hc : Coupled s) (as : AS) (u : UAddr) :
    Coupled ⟨s.kern, setMap s.map as u none⟩ where
  wf := hc.wf
  bound as' u' fp hm := by
    by_cases h' : as' = as ∧ u' = u
    · simp [setMap, h'] at hm
    · exact hc.bound as' u' fp (by simpa [setMap, h'] using hm)

theorem Coupled.step {s' : TableState AS T} (hc : Coupled s) {op : Op AS} (h : Fresh s op)
    (hs : tableStep s op = some s') : Coupled s' := by
  obtain ⟨hno, hlen⟩ := h
  cases op with
  | free as u =>
    simp only [Op.uaddr] at hno
    simp only [tableStep, hc.wf.futexFree_absent hno, Option.some.injEq] at hs
    subst hs
    exact hc.unbind as u
  | get as u assert =>
    simp only [Op.uaddr] at hno
    have hm : s.map as u = none := hc.map_eq_none hno as
    cases assert with
    | true =>
      simp only [tableStep, hc.wf.getFutex_absent_assert hno, Option.some.injEq] at hs
      subst hs
      simpa [mapGet, hm] using hc.unbind as u
    | false =>
      obtain ⟨fp, fhn, rest, hfl⟩ := exists_pages (hlen as u rfl)
      rw [hc.tableStep_create as hno hfl, Option.some.injEq] at hs
      subst hs
      refine ⟨hc.wf.create hno hfl, fun as' u' fp' hm' => ?_⟩
      by_cases h' : as' = as ∧ u' = u
      · obtain ⟨rfl, rfl⟩ := h'
        simp only [mapGet, hm, setMap, and_self, if_true, Option.some.injEq] at hm'
        subst hm'
        exact ⟨fhn, mem_bucket_withFutex.mpr (.inr ⟨rfl, rfl⟩), page_withFutex_node⟩
      · simp only [mapGet, hm, setMap, h', if_true, if_false] at hm'
        obtain ⟨pos, hpos, hn⟩ := hc.bound as' u' fp' hm'
        exact ⟨pos, mem_bucket_withFutex.mpr (.inl hpos),
          by rw [hc.wf.page_withFutex_of_mem hfl hpos, hn]⟩

/-- **The futex table refines the finite map exactly along the sequences of fresh calls**:
those in which no call is for an address that already has a node, from whatever process,
and every creation finds its two pages. -/
theorem refinesAlong_iff (n : ℕ) (ops : List (Op AS)) :
    (tableMachine AS T).Along CallOk ⟨boot n, fun _ _ => none⟩ ops ↔
      (tableMachine AS T).Along Fresh ⟨boot n, fun _ _ => none⟩ ops :=
  Machine.along_iff_along (I := Coupled) (fun _ op hc => hc.callOk_iff_fresh op)
    (fun _ _ _ hc hf hs => hc.step hf hs) (coupled_boot n)

/-- A thread creates the futex of an address, and a thread of the same process looks it
up: the lookup returns `NULL` and leaves the node without a live futex. -/
theorem not_refinesAlong_lookup :
    ¬ (tableMachine Unit Unit).Along CallOk ⟨boot 2, fun _ _ => none⟩
      [.get () 4096 false, .get () 4096 true] := by
  rintro ⟨-, h⟩
  have hno : ¬ HasNode (boot 2 : Kern Unit) 4096 := by simp [HasNode, boot]
  have hboot : Coupled (⟨boot 2, fun _ _ => none⟩ : TableState Unit Unit) := coupled_boot 2
  have hs := hboot.tableStep_create () hno rfl
  have hfresh : Fresh (⟨boot 2, fun _ _ => none⟩ : TableState Unit Unit)
      (.get () 4096 false) := ⟨hno, fun _ _ _ => Nat.le_refl 2⟩
  have hc := hboot.step hfresh hs
  exact hc.not_callOk (.get () 4096 true) ⟨1, mem_bucket_withFutex.mpr (.inr ⟨rfl, rfl⟩), 0,
    page_withFutex_node⟩ (h _ hs).1

end XVapor.FutexTable
