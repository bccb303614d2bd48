import XVapor.VirtioChains

/-!
# Threads in the Virtio Driver

Where the threads are in `virtio_disk_rw`, and what they rely on. Buffers are handed to the
driver by `bread` and `bwrite`, whose caller holds the sleeplock of the buffer: `own b` is the
thread that does. So two reads never wait on the same `b->disk`, which is what tells a reader
that its own request was handled.
-/

namespace XVapor.Virtio

open Function

variable {T B : Type} {own : B → Option T} {s s' : VState T B} {t t' : T} {p : Pc B} {b : B}
  {w : Bool} {c : Chain} {d : Disk B} {id n : ℕ}

/-! ### Places in the code -/

/-- The thread is between `acquire` and `release`. -/
def Pc.inside : Pc B → Bool
  | .idle | .enter .. | .asleep .. => false
  | .alloc .. | .format .. | .ring .. | .publish .. | .submitted .. | .test .. => true

/-- The buffer of the call. -/
def Pc.buf : Pc B → Option B
  | .idle => none
  | .enter b _ | .alloc b _ | .format b _ _ | .ring b _ _ | .publish b _ _
  | .submitted b _ _ | .test b _ | .asleep b _ => some b

/-- The chain that is being built. -/
def Pc.building : Pc B → List Chain
  | .format _ _ c | .ring _ _ c | .publish _ _ c => [c]
  | .idle | .enter .. | .alloc .. | .submitted .. | .test .. | .asleep .. => []

/-- The request the thread waits for. -/
def Pc.waits : Pc B → Option (B × Chain)
  | .submitted b false c | .test b c | .asleep b c => some (b, c)
  | .submitted _ true _ | .idle | .enter .. | .alloc .. | .format .. | .ring ..
  | .publish .. => none

/-- The thread has set `b->disk`. -/
def Pc.marked : Pc B → Bool
  | .test .. | .asleep .. => true
  | .idle | .enter .. | .alloc .. | .format .. | .ring .. | .publish .. | .submitted .. => false

/-- What was done to the chain that is being built. -/
def Pc.Built (d : Disk B) : Pc B → Prop
  | .ring b w c => Linked d c b w
  | .publish b w c => Linked d c b w ∧ d.availRing (d.availIdx % NUM) = c.i0
  | .idle | .enter .. | .alloc .. | .format .. | .submitted .. | .test .. | .asleep .. => True

theorem Pc.built_of_outside (h : p.inside = false) : p.Built d := by
  cases p <;> trivial

theorem Pc.buf_of_waits (h : p.waits = some (b, c)) : p.buf = some b := by
  cases p with
  | submitted b' w c' => cases w <;> simp_all [Pc.waits, Pc.buf]
  | test b' c' | asleep b' c' => simp_all [Pc.waits, Pc.buf]
  | _ => simp [Pc.waits] at h

/-- The chain that the holder of the lock is building. -/
def VState.held (s : VState T B) : List Chain :=
  match s.lock with
  | some (.thread t) => (s.pc t).building
  | _ => []

/-! ### The threads -/

/-- **The threads**: the one inside holds the lock; each call has a buffer that its thread
owns; a read waits for its own request, which was handled once `b->disk` is clear. -/
structure Threads (own : B → Option T) (s : VState T B) : Prop where
  locked : ∀ t, (s.pc t).inside = true ↔ s.lock = some (.thread t)
  owns : ∀ t b, (s.pc t).buf = some b → own b = some t
  wait : ∀ t b c, (s.pc t).waits = some (b, c) → ∃ r ∈ s.reqs, r.chain = c ∧ r.b = b ∧
    r.write = false ∧ (r.handled = true ↔ (s.pc t).marked = true ∧ s.bdisk b = false)
  read : ∀ r ∈ s.reqs, r.write = false → ∃ t, (s.pc t).waits = some (r.b, r.chain)
  handled : ∀ r ∈ s.reqs, r.handled = true → r.write = false

namespace Threads

section

variable (h : Threads own s)
include h

theorem outside_of_lock (hlock : s.lock ≠ some (.thread t)) :
    (s.pc t).inside = false :=
  Bool.eq_false_iff.2 fun hin => hlock ((h.locked t).1 hin)

theorem outside (hin : (s.pc t).inside = true) (hne : t' ≠ t) :
    (s.pc t').inside = false := by
  refine h.outside_of_lock fun hlock => hne ?_
  have hthread := (h.locked t).1 hin
  rw [hlock] at hthread
  cases hthread
  rfl

theorem eq_of_waits {c' : Chain} (hw : (s.pc t).waits = some (b, c))
    (hw' : (s.pc t').waits = some (b, c')) : t = t' ∧ c = c' := by
  have ht := h.owns t b (Pc.buf_of_waits hw)
  rw [h.owns t' b (Pc.buf_of_waits hw')] at ht
  cases ht
  rw [hw] at hw'
  cases hw'
  exact ⟨rfl, rfl⟩

theorem congr (hlock : s'.lock = s.lock) (hpc : s'.pc = s.pc)
    (hbdisk : s'.bdisk = s.bdisk) (hreqs : s'.reqs = s.reqs) : Threads own s' where
  locked := by rw [hlock, hpc]; exact h.locked
  owns := by rw [hpc]; exact h.owns
  wait := by rw [hpc, hbdisk, hreqs]; exact h.wait
  read := by rw [hpc, hreqs]; exact h.read
  handled := by rw [hreqs]; exact h.handled

end

variable {r : Req B}

theorem remove (h : Threads own s) (hinj : ∀ r' ∈ s.reqs, r'.chain.i0 = r.chain.i0 → r' = r)
    (hnone : ∀ t, (s.pc t).waits ≠ some (r.b, r.chain)) (d : Disk B) :
    Threads own { s with disk := d, reqs := s.reqs.filter (·.chain.i0 ≠ r.chain.i0) } := by
  refine ⟨h.locked, h.owns, fun t b c hw => ?_, fun r' hr' hw => ?_, fun r' hr' => ?_⟩
  · obtain ⟨r', hr', hchain, hb, hrest⟩ := h.wait t b c hw
    refine ⟨r', List.mem_filter.2 ⟨hr', decide_eq_true fun heq => ?_⟩, hchain, hb, hrest⟩
    rw [← hb, ← hchain, hinj r' hr' heq] at hw
    exact hnone t hw
  · exact h.read r' (List.mem_filter.1 hr').1 hw
  · exact h.handled r' (List.mem_filter.1 hr').1

variable [DecidableEq T]

section

variable (h : Threads own s)
include h

theorem owns_goto (hown : ∀ b, p.buf = some b → own b = some t) (t' : T) (b : B)
    (hb : (update s.pc t p t').buf = some b) : own b = some t' := by
  obtain rfl | ht := eq_or_ne t' t
  · exact hown b (by simpa using hb)
  · exact h.owns t' b (by simpa [ht] using hb)

variable {lock : Option (Holder T)}
  (hlock : (lock = s.lock ∧ p.inside = (s.pc t).inside) ∨
    (s.lock = none ∧ lock = some (.thread t) ∧ p.inside = true) ∨
    (s.lock = some (.thread t) ∧ lock = none ∧ p.inside = false))
include hlock

theorem locked_goto (t' : T) :
    (update s.pc t p t').inside = true ↔ lock = some (.thread t') := by
  have hself := h.locked t'
  obtain rfl | ht := eq_or_ne t' t
  · rw [update_self]
    obtain ⟨rfl, hp⟩ | ⟨-, rfl, hp⟩ | ⟨-, rfl, hp⟩ := hlock
    · rw [hp, hself]
    · simp [hp]
    · simp [hp]
  · rw [update_of_ne ht]
    obtain ⟨rfl, -⟩ | ⟨hnone, rfl, -⟩ | ⟨hthread, rfl, -⟩ := hlock
    · exact hself
    · rw [hself, hnone]
      simp [Ne.symm ht]
    · rw [hself, hthread]
      simp [Ne.symm ht]

theorem goto (hown : ∀ b, p.buf = some b → own b = some t)
    (hwaits : p.waits = (s.pc t).waits) (hmarked : p.marked = (s.pc t).marked) :
    Threads own (s.goto t p lock) := by
  have hkeep : ∀ t', ((s.goto t p lock).pc t').waits = (s.pc t').waits ∧
      ((s.goto t p lock).pc t').marked = (s.pc t').marked := by
    intro t'
    obtain rfl | ht := eq_or_ne t' t
    · simp [VState.goto, hwaits, hmarked]
    · simp [VState.goto, ht]
  refine ⟨h.locked_goto hlock, h.owns_goto hown, fun t' b c hw => ?_, fun r hr hw => ?_, h.handled⟩
  · rw [(hkeep t').1] at hw
    rw [(hkeep t').2]
    exact h.wait t' b c hw
  · obtain ⟨t', hw⟩ := h.read r hr hw
    exact ⟨t', (hkeep t').1.trans hw⟩

end

theorem publish (h : Threads own s) (hpc : s.pc t = .publish b w c) (d : Disk B) (n : ℕ) :
    Threads own ({ s with disk := d, reqs := s.reqs ++ [(⟨c, b, w, n, false⟩ : Req B)] }.goto t
      (.submitted b w c) s.lock) := by
  refine ⟨h.locked_goto (.inl ⟨rfl, by rw [hpc]; rfl⟩),
    h.owns_goto fun b' hb => h.owns t b' (by rw [hpc]; exact hb), fun t' b' c' hw => ?_,
    fun r hr hw => ?_, fun r hr hhandled => ?_⟩
  · obtain rfl | ht := eq_or_ne t' t
    · cases w with
      | true => simp [VState.goto, Pc.waits] at hw
      | false =>
        have hbc : b = b' ∧ c = c' := by simpa [VState.goto, Pc.waits] using hw
        obtain ⟨rfl, rfl⟩ := hbc
        exact ⟨⟨c, b, false, n, false⟩, by simp [VState.goto], rfl, rfl, rfl,
          by simp [VState.goto, Pc.marked]⟩
    · have hw' : (s.pc t').waits = some (b', c') := by simpa [VState.goto, ht] using hw
      obtain ⟨r, hr, hrest⟩ := h.wait t' b' c' hw'
      exact ⟨r, List.mem_append_left _ hr, by simpa [VState.goto, ht] using hrest⟩
  · obtain hr | hr := List.mem_append.1 hr
    · obtain ⟨t', hw'⟩ := h.read r hr hw
      have ht : t' ≠ t := by
        rintro rfl
        simp [hpc, Pc.waits] at hw'
      exact ⟨t', by simpa [VState.goto, ht] using hw'⟩
    · rw [List.mem_singleton.1 hr] at hw ⊢
      simp only at hw
      subst hw
      exact ⟨t, by simp [VState.goto, Pc.waits]⟩
  · obtain hr | hr := List.mem_append.1 hr
    · exact h.handled r hr hhandled
    · rw [List.mem_singleton.1 hr] at hhandled
      simp at hhandled

theorem finish (h : Threads own s) (hinj : ∀ r' ∈ s.reqs, r'.chain.i0 = r.chain.i0 → r' = r)
    (hpc : s.pc t = .test r.b r.chain) (d : Disk B) :
    Threads own ({ s with
      disk := d, reqs := s.reqs.filter (·.chain.i0 ≠ r.chain.i0) }.goto t .idle none) := by
  have hin : (s.pc t).inside = true := by rw [hpc]; rfl
  have hwaits : (s.pc t).waits = some (r.b, r.chain) := by rw [hpc]; rfl
  refine ⟨h.locked_goto (.inr (.inr ⟨(h.locked t).1 hin, rfl, rfl⟩)), h.owns_goto nofun,
    fun t' b' c' hw => ?_, fun r' hr' hw => ?_, fun r' hr' => h.handled r' (List.mem_filter.1 hr').1⟩
  · obtain rfl | ht := eq_or_ne t' t
    · simp [VState.goto, Pc.waits] at hw
    have hw' : (s.pc t').waits = some (b', c') := by simpa [VState.goto, ht] using hw
    obtain ⟨r', hr', hchain, hb, hrest⟩ := h.wait t' b' c' hw'
    refine ⟨r', List.mem_filter.2 ⟨hr', decide_eq_true fun heq => ht ?_⟩, hchain, hb,
      by simpa [VState.goto, ht] using hrest⟩
    rw [← hb, ← hchain, hinj r' hr' heq] at hw'
    exact (h.eq_of_waits hw' hwaits).1
  · obtain ⟨hr', hne⟩ := List.mem_filter.1 hr'
    obtain ⟨t', hw'⟩ := h.read r' hr' hw
    have ht : t' ≠ t := by
      rintro rfl
      rw [hwaits, Option.some.injEq, Prod.mk.injEq] at hw'
      simp [hw'.2] at hne
    exact ⟨t', by simpa [VState.goto, ht] using hw'⟩

variable [DecidableEq B]

theorem mark (h : Threads own s) (hpc : s.pc t = .submitted b false c) :
    Threads own ({ s with bdisk := update s.bdisk b true }.goto t (.test b c)
      s.lock) := by
  have hwaits : (s.pc t).waits = some (b, c) := by rw [hpc]; rfl
  have hkeep : ∀ t', (update s.pc t (.test b c) t').waits = (s.pc t').waits := by
    intro t'
    obtain rfl | ht := eq_or_ne t' t
    · simpa [Pc.waits] using hwaits.symm
    · simp [ht]
  refine ⟨h.locked_goto (.inl ⟨rfl, by rw [hpc]; rfl⟩),
    h.owns_goto fun b' hb => h.owns t b' (by rw [hpc]; exact hb), fun t' b' c' hw => ?_,
    fun r hr hw => ?_, h.handled⟩
  · have hw' := (hkeep t').symm.trans hw
    obtain ⟨r, hr, hchain, hb, hwrite, hiff⟩ := h.wait t' b' c' hw'
    refine ⟨r, hr, hchain, hb, hwrite, ?_⟩
    by_cases ht : t' = t
    · -- the request is not handled before `b->disk` is set
      subst ht
      rw [hwaits] at hw'
      cases hw'
      have hnot : r.handled = false := by
        simpa [hpc, Pc.marked] using hiff
      simp [VState.goto, hnot]
    · have hne : b' ≠ b := by
        rintro rfl
        exact ht (h.eq_of_waits hw' hwaits).1
      simpa [VState.goto, ht, hne] using hiff
  · obtain ⟨t', hw'⟩ := h.read r hr hw
    exact ⟨t', (hkeep t').trans hw'⟩

omit [DecidableEq T] in
theorem handle (h : Threads own s) (hr : r ∈ s.reqs) (hread : r.write = false)
    (hinj : ∀ r' ∈ s.reqs, r'.chain.i0 = r.chain.i0 → r' = r)
    (hlock : s.lock = some .intr) (d : Disk B) :
    Threads own { s with
      disk := d
      bdisk := update s.bdisk r.b false
      reqs := s.reqs.map fun r' =>
        if r'.chain.i0 = r.chain.i0 then { r' with handled := true } else r' } := by
  obtain ⟨t, hwaits⟩ := h.read r hr hread
  have hout : (s.pc t).inside = false := h.outside_of_lock (by simp [hlock])
  have hmarked : (s.pc t).marked = true := by
    cases hpc : s.pc t <;> simp_all [Pc.waits, Pc.inside, Pc.marked]
  refine ⟨h.locked, h.owns, fun t' b' c' hw => ?_, fun r' hr' hw => ?_,
    fun r' hr' hhandled => ?_⟩
  · obtain ⟨r', hr', hchain, hb, hwrite, hiff⟩ := h.wait t' b' c' hw
    by_cases heq : r'.chain.i0 = r.chain.i0
    · have hrr := hinj r' hr' heq
      subst hrr
      rw [← hb, ← hchain] at hw
      obtain ⟨rfl, -⟩ := h.eq_of_waits hwaits hw
      refine ⟨{ r' with handled := true }, List.mem_map.2 ⟨r', hr', if_pos rfl⟩, hchain, hb,
        hwrite, ?_⟩
      simp [hmarked, hb]
    · refine ⟨r', List.mem_map.2 ⟨r', hr', if_neg heq⟩, hchain, hb, hwrite, ?_⟩
      have hne : b' ≠ r.b := by
        rintro rfl
        obtain ⟨-, hcc⟩ := h.eq_of_waits hwaits hw
        exact heq (by rw [hchain, hcc])
      simpa [hne] using hiff
  · obtain ⟨r0, hr0, rfl⟩ := List.mem_map.1 hr'
    by_cases heq : r0.chain.i0 = r.chain.i0
    · rw [if_pos heq] at hw ⊢
      exact h.read r0 hr0 hw
    · rw [if_neg heq] at hw ⊢
      exact h.read r0 hr0 hw
  · obtain ⟨r0, hr0, rfl⟩ := List.mem_map.1 hr'
    by_cases heq : r0.chain.i0 = r.chain.i0
    · rw [if_pos heq]
      rw [hinj r0 hr0 heq]
      exact hread
    · rw [if_neg heq] at hhandled ⊢
      exact h.handled r0 hr0 hhandled

end Threads

end XVapor.Virtio
