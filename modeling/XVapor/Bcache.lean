import XVapor.CircularList
import XVapor.Tally

/-!
# The Block Cache

The cache of `fs/bio.c`: `NBUF` buffers on a circular list in the order of their last use,
with `bget`, which finds or recycles a buffer, and `brelse`. The list, the block of a buffer
and `refcnt` are only touched with `bcache.lock` held, so what is done between its `acquire`
and `release` is one step; the data and the `valid` flag belong to who holds the sleeplock of
the buffer.

`sel t` is the variable `b` of thread `t`, from the time `bget` has counted its reference
until `brelse` has dropped it.
-/

namespace XVapor.Bio

open Function

def NBUF : ℕ := 30

def ROOTDEV : ℕ := 1

/-- A buffer of `bcache.buf`. -/
abbrev BufId := Fin NBUF

/-- A node of the list: a buffer, or `none` for `bcache.head`. -/
abbrev Node := Option BufId

/-- `bcache`, and the buffer each thread has selected. The sleeplock of a buffer is held by a
thread. -/
structure Cache (T : Type) where
  dev : BufId → ℕ
  blockno : BufId → ℕ
  valid : BufId → Bool
  refcnt : BufId → ℕ
  next : Node → Node
  prev : Node → Node
  lock : BufId → Option T
  sel : T → Option BufId

/-- The panics of the cache. -/
inductive BPanic
  | noBuffers
  | bwrite
  | brelse
  deriving DecidableEq, Repr

variable {T : Type}

/-! ### Operations -/

/-- Insert a buffer behind `bcache.head`. -/
def Cache.insert (c : Cache T) (b : BufId) : Cache T :=
  let next := update c.next (some b) (c.next none)
  let prev := update c.prev (some b) none
  let prev := update prev (c.next none) (some b)
  let next := update next none (some b)
  { c with next, prev }

/-- Take a buffer out of the list. -/
def Cache.unlink (c : Cache T) (b : BufId) : Cache T :=
  { c with
    prev := update c.prev (c.next (some b)) (c.prev (some b))
    next := update c.next (c.prev (some b)) (c.next (some b)) }

/-- `binit`. The buffers are zero before. -/
def binit : Cache T :=
  (List.finRange NBUF).foldl Cache.insert
    ⟨fun _ => 0, fun _ => 0, fun _ => false, fun _ => 0, fun _ => none, fun _ => none,
      fun _ => none, fun _ => none⟩

/-- Does the node hold the block? -/
def Cache.isBlock (c : Cache T) (dev blockno : ℕ) : Node → Bool
  | some b => c.dev b = dev ∧ c.blockno b = blockno
  | none => false

/-- Is the node unused? -/
def Cache.isUnused (c : Cache T) : Node → Bool
  | some b => c.refcnt b = 0
  | none => false

variable [DecidableEq T]

/-- The block is cached: its buffer is selected. -/
def Cache.hit (c : Cache T) (t : T) (b : BufId) : Cache T :=
  { c with
    refcnt := update c.refcnt b (c.refcnt b + 1)
    sel := update c.sel t (some b) }

/-- The buffer is recycled for the block, and selected. -/
def Cache.recycle (c : Cache T) (t : T) (b : BufId) (dev blockno : ℕ) : Cache T :=
  { c with
    dev := update c.dev b dev
    blockno := update c.blockno b blockno
    valid := update c.valid b false
    refcnt := update c.refcnt b 1
    sel := update c.sel t (some b) }

/-- `bget`, up to the `release` of `bcache.lock`. -/
def bget (c : Cache T) (t : T) (dev blockno : ℕ) : Except BPanic (Cache T) :=
  match walk c.next none (c.isBlock dev blockno) (NBUF + 1) (c.next none) with
  | some (some b) => .ok (c.hit t b)
  | _ =>
    match walk c.prev none c.isUnused (NBUF + 1) (c.prev none) with
    | some (some b) => .ok (c.recycle t b dev blockno)
    | _ => .error .noBuffers

omit [DecidableEq T] in
/-- `acquiresleep`; `none` while the lock is held. -/
def Cache.acquiresleep (c : Cache T) (t : T) (b : BufId) : Option (Cache T) :=
  if c.lock b = none then some { c with lock := update c.lock b (some t) } else none

omit [DecidableEq T] in
/-- `holdingsleep`: the lock is held by a thread of the process. -/
def Cache.holdingsleep (c : Cache T) (pid : T → ℕ) (t : T) (b : BufId) : Bool :=
  match c.lock b with
  | some t' => pid t' = pid t
  | none => false

omit [DecidableEq T] in
def Cache.releasesleep (c : Cache T) (b : BufId) : Cache T :=
  { c with lock := update c.lock b none }

/-- The part of `brelse` with `bcache.lock` held. -/
def Cache.drop (c : Cache T) (t : T) (b : BufId) : Cache T :=
  let c := { c with
    refcnt := update c.refcnt b (c.refcnt b - 1)
    sel := update c.sel t none }
  if c.refcnt b = 0 then (c.unlink b).insert b else c

variable {c : Cache T} {t : T} {b b' : BufId} {dev n : ℕ} {l : List BufId}

/-- What the last part of `brelse` leaves alone. -/
theorem Cache.drop_fields : (c.drop t b).sel = update c.sel t none ∧ (c.drop t b).lock = c.lock ∧
    (c.drop t b).dev = c.dev ∧ (c.drop t b).blockno = c.blockno ∧ (c.drop t b).valid = c.valid := by
  simp only [Cache.drop]
  split <;> exact ⟨rfl, rfl, rfl, rfl, rfl⟩

/-! ### The list -/

omit [DecidableEq T]

/-- The list from `bcache.head`: every buffer once. -/
def Listed (c : Cache T) (l : List BufId) : Prop :=
  Circular c.next c.prev none (l.map some)

theorem Listed.nodup (h : Listed c l) : l.Nodup :=
  List.Nodup.of_map _ (List.nodup_cons.1 (Circular.nodup h)).2

theorem Listed.insert (h : Listed c l) (hb : b ∉ l) : Listed (c.insert b) (b :: l) := by
  have hmem : some b ∉ none :: l.map some := by simpa using hb
  exact Circular.insert h hmem

theorem Listed.unlink {l1 l2 : List BufId} (h : Listed c (l1 ++ b :: l2)) :
    Listed (c.unlink b) (l1 ++ l2) := by
  rw [Listed, List.map_append, List.map_cons] at h
  rw [Listed, List.map_append]
  exact Circular.unlink h

/-- A buffer is moved behind `bcache.head`. -/
theorem Listed.front {l1 l2 : List BufId} (h : Listed c (l1 ++ b :: l2)) :
    b ∉ l1 ++ l2 ∧ Listed ((c.unlink b).insert b) (b :: (l1 ++ l2)) := by
  have hb : b ∉ l1 ++ l2 := (List.nodup_cons.1 (List.perm_middle.nodup_iff.1 h.nodup)).1
  exact ⟨hb, h.unlink.insert hb⟩

theorem Listed.foldl_insert {bs : List BufId} (h : Listed c l) (hnodup : (bs ++ l).Nodup) :
    Listed (bs.foldl Cache.insert c) (bs.reverse ++ l) := by
  induction bs generalizing c l with
  | nil => exact h
  | cons b bs ih =>
    obtain ⟨hb, hnodup⟩ := List.nodup_cons.1 hnodup
    have hnext := h.insert (b := b) fun hl => hb (List.mem_append_right _ hl)
    have hperm : (bs ++ b :: l).Nodup :=
      (List.perm_middle.symm.nodup_iff).1 (List.nodup_cons.2 ⟨hb, hnodup⟩)
    rw [List.foldl_cons, List.reverse_cons, List.append_assoc]
    exact ih hnext hperm

theorem listed_binit : Listed (binit : Cache T) (List.finRange NBUF).reverse := by
  have h : Listed (binit : Cache T) ((List.finRange NBUF).reverse ++ []) := by
    refine Listed.foldl_insert ⟨by simp, rfl, rfl⟩ ?_
    simpa using List.nodup_finRange NBUF
  rwa [List.append_nil] at h

theorem find?_map_some (p : Node → Bool) (l : List BufId) :
    (l.map some).find? p = (l.find? (p ∘ some)).map some := by
  rw [List.find?_map]

theorem Listed.length_lt (h : Listed c l) : (l.map some).length < NBUF + 1 := by
  have hle := List.Nodup.length_le_card h.nodup
  rw [Fintype.card_fin] at hle
  rw [List.length_map]
  omega

/-- **What `bget` does**, in terms of the list. -/
theorem Listed.bget_eq [DecidableEq T] (h : Listed c l) (t : T) (dev n : ℕ) :
    bget c t dev n = match l.find? (c.isBlock dev n ∘ some) with
      | some b => .ok (c.hit t b)
      | none => match l.reverse.find? (c.isUnused ∘ some) with
        | some b => .ok (c.recycle t b dev n)
        | none => .error .noBuffers := by
  have hnext := Circular.walk_next h (c.isBlock dev n) h.length_lt
  have hprev := Circular.walk_prev h c.isUnused h.length_lt
  rw [find?_map_some] at hnext
  rw [← List.map_reverse, find?_map_some] at hprev
  rw [bget, hnext, hprev]
  cases l.find? (c.isBlock dev n ∘ some) with
  | some b => rfl
  | none => cases l.reverse.find? (c.isUnused ∘ some) <;> rfl

/-! ### The invariant -/

variable [Fintype T]

/-- **The invariant of the cache.** -/
structure CInv (c : Cache T) : Prop where
  list : ∃ l, Listed c l ∧ ∀ b, b ∈ l
  unique : ∀ b b', c.dev b = ROOTDEV → c.dev b' = ROOTDEV → c.blockno b = c.blockno b' → b = b'
  refcnt : ∀ b, c.refcnt b = tally (· = some b) c.sel
  lock : ∀ b t, c.lock b = some t → c.sel t = some b

omit [Fintype T] in
/-- At boot no buffer has a block, and nobody uses one. -/
theorem binit_fields : (binit : Cache T).dev = (fun _ => 0) ∧
    (binit : Cache T).valid = (fun _ => false) ∧ (binit : Cache T).refcnt = (fun _ => 0) ∧
    (binit : Cache T).lock = (fun _ => none) ∧ (binit : Cache T).sel = fun _ => none := by
  have hkeep : ∀ (bs : List BufId) (c : Cache T),
      (bs.foldl Cache.insert c).dev = c.dev ∧ (bs.foldl Cache.insert c).valid = c.valid ∧
        (bs.foldl Cache.insert c).refcnt = c.refcnt ∧
        (bs.foldl Cache.insert c).lock = c.lock ∧ (bs.foldl Cache.insert c).sel = c.sel := by
    intro bs
    induction bs with
    | nil => exact fun c => ⟨rfl, rfl, rfl, rfl, rfl⟩
    | cons b bs ih => exact fun c => ih (c.insert b)
  exact hkeep _ _

theorem cInv_binit : CInv (binit : Cache T) := by
  obtain ⟨hdev, -, hrefcnt, hlock, hsel⟩ := binit_fields (T := T)
  refine ⟨⟨_, listed_binit, by simp⟩, ?_, ?_, ?_⟩
  · intro b b' hb
    rw [hdev] at hb
    have hzero : (0 : ℕ) ≠ ROOTDEV := by decide
    exact absurd hb hzero
  · intro b
    rw [hrefcnt, hsel]
    exact (tally_eq_zero.2 fun _ => by simp).symm
  · intro b t hb
    rw [hlock] at hb
    cases hb

namespace CInv

theorem refcnt_pos (h : CInv c) (ht : c.sel t = some b) : 1 ≤ c.refcnt b := by
  rw [h.refcnt b]
  exact one_le_tally ht

variable [DecidableEq T]

/-- **What `bget` does**: the buffer of the block is selected; or no buffer has the block, and
one without references is recycled; or all buffers have references. -/
theorem bget_cases (h : CInv c) (t : T) (dev n : ℕ) :
    (∃ b, c.dev b = dev ∧ c.blockno b = n ∧ bget c t dev n = .ok (c.hit t b)) ∨
      (∃ b, (∀ b', ¬ (c.dev b' = dev ∧ c.blockno b' = n)) ∧ c.refcnt b = 0 ∧
        bget c t dev n = .ok (c.recycle t b dev n)) ∨
      ((∀ b, c.refcnt b ≠ 0) ∧ bget c t dev n = .error .noBuffers) := by
  obtain ⟨l, hl, hall⟩ := h.list
  rw [hl.bget_eq]
  cases hfind : l.find? (c.isBlock dev n ∘ some) with
  | some b =>
    have hb := List.find?_some hfind
    simp only [comp_apply, Cache.isBlock, decide_eq_true_eq] at hb
    exact .inl ⟨b, hb.1, hb.2, rfl⟩
  | none =>
    have hnone : ∀ b', ¬ (c.dev b' = dev ∧ c.blockno b' = n) := fun b' => by
      simpa [Cache.isBlock] using List.find?_eq_none.1 hfind b' (hall b')
    dsimp only
    cases hfind' : l.reverse.find? (c.isUnused ∘ some) with
    | some b =>
      have hb := List.find?_some hfind'
      simp only [comp_apply, Cache.isUnused, decide_eq_true_eq] at hb
      exact .inr (.inl ⟨b, hnone, hb, rfl⟩)
    | none =>
      refine .inr (.inr ⟨fun b => ?_, rfl⟩)
      simpa [Cache.isUnused] using
        List.find?_eq_none.1 hfind' b (List.mem_reverse.2 (hall b))

theorem tally_select (hsel : c.sel t = none) (b b' : BufId) :
    tally (· = some b') (update c.sel t (some b)) =
      tally (· = some b') c.sel + if b = b' then 1 else 0 := by
  have h := tally_update (q := (· = some b')) c.sel t (some b)
  rw [hsel] at h
  simp only [reduceCtorEq, if_false, Option.some.injEq] at h
  split at h
  · rename_i heq
    rw [if_pos heq]
    omega
  · rename_i hne
    rw [if_neg hne]
    omega

section

variable (h : CInv c)
include h

theorem lock_select (hsel : c.sel t = none) {b' : BufId} {t' : T}
    (hlock : c.lock b' = some t') : update c.sel t (some b) t' = some b' := by
  have ht : t' ≠ t := by
    rintro rfl
    rw [h.lock b' t' hlock] at hsel
    cases hsel
  rw [update_of_ne ht]
  exact h.lock b' t' hlock

theorem hit (hsel : c.sel t = none) (b : BufId) : CInv (c.hit t b) where
  list := h.list
  unique := h.unique
  refcnt b' := by
    have ht := tally_select hsel b b'
    have hold := h.refcnt b'
    obtain rfl | hb := eq_or_ne b' b
    · simp only [Cache.hit, update_self, ht, if_true]
      omega
    · simp only [Cache.hit, update_of_ne hb, ht, if_neg (Ne.symm hb)]
      omega
  lock _ _ hlock := h.lock_select hsel hlock

theorem recycle (hsel : c.sel t = none) (hb : c.refcnt b = 0)
    (hnone : ∀ b', ¬ (c.dev b' = dev ∧ c.blockno b' = n)) : CInv (c.recycle t b dev n) where
  list := h.list
  unique b1 b2 h1 h2 heq := by
    simp only [Cache.recycle] at h1 h2 heq
    by_cases hb1 : b1 = b
    · by_cases hb2 : b2 = b
      · rw [hb1, hb2]
      · subst hb1
        rw [update_self] at h1 heq
        rw [update_of_ne hb2] at h2 heq
        exact absurd ⟨h2.trans h1.symm, heq.symm⟩ (hnone b2)
    · obtain rfl | hb2 := eq_or_ne b2 b
      · rw [update_self] at h2 heq
        rw [update_of_ne hb1] at h1 heq
        exact absurd ⟨h1.trans h2.symm, heq⟩ (hnone b1)
      · rw [update_of_ne hb1] at h1 heq
        rw [update_of_ne hb2] at h2 heq
        exact h.unique b1 b2 h1 h2 heq
  refcnt b' := by
    have ht := tally_select hsel b b'
    have hold := h.refcnt b'
    obtain rfl | hb' := eq_or_ne b' b
    · simp only [Cache.recycle, update_self, ht, if_true]
      omega
    · simp only [Cache.recycle, update_of_ne hb', ht, if_neg (Ne.symm hb')]
      omega
  lock _ _ hlock := h.lock_select hsel hlock

omit [DecidableEq T] in
theorem acquiresleep (hsel : c.sel t = some b) {c' : Cache T}
    (hc : c.acquiresleep t b = some c') : CInv c' := by
  simp only [Cache.acquiresleep, Option.ite_none_right_eq_some, Option.some.injEq] at hc
  obtain ⟨-, rfl⟩ := hc
  refine ⟨h.list, h.unique, h.refcnt, fun b' t' hlock => ?_⟩
  obtain rfl | hb := eq_or_ne b' b
  · simp only [update_self, Option.some.injEq] at hlock
    exact hlock ▸ hsel
  · simp only [update_of_ne hb] at hlock
    exact h.lock b' t' hlock

omit [DecidableEq T] in
theorem releasesleep (b : BufId) : CInv (c.releasesleep b) := by
  refine ⟨h.list, h.unique, h.refcnt, fun b' t' hlock => ?_⟩
  obtain rfl | hb := eq_or_ne b' b
  · simp [Cache.releasesleep] at hlock
  · simp only [Cache.releasesleep, update_of_ne hb] at hlock
    exact h.lock b' t' hlock

theorem drop (hsel : c.sel t = some b) (hlock : c.lock b ≠ some t) :
    CInv (c.drop t b) := by
  have hbase : CInv { c with
      refcnt := update c.refcnt b (c.refcnt b - 1)
      sel := update c.sel t none } := by
    refine ⟨h.list, h.unique, fun b' => ?_, fun b' t' hb' => ?_⟩
    · have ht := tally_update (q := (· = some b')) c.sel t none
      have hold := h.refcnt b'
      rw [hsel] at ht
      simp only [Option.some.injEq, reduceCtorEq, if_false] at ht
      obtain rfl | hb := eq_or_ne b' b
      · rw [if_pos rfl] at ht
        simp only [update_self]
        omega
      · rw [if_neg (Ne.symm hb)] at ht
        simp only [update_of_ne hb]
        omega
    · have hne : t' ≠ t := by
        rintro rfl
        have hself := h.lock b' t' hb'
        rw [hsel] at hself
        cases hself
        exact hlock hb'
      simp only [update_of_ne hne]
      exact h.lock b' t' hb'
  simp only [Cache.drop]
  split
  · refine ⟨?_, hbase.unique, hbase.refcnt, hbase.lock⟩
    obtain ⟨l, hl, hall⟩ := hbase.list
    obtain ⟨l1, l2, rfl⟩ := List.append_of_mem (hall b)
    exact ⟨_, hl.front.2, fun b' => List.perm_middle.mem_iff.1 (hall b')⟩
  · exact hbase

omit [DecidableEq T] in
/-- **There is a buffer without references** while fewer than `NBUF` threads have selected
one. -/
theorem exists_unused (hcard : Fintype.card T ≤ NBUF) (hsel : c.sel t = none) :
    ∃ b, c.refcnt b = 0 := by
  by_contra hno
  push Not at hno
  -- every buffer is selected by a thread, which is not `t`
  have hused : ∀ b, ∃ t', c.sel t' = some b := by
    intro b
    by_contra hnone
    push Not at hnone
    exact hno b ((h.refcnt b).trans (tally_eq_zero.2 hnone))
  choose f hf using hused
  have hinj : Injective f := fun b b' heq => by
    have hb := hf b
    rw [heq, hf b'] at hb
    exact (Option.some.inj hb).symm
  have hlt : Fintype.card BufId < Fintype.card T := by
    refine Fintype.card_lt_of_injective_of_notMem f hinj (b := t) ?_
    rintro ⟨b, rfl⟩
    rw [hf b] at hsel
    cases hsel
  rw [Fintype.card_fin] at hlt
  omega

end

end CInv

end XVapor.Bio
