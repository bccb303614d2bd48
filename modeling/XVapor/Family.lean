import Mathlib.Data.Fintype.Option
import XVapor.CircularList
import XVapor.FileTable

/-!
# The Family of the Processes

A process knows its parent, and its first child; the children of one parent are linked in a ring
without a head (`sched/proc.c`). `do_clone` sets the parent and appends to the ring. The other
calls change one of the two only: `freeproc` and `reparent` change the parent, and the ring
stays as it was, since nobody calls `delete_child`. So **the ring is right until the first
child is reaped or reparented**.

A call is one step, so the states are those in which no call is in progress. The numbers of the
births and the mark of a child that has been reparented are a history beside the table.

## Main results

* `family_of_reach`: the rings are right in every run without a wait that reaps and without an
  exit that leaves children.
-/

namespace XVapor.Family

open Function
open Files (ProcState)

/-! ### The table -/

/-- The process table: of every `struct proc` the state, the parent, the first child and the
links of `sibling_list`. -/
structure Table (P : Type) where
  state : P → ProcState
  parent : P → Option P
  firstChild : P → Option P
  next : P → P
  prev : P → P
  born : P → ℕ
  moved : P → Bool
  births : ℕ

variable {P : Type} [DecidableEq P]

namespace Table

variable (s : Table P)

/-- `allocproc`, for the family: the parent is not touched. -/
def allocproc (p : P) : Table P :=
  { s with
    state := update s.state p .used
    firstChild := update s.firstChild p none
    next := update s.next p p
    prev := update s.prev p p
    born := update s.born p s.births
    moved := update s.moved p false
    births := s.births + 1 }

/-- `freeproc`, for the family. -/
def freeproc (p : P) : Table P :=
  { s with
    state := update s.state p .unused
    parent := update s.parent p none }

/-- `list_add_tail(&child->sibling_list, &head->sibling_list)`. -/
def listAddTail (child head : P) : Table P :=
  { s with
    next := update (update s.next child head) (s.prev head) child
    prev := update (update s.prev head child) child (s.prev head) }

/-- `append_child`. -/
def appendChild (p child : P) : Table P :=
  match s.firstChild p with
  | none => { s with firstChild := update s.firstChild p (some child) }
  | some c => s.listAddTail child c

/-- `fork` and `do_clone`, with the entry `np` of the table. -/
def clone (p np : P) (ok : Bool) : Table P :=
  let s := s.allocproc np
  if ok then { s with parent := update s.parent np (some p) }.appendChild p np
  else s.freeproc np

/-- `proc_exit` with `reparent`. -/
def exit (initproc p : P) : Table P :=
  { s with
    parent := fun q => if s.parent q = some p then some initproc else s.parent q
    moved := fun q => s.moved q || s.parent q = some p
    state := update s.state p .zombie }

/-- The processes that a walk from the first child visits. -/
def children [Fintype P] (p : P) : List P :=
  match s.firstChild p with
  | none => []
  | some c => c :: trail s.next c (Fintype.card P) (s.next c)

/-- A child of a process. -/
def IsChild (q p : P) : Prop := s.state q ≠ .unused ∧ s.parent q = some p

end Table

/-- The calls: a clone that takes the entry `np`, an exit, and a wait that reaps `q`. -/
inductive Call (P : Type)
  | clone (p np : P) (ok : Bool)
  | exit (p : P)
  | wait (p q : P)

/-- The machine of the calls, from the table with the first process. -/
def machine (initproc : P) : Machine (Table P) (Call P) where
  init s := (∀ p, s.state p = if p = initproc then .used else .unused) ∧
    (∀ p, s.parent p = none) ∧ (∀ p, s.firstChild p = none) ∧ ∀ p, s.born p < s.births
  step s
    | .clone p np ok =>
      if s.state p = .used ∧ s.state np = .unused then some (s.clone p np ok) else none
    | .exit p => if s.state p = .used ∧ p ≠ initproc then some (s.exit initproc p) else none
    | .wait p q =>
      if s.state p = .used ∧ s.parent q = some p ∧ s.state q = .zombie then some (s.freeproc q)
      else none

/-! ### What is to hold -/

/-- The ring of a process in use is right. -/
structure FamilyOk [Fintype P] (s : Table P) (p : P) : Prop where
  once : (s.children p).Nodup
  mem : ∀ q, q ∈ s.children p ↔ s.IsChild q p
  order : ((s.children p).filter fun q => !s.moved q).Pairwise fun q r => s.born q < s.born r
  first : s.firstChild p = none ↔ ∀ q, ¬ s.IsChild q p

/-- The condition on a call: a wait finds no zombie child, and an exit leaves no child. -/
def Steady (s : Table P) : Call P → Prop
  | .clone _ _ _ => True
  | .exit p => ∀ q, s.parent q ≠ some p
  | .wait p _ => ∀ q, ¬ (s.parent q = some p ∧ s.state q = .zombie)

/-! ### Rings -/

variable {s s' : Table P} {initproc p np q : P}

/-- The children in the order of the ring. -/
def Ring (s : Table P) (first : Option P) : List P → Prop
  | [] => first = none
  | c :: l => first = some c ∧ Circular s.next s.prev c l

variable {l : List P}

theorem Ring.children_eq [Fintype P] (h : Ring s (s.firstChild p) l) :
    s.children p = l := by
  obtain _ | ⟨c, l⟩ := l
  · have hnone : s.firstChild p = none := h
    rw [Table.children, hnone]
  obtain ⟨hfirst, hring⟩ := h
  have hlen := hring.nodup.length_le_card
  rw [List.length_cons] at hlen
  rw [Table.children, hfirst]
  exact congrArg (c :: ·) (hring.trail_eq hlen)

omit [DecidableEq P] in
theorem Ring.congr {first : Option P} (h : Ring s first l)
    (hnext : ∀ q ∈ l, s'.next q = s.next q) (hprev : ∀ q ∈ l, s'.prev q = s.prev q) :
    Ring s' first l := by
  cases l with
  | nil => exact h
  | cons c l => exact ⟨h.1, h.2.congr hnext hprev⟩

/-- **A child is appended**: it is at the end of the ring of its parent. -/
theorem appendChild_ring (h : Ring s (s.firstChild p) l) (hnp : np ∉ l)
    (hself : s.next np = np ∧ s.prev np = np) :
    Ring (s.appendChild p np) ((s.appendChild p np).firstChild p) (l ++ [np]) := by
  obtain _ | ⟨c, l⟩ := l
  · have hnone : s.firstChild p = none := h
    simp only [Table.appendChild, hnone, update_self]
    exact ⟨rfl, List.nodup_singleton _, hself.1, hself.2⟩
  obtain ⟨hfirst, hring⟩ := h
  have hne : np ≠ c := fun heq => hnp (heq ▸ List.mem_cons_self)
  simp only [Table.appendChild, hfirst]
  refine ⟨hfirst, ?_⟩
  have htail := hring.insertTail hnp
  rwa [update_comm hne] at htail

theorem appendChild_frame (h : Ring s (s.firstChild p) l) (hq : q ∉ l) (hqn : q ≠ np) :
    (s.appendChild p np).next q = s.next q ∧ (s.appendChild p np).prev q = s.prev q := by
  obtain _ | ⟨c, l⟩ := l
  · have hnone : s.firstChild p = none := h
    rw [Table.appendChild, hnone]
    exact ⟨rfl, rfl⟩
  obtain ⟨hfirst, hring⟩ := h
  have hqc : q ≠ c := fun heq => hq (heq ▸ List.mem_cons_self)
  have hprev : q ≠ s.prev c := fun heq => hq (heq ▸ hring.seg.prev_mem)
  simp only [Table.appendChild, hfirst, Table.listAddTail]
  rw [update_of_ne hprev, update_of_ne hqn, update_of_ne hqn,
    update_of_ne hqc]
  exact ⟨rfl, rfl⟩

theorem appendChild_firstChild (hq : q ≠ p) :
    (s.appendChild p np).firstChild q = s.firstChild q := by
  rw [Table.appendChild]
  split
  · exact update_of_ne hq _ _
  · rfl

theorem clone_fields (s : Table P) (p np : P) :
    (s.clone p np true).state = update s.state np .used ∧
      (s.clone p np true).parent = update s.parent np (some p) ∧
      (s.clone p np true).born = update s.born np s.births ∧
      (s.clone p np true).births = s.births + 1 := by
  rw [Table.clone, if_pos rfl, Table.appendChild]
  split <;> exact ⟨rfl, rfl, rfl, rfl⟩

/-! ### The invariant -/

/-- What a run keeps: `kids p` are the children of `p` in the order of their births. -/
structure FamilyInv (s : Table P) (kids : P → List P) : Prop where
  ring : ∀ p, s.state p ≠ .unused → Ring s (s.firstChild p) (kids p)
  mem : ∀ p q, q ∈ kids p ↔ s.IsChild q p
  order : ∀ p, (kids p).Pairwise fun q r => s.born q < s.born r
  births : ∀ p, s.born p < s.births
  unused : ∀ p, s.state p = .unused → s.parent p = none
  parent : ∀ p q, s.parent q = some p → s.state p ≠ .unused

variable {kids : P → List P}

section

variable (h : FamilyInv s kids)
include h

section

variable (hnp : s.state np = .unused)
include hnp

omit [DecidableEq P] in
theorem FamilyInv.not_mem (p : P) :
    np ∉ kids p := fun hmem => ((h.mem p np).1 hmem).1 hnp

theorem FamilyInv.allocproc :
    (∀ p, (s.state p ≠ .unused ∨ p = np) → Ring (s.allocproc np) ((s.allocproc np).firstChild p)
      (kids p)) ∧ kids np = [] := by
  have hnil : kids np = [] := by
    refine List.eq_nil_iff_forall_not_mem.2 fun q hq => ?_
    exact h.parent np q ((h.mem np q).1 hq).2 hnp
  refine ⟨fun p hp => ?_, hnil⟩
  by_cases hpn : p = np
  · rw [hpn, hnil]
    exact update_self _ _ _
  have hne : ∀ q ∈ kids p, q ≠ np := fun q hq heq => h.not_mem hnp p (heq ▸ hq)
  have hring : Ring (s.allocproc np) (s.firstChild p) (kids p) :=
    (h.ring p (hp.resolve_right hpn)).congr
      (fun q hq => update_of_ne (hne q hq) _ _)
      (fun q hq => update_of_ne (hne q hq) _ _)
  have hfirst : (s.allocproc np).firstChild p = s.firstChild p :=
    update_of_ne hpn _ _
  rwa [hfirst]

theorem FamilyInv.clone_fail :
    FamilyInv ((s.allocproc np).freeproc np) kids := by
  obtain ⟨hring, -⟩ := h.allocproc hnp
  have hstate : ((s.allocproc np).freeproc np).state = s.state := by
    simp [Table.freeproc, Table.allocproc, update_eq_self_iff, hnp]
  have hparent : ((s.allocproc np).freeproc np).parent = s.parent := by
    simp [Table.freeproc, Table.allocproc, update_eq_self_iff, h.unused np hnp]
  have hborn : ∀ q, q ≠ np → ((s.allocproc np).freeproc np).born q = s.born q :=
    fun q hq => update_of_ne hq _ _
  refine ⟨fun p hp => ?_, fun p q => ?_, fun p => ?_, fun p => ?_, fun p hp => ?_, fun p q hq => ?_⟩
  · rw [hstate] at hp
    exact hring p (.inl hp)
  · rw [h.mem, Table.IsChild, Table.IsChild, hstate, hparent]
  · refine (h.order p).imp_of_mem fun {q r} hq hr hlt => ?_
    have hqn : q ≠ np := fun heq => h.not_mem hnp p (heq ▸ hq)
    have hrn : r ≠ np := fun heq => h.not_mem hnp p (heq ▸ hr)
    rwa [hborn q hqn, hborn r hrn]
  · obtain rfl | hpn := eq_or_ne p np
    · simp [Table.freeproc, Table.allocproc]
    · rw [hborn p hpn]
      exact (h.births p).trans (Nat.lt_succ_self _)
  · rw [hparent]
    exact h.unused p (hstate ▸ hp)
  · rw [hstate]
    exact h.parent p q (hparent ▸ hq)

end

/-- **A clone that succeeds**: the child is the last one of its parent. -/
theorem FamilyInv.clone_ok (hp : s.state p = .used)
    (hnp : s.state np = .unused) :
    FamilyInv (s.clone p np true) (update kids p (kids p ++ [np])) := by
  obtain ⟨hring, hnil⟩ := h.allocproc hnp
  have hpn : p ≠ np := ne_of_values hp hnp nofun
  -- the table before `append_child`
  let s1 : Table P := { s.allocproc np with
    parent := update (s.allocproc np).parent np (some p) }
  have hring1 : ∀ r, (s.state r ≠ .unused ∨ r = np) → Ring s1 (s1.firstChild r) (kids r) :=
    fun r hr => (hring r hr).congr (fun _ _ => rfl) fun _ _ => rfl
  have hself : s1.next np = np ∧ s1.prev np = np :=
    ⟨update_self _ _ _, update_self _ _ _⟩
  have hpused : s.state p ≠ .unused := by simp [hp]
  have hclone : s.clone p np true = s1.appendChild p np := rfl
  obtain ⟨hstate, hparent, hborn, hbirths⟩ := clone_fields s p np
  have hborn' : ∀ q, q ≠ np → (s.clone p np true).born q = s.born q := fun q hq => by
    rw [hborn, update_of_ne hq]
  have hold : ∀ r q, q ∈ kids r → q ≠ np := fun r q hq heq => h.not_mem hnp r (heq ▸ hq)
  refine ⟨fun r hr => ?_, fun r q => ?_, fun r => ?_, fun r => ?_, fun r hr => ?_, fun r q hq => ?_⟩
  · have hr' : s.state r ≠ .unused ∨ r = np := by
      by_cases hrn : r = np
      · exact .inr hrn
      · exact .inl (by rwa [hstate, update_of_ne hrn] at hr)
    rw [hclone]
    obtain rfl | hrp := eq_or_ne r p
    · rw [update_self]
      exact appendChild_ring (hring1 r hr') (h.not_mem hnp r) hself
    rw [update_of_ne hrp, appendChild_firstChild hrp]
    have hframe : ∀ q ∈ kids r, (s1.appendChild p np).next q = s1.next q ∧
        (s1.appendChild p np).prev q = s1.prev q := by
      intro q hq
      refine appendChild_frame (hring1 p (.inl hpused)) (fun hqp => hrp ?_) (hold r q hq)
      -- a process has one parent
      exact Option.some.inj ((((h.mem r q).1 hq).2.symm).trans ((h.mem p q).1 hqp).2)
    exact (hring1 r hr').congr (fun q hq => (hframe q hq).1) fun q hq => (hframe q hq).2
  · rw [Table.IsChild]
    obtain rfl | hqn := eq_or_ne q np
    · rw [hstate, hparent, update_self, update_self]
      obtain rfl | hrp := eq_or_ne r p
      · simp
      · rw [update_of_ne hrp]
        exact iff_of_false (h.not_mem hnp r) fun hc => hrp (Option.some.inj hc.2).symm
    · rw [hstate, hparent, update_of_ne hqn, update_of_ne hqn, ← Table.IsChild, ← h.mem]
      obtain rfl | hrp := eq_or_ne r p
      · simp [hqn]
      · rw [update_of_ne hrp]
  · have hkeep : ∀ r, (kids r).Pairwise fun q q' =>
        (s.clone p np true).born q < (s.clone p np true).born q' := fun r =>
      (h.order r).imp_of_mem fun {q q'} hq hq' hlt => by
        rwa [hborn' q (hold r q hq), hborn' q' (hold r q' hq')]
    obtain rfl | hrp := eq_or_ne r p
    · rw [update_self, List.pairwise_append]
      refine ⟨hkeep r, List.pairwise_singleton _ _, fun q hq q' hq' => ?_⟩
      rw [List.mem_singleton.1 hq', hborn' q (hold r q hq), hborn, update_self]
      exact h.births q
    · rw [update_of_ne hrp]
      exact hkeep r
  · rw [hbirths]
    by_cases hrn : r = np
    · rw [hrn, hborn, update_self]
      exact Nat.lt_succ_self _
    · rw [hborn' r hrn]
      exact (h.births r).trans (Nat.lt_succ_self _)
  · have hrn : r ≠ np := by
      rintro rfl
      rw [hstate, update_self] at hr
      cases hr
    rw [hparent, update_of_ne hrn]
    exact h.unused r (by rwa [hstate, update_of_ne hrn] at hr)
  · by_cases hrn : r = np
    · rw [hrn, hstate, update_self]
      nofun
    rw [hstate, update_of_ne hrn]
    by_cases hqn : q = np
    · rw [hqn, hparent, update_self] at hq
      rw [← Option.some.inj hq]
      exact hpused
    · exact h.parent r q (by rwa [hparent, update_of_ne hqn] at hq)

theorem FamilyInv.exit (hp : s.state p = .used)
    (hno : ∀ q, s.parent q ≠ some p) : FamilyInv (s.exit initproc p) kids := by
  have hparent : (s.exit initproc p).parent = s.parent :=
    funext fun q => if_neg (hno q)
  have hstate : ∀ q, (s.exit initproc p).state q = .unused ↔ s.state q = .unused := by
    intro q
    obtain rfl | hqp := eq_or_ne q p
    · simp [Table.exit, hp]
    · simp [Table.exit, hqp]
  refine ⟨fun r hr => ?_, fun r q => ?_, h.order, h.births, fun r hr => ?_, fun r q hq => ?_⟩
  · exact (h.ring r fun hu => hr ((hstate r).2 hu)).congr (fun _ _ => rfl) fun _ _ => rfl
  · rw [h.mem, Table.IsChild, Table.IsChild, hparent, Ne, Ne, hstate]
  · rw [hparent]
    exact h.unused r ((hstate r).1 hr)
  · rw [Ne, hstate]
    exact h.parent r q (hparent ▸ hq)

end

/-- **The rings are right in every run whose calls meet the condition.** -/
theorem family_of_reach [Fintype P] (h : (machine initproc).Reach Steady s) (p : P)
    (hp : s.state p = .used) : FamilyOk s p := by
  obtain ⟨kids, hi⟩ : ∃ kids, FamilyInv s kids := by
    refine h.invariant (I := fun s => ∃ kids, FamilyInv s kids) (fun s hs => ?_)
      fun s a s' hi hok hs => ?_
    · obtain ⟨hstate, hparent, hfirst, hborn⟩ := hs
      refine ⟨fun _ => [], fun p _ => hfirst p, fun p q => ?_, fun p => List.Pairwise.nil, hborn,
        fun p _ => hparent p, fun p q hq => ?_⟩
      · simp [Table.IsChild, hparent]
      · rw [hparent] at hq
        cases hq
    · obtain ⟨kids, hi⟩ := hi
      cases a with
      | clone p np ok =>
        obtain ⟨⟨hp, hnp⟩, rfl⟩ := guard_eq_some.1 hs
        cases ok with
        | true => exact ⟨_, hi.clone_ok hp hnp⟩
        | false => exact ⟨kids, hi.clone_fail hnp⟩
      | exit p =>
        obtain ⟨⟨hp, -⟩, rfl⟩ := guard_eq_some.1 hs
        exact ⟨kids, hi.exit hp hok⟩
      | wait p q =>
        obtain ⟨⟨-, hq⟩, -⟩ := Option.ite_none_right_eq_some.1 hs
        exact absurd hq (hok q)
  have hchildren := (hi.ring p (by simp [hp])).children_eq
  have horder := hi.order p
  refine ⟨?_, fun q => by rw [hchildren, hi.mem], ?_, ?_⟩
  · rw [hchildren]
    exact horder.imp fun hlt => by
      rintro rfl
      exact Nat.lt_irrefl _ hlt
  · rw [hchildren]
    exact horder.filter _
  · have hring := hi.ring p (by simp [hp])
    have hiff : s.firstChild p = none ↔ kids p = [] := by
      cases hk : kids p with
      | nil =>
        rw [hk] at hring
        exact iff_of_true hring rfl
      | cons c l =>
        rw [hk] at hring
        simp [hring.1]
    rw [hiff, List.eq_nil_iff_forall_not_mem]
    exact forall_congr' fun q => not_congr (hi.mem p q)

/-! ### Runs of three processes -/

/-- The first process, and two entries that are not used. -/
def firstProc : Table (Option Bool) :=
  ⟨fun p => if p = none then .used else .unused, fun _ => none, fun _ => none, id, id,
    fun _ => 0, fun _ => false, 1⟩

theorem firstProc_init : (machine none).init firstProc :=
  ⟨fun _ => rfl, fun _ => rfl, fun _ => rfl, fun _ => Nat.one_pos⟩

/-- After two clones the ring has both children; one of them has exited. -/
theorem family_clone : ∃ s, s.children none = [some true, some false] ∧
    s.state (some true) = .zombie ∧ FamilyOk s none := by
  have h : (machine none).Reach Steady firstProc := .init firstProc_init
  have h1 := h.step (a := Call.clone none (some true) true) trivial rfl
  have h2 := h1.step (a := Call.clone none (some false) true) trivial rfl
  have h3 := h2.step (a := Call.exit (some true)) (by rintro (_ | _ | _) ⟨⟩) rfl
  exact ⟨_, rfl, rfl, family_of_reach h3 none rfl⟩

/-- **A child that has been reaped stays in the ring** of its parent. -/
theorem family_fails : ∃ s, (machine none).Reach Machine.anyStep s ∧ s.state none = .used ∧
    s.state (some true) = .unused ∧ s.children none = [some true] ∧ ¬ FamilyOk s none := by
  have hrun : (machine none).exec firstProc
      [.clone none (some true) true, .exit (some true), .wait none (some true)] = some _ := rfl
  refine ⟨_, Machine.reach_of_exec firstProc_init hrun, rfl, rfl, rfl, fun h => ?_⟩
  exact ((h.mem (some true)).1 (by decide)).1 rfl

end XVapor.Family
