import XVapor.FileTable
import XVapor.Ownership
import XVapor.Tally

/-!
# The State Queues of the Processes

Every `struct proc` is linked on the queue of its state: `unused_p_q`, `used_p_q` or
`zombie_p_q` (`sched/sched.c`). A queue counts its nodes. `queue_pop` unlinks a node and does
not count down; `pcb_q_change_state`, which `allocproc` calls next, unlinks the node again,
which does nothing, and counts down then.

So a process that has been popped is still counted with the queue it came from. Give it that
queue as its home until it is counted down: then **`cnt` is at all times the number of the
processes whose home is the queue**, and a process in nobody's hands has the queue of its state
as its home.

Each queue operation is one step, since it holds the lock of the queue; `pcb_q_change_state` is
three.

## Main results

* `procQueues_of_reach`: the queues and `procs_cnt`, whenever no process is on its way.
-/

namespace XVapor.Pcb

open Function
open Files (ProcState)

/-! ### Queues -/

/-- The states of the processes and the queues `g_pcb_queues` with their counts. -/
structure Pcbs (P : Type) where
  state : P → ProcState
  queue : ProcState → List P
  cnt : ProcState → ℤ

namespace Pcbs

variable {P : Type} [DecidableEq P] (c : Pcbs P)

/-- `queue_push_back_atomic`. -/
def queuePushBack (st : ProcState) (p : P) : Pcbs P :=
  { c with
    queue := update c.queue st (c.queue st ++ [p])
    cnt := update c.cnt st (c.cnt st + 1) }

/-- `queue_remove_atomic`: the node is unlinked from whichever queue it is on, and the count
of the queue `st` goes down. -/
def queueRemove (st : ProcState) (p : P) : Pcbs P :=
  { c with
    queue := fun st => (c.queue st).erase p
    cnt := update c.cnt st (c.cnt st - 1) }

/-- `queue_pop_atomic` with `remove` set. -/
def queuePop (st : ProcState) : Option (P × Pcbs P) :=
  match c.queue st with
  | [] => none
  | p :: _ => some (p, { c with queue := fun st => (c.queue st).erase p })

def setState (p : P) (st : ProcState) : Pcbs P :=
  { c with state := update c.state p st }

/-- `procs_cnt`. -/
def procsCnt : ℤ := c.cnt .used + c.cnt .zombie

end Pcbs

/-! ### The agents -/

/-- Where an agent is. `popped`: in `allocproc`, before `acquire(&p->lock)`. `allocRemove` and
`remove`: at the first step of `pcb_q_change_state`, called by `allocproc` or by another. -/
inductive Pc (P : Type)
  | idle
  | popped (p : P)
  | allocRemove (p : P)
  | remove (p : P) (st : ProcState)
  | push (p : P) (st : ProcState)
  | set (p : P) (st : ProcState)
  | locked (p : P)
  deriving DecidableEq

/-- The lock an agent holds. -/
def Pc.held {P : Type} : Pc P → Option P
  | .allocRemove p | .remove p _ | .push p _ | .set p _ | .locked p => some p
  | .idle | .popped _ => none

/-- What an agent has popped and not counted down. -/
def Pc.hand {P : Type} : Pc P → Option (P × ProcState)
  | .popped p | .allocRemove p => some (p, .unused)
  | _ => none

structure State (A P : Type) where
  pcbs : Pcbs P
  lock : P → Option A
  pc : A → Pc P

/-- The actions: `allocproc` begins; a caller of `freeproc` or `proc_exit` takes the lock, and
calls it; a step inside `allocproc` or `pcb_q_change_state`; the lock is dropped. -/
inductive Act (A P : Type)
  | allocproc (a : A)
  | lock (a : A) (p : P)
  | freeproc (a : A)
  | procExit (a : A)
  | step (a : A)
  | release (a : A)

variable {A P : Type} [DecidableEq A] [DecidableEq P]

namespace State

variable (s : State A P)

def goto (a : A) (pc : Pc P) : State A P := { s with pc := update s.pc a pc }

/-- `acquire(&p->lock)`. -/
def acquire (a : A) (p : P) (pc : Pc P) : Option (State A P) :=
  if s.lock p = none then
    some { s.goto a pc with lock := update s.lock p (some a) }
  else none

/-- A call of `pcb_q_change_state` by an agent with the lock, on a process that is in use. -/
def call (a : A) (st : ProcState) : Option (State A P) :=
  match s.pc a with
  | .locked p => if s.pcbs.state p = .unused then none else some (s.goto a (.remove p st))
  | _ => none

/-- A step inside `allocproc` or `pcb_q_change_state`. -/
def inside (a : A) : Option (State A P) :=
  match s.pc a with
  | .popped p => s.acquire a p (.allocRemove p)
  | .allocRemove p =>
    some { s.goto a (.push p .used) with pcbs := s.pcbs.queueRemove (s.pcbs.state p) p }
  | .remove p st =>
    some { s.goto a (.push p st) with pcbs := s.pcbs.queueRemove (s.pcbs.state p) p }
  | .push p st => some { s.goto a (.set p st) with pcbs := s.pcbs.queuePushBack st p }
  | .set p st => some { s.goto a (.locked p) with pcbs := s.pcbs.setState p st }
  | .idle | .locked _ => none

def act : Act A P → Option (State A P)
  | .allocproc a =>
    match s.pc a with
    | .idle => match s.pcbs.queuePop .unused with
      | none => some s
      | some (p, pcbs) => some { s.goto a (.popped p) with pcbs }
    | _ => none
  | .lock a p =>
    match s.pc a with
    | .idle => s.acquire a p (.locked p)
    | _ => none
  | .freeproc a => s.call a .unused
  | .procExit a => s.call a .zombie
  | .step a => s.inside a
  | .release a =>
    match s.pc a with
    | .locked p => some { s.goto a .idle with lock := update s.lock p none }
    | _ => none

end State

/-- The machine, from the table that `procinit` makes. -/
def machine (A P : Type) [DecidableEq A] [DecidableEq P] : Machine (State A P) (Act A P) where
  init s := (∀ a, s.pc a = .idle) ∧ (∀ p, s.lock p = none) ∧ (∀ p, s.pcbs.state p = .unused) ∧
    (s.pcbs.queue .unused).Nodup ∧ (∀ p, p ∈ s.pcbs.queue .unused) ∧
    s.pcbs.queue .used = [] ∧ s.pcbs.queue .zombie = [] ∧
    s.pcbs.cnt .unused = (s.pcbs.queue .unused).length ∧ s.pcbs.cnt .used = 0 ∧
    s.pcbs.cnt .zombie = 0
  step := State.act

/-! ### The invariant -/

/-- What is known of a process by where an agent is with it. -/
def Pc.Loc {P : Type} (state : P → ProcState) (home : P → Option ProcState) : Pc P → Prop
  | .allocRemove p => state p = .unused
  | .remove p _ => state p ≠ .unused
  | .push p _ => home p = none
  | .set p st => home p = some st
  | .idle | .popped _ | .locked _ => True

/-- The process is between two queues. -/
def Pc.Moves {P : Type} (pc : Pc P) (p : P) : Prop := ∃ st, pc = .push p st ∨ pc = .set p st

variable [Fintype P]

/-- **The invariant.** `home p` is the queue that counts the process. -/
structure QueueInv (s : State A P) (home : P → Option ProcState) : Prop where
  held : Held (Pc.held ∘ s.pc) s.lock
  placed : Placed s.pcbs.queue (Pc.hand ∘ s.pc) home
  cnt : ∀ st, s.pcbs.cnt st = tally (· = some st) home
  loc : ∀ a, (s.pc a).Loc s.pcbs.state home
  rest : ∀ p, (∀ a, ¬ (s.pc a).Moves p) → home p = some (s.pcbs.state p)

variable {s s' : State A P} {home : P → Option ProcState} {a : A} {p : P}

omit [DecidableEq P] [Fintype P] in
theorem Pc.Moves.held {pc : Pc P} (h : pc.Moves p) : pc.held = some p := by
  obtain ⟨st, rfl | rfl⟩ := h <;> rfl

omit [DecidableEq A] [DecidableEq P] in
theorem QueueInv.rest_of_held (h : QueueInv s home) (ha : (s.pc a).held = some p)
    (hno : ¬ (s.pc a).Moves p) : home p = some (s.pcbs.state p) := by
  refine h.rest p fun b hb => hno ?_
  rwa [h.held.excl (a := a) (b := b) ha hb.held]

variable {x : Pc P}

omit [DecidableEq P] in
theorem QueueInv.goto (h : QueueInv s home) {lock : P → Option A}
    (hheld : Held (Pc.held ∘ update s.pc a x) lock)
    (hhand : x.hand = (s.pc a).hand) (hloc : x.Loc s.pcbs.state home)
    (hmoves : ∀ q, ¬ x.Moves q → (s.pc a).Moves q → home q = some (s.pcbs.state q)) :
    QueueInv { s.goto a x with lock } home := by
  refine ⟨hheld, ?_, h.cnt, fun b => ?_, fun q hq => ?_⟩
  · simp only [State.goto, comp_update]
    exact h.placed.keep hhand
  · obtain rfl | hb := eq_or_ne b a
    · simpa [State.goto] using hloc
    · simpa [State.goto, hb] using h.loc b
  · by_cases hmove : (s.pc a).Moves q
    · exact hmoves q (by simpa [State.goto] using hq a) hmove
    · refine h.rest q fun b => ?_
      obtain rfl | hb := eq_or_ne b a
      · exact hmove
      · simpa [State.goto, hb] using hq b

variable {pcbs : Pcbs P}

theorem QueueInv.move (h : QueueInv s home) {v : Option ProcState}
    (ha : (s.pc a).held = some p) (hx : x.held = some p)
    (hplaced : Placed pcbs.queue (update (Pc.hand ∘ s.pc) a x.hand)
      (update home p v)) (hcnt : ∀ st, pcbs.cnt st = tally (· = some st) (update home p v))
    (hstate : ∀ q ≠ p, pcbs.state q = s.pcbs.state q) (hloc : x.Loc pcbs.state (update home p v))
    (hrest : ¬ x.Moves p → v = some (pcbs.state p)) :
    QueueInv { s.goto a x with pcbs } (update home p v) := by
  have hne : ∀ b, b ≠ a → (s.pc b).held ≠ some p := fun b hb hheld =>
    hb (h.held.excl (a := b) (b := a) hheld ha)
  refine ⟨?_, ?_, hcnt, fun b => ?_, fun q hq => ?_⟩
  · simp only [State.goto, comp_update]
    exact h.held.keep (hx.trans ha.symm)
  · simp only [State.goto, comp_update]
    exact hplaced
  · obtain rfl | hb := eq_or_ne b a
    · simpa [State.goto] using hloc
    · -- the other agents hold other locks
      have hold := h.loc b
      have hno := hne b hb
      simp only [State.goto, update_of_ne hb]
      cases hpc : s.pc b with
      | allocRemove q | remove q st =>
        rw [hpc] at hold hno
        have hq : q ≠ p := fun heq => hno (by rw [heq]; rfl)
        simpa only [Pc.Loc, hstate q hq] using hold
      | push q st | set q st =>
        rw [hpc] at hold hno
        have hq : q ≠ p := fun heq => hno (by rw [heq]; rfl)
        simpa only [Pc.Loc, update_of_ne hq] using hold
      | idle | popped q | locked q => trivial
  · obtain rfl | hqp := eq_or_ne q p
    · have hxq := hq a
      simp only [State.goto, update_self] at hxq
      rw [update_self, hrest hxq]
    rw [update_of_ne hqp, hstate q hqp]
    refine h.rest q fun b hb => ?_
    by_cases hba : b = a
    · rw [hba] at hb
      exact hqp (Option.some.inj (hb.held.symm.trans ha))
    · exact hq b (by simpa [State.goto, hba] using hb)

omit [DecidableEq P] [Fintype P] in
theorem hand_keep (hpc : s.pc a = x) (y : Pc P) (hand : y.hand = x.hand) :
    update (Pc.hand ∘ s.pc) a y.hand = Pc.hand ∘ s.pc := by
  refine update_eq_self_iff.2 ?_
  rw [comp_apply, hpc, hand]

/-! ### Steps -/

variable {st : ProcState}

section

variable (h : QueueInv s home)
include h

theorem QueueInv.remove (hpc : s.pc a = .remove p st) :
    QueueInv { s.goto a (.push p st) with pcbs := s.pcbs.queueRemove (s.pcbs.state p) p }
      (update home p none) := by
  have hold := h.loc a
  rw [hpc] at hold
  have hhome : home p = some (s.pcbs.state p) :=
    h.rest_of_held (by rw [hpc]; rfl) (by rw [hpc]; rintro ⟨_, hc | hc⟩ <;> cases hc)
  have hno : ∀ b q, (Pc.hand ∘ s.pc) b ≠ some (p, q) := by
    intro b q hb
    have hq := (h.placed.inHand b p q hb).1
    -- what is in hand comes from `unused_p_q`
    have hunused : q = .unused := by
      simp only [comp_apply] at hb
      cases hx : s.pc b <;> rw [hx] at hb <;> simp [Pc.hand] at hb <;> exact hb.2.symm
    rw [hhome, hunused] at hq
    exact hold (Option.some.inj hq)
  refine h.move (by rw [hpc]; rfl) rfl ?_ (fun st' => ?_) (fun _ _ => rfl)
    (update_self _ _ _) fun hm => absurd ⟨st, .inl rfl⟩ hm
  · rw [hand_keep hpc (.push p st) rfl]
    exact h.placed.remove hno
  · rw [tally_update, ← h.cnt, hhome]
    by_cases hst : st' = s.pcbs.state p
    · simp [Pcbs.queueRemove, hst]
    · simp [Pcbs.queueRemove, hst, Ne.symm hst]

theorem QueueInv.allocRemove (hpc : s.pc a = .allocRemove p) :
    QueueInv { s.goto a (.push p .used) with pcbs := s.pcbs.queueRemove (s.pcbs.state p) p }
      (update home p none) := by
  have hstate := h.loc a
  rw [hpc] at hstate
  have hhand : (Pc.hand ∘ s.pc) a = some (p, .unused) := by
    rw [comp_apply, hpc]
    rfl
  have hhome := (h.placed.inHand a p _ hhand).1
  have hqueue : (s.pcbs.queueRemove (s.pcbs.state p) p).queue = s.pcbs.queue := by
    funext st
    exact List.erase_of_not_mem (h.placed.not_mem_of_inHand hhand st)
  refine h.move (by rw [hpc]; rfl) rfl ?_ (fun st' => ?_) (fun _ _ => rfl)
    (update_self _ _ _) fun hm => absurd ⟨.used, .inl rfl⟩ hm
  · rw [hqueue]
    exact h.placed.finish hhand
  · have hst : s.pcbs.state p = .unused := hstate
    rw [tally_update, ← h.cnt, hhome, hst]
    by_cases hst' : st' = .unused
    · simp [Pcbs.queueRemove, hst']
    · simp [Pcbs.queueRemove, hst', Ne.symm hst']

theorem QueueInv.push (hpc : s.pc a = .push p st) :
    QueueInv { s.goto a (.set p st) with pcbs := s.pcbs.queuePushBack st p }
      (update home p (some st)) := by
  have hhome := h.loc a
  rw [hpc] at hhome
  have hnone : home p = none := hhome
  refine h.move (by rw [hpc]; rfl) rfl ?_ (fun st' => ?_) (fun _ _ => rfl)
    (update_self _ _ _) fun hm => absurd ⟨st, .inr rfl⟩ hm
  · rw [hand_keep hpc (.set p st) rfl]
    exact h.placed.push hnone
  · rw [tally_update, ← h.cnt, hnone]
    by_cases hst : st' = st
    · simp [Pcbs.queuePushBack, hst]
    · simp [Pcbs.queuePushBack, hst, Ne.symm hst]

theorem QueueInv.set (hpc : s.pc a = .set p st) :
    QueueInv { s.goto a (.locked p) with pcbs := s.pcbs.setState p st } home := by
  have hhome := h.loc a
  rw [hpc] at hhome
  have hsome : home p = some st := hhome
  have hself : update home p (some st) = home :=
    update_eq_self_iff.2 hsome.symm
  rw [← hself]
  refine h.move (by rw [hpc]; rfl) rfl ?_ (fun st' => ?_) (fun q hq => ?_) trivial fun _ => ?_
  · rw [hand_keep hpc (.locked p) rfl, hself]
    exact h.placed
  · rw [hself]
    exact h.cnt st'
  · exact update_of_ne hq _ _
  · simp [Pcbs.setState]

theorem QueueInv.pop (hpc : s.pc a = .idle)
    (hpop : s.pcbs.queuePop .unused = some (p, pcbs)) :
    QueueInv { s.goto a (.popped p) with pcbs } home := by
  rw [Pcbs.queuePop] at hpop
  split at hpop
  · cases hpop
  rename_i q rest hq
  cases hpop
  refine ⟨?_, ?_, h.cnt, fun b => ?_, fun x hx => h.rest x fun b hb => ?_⟩
  · simp only [State.goto, comp_update]
    exact h.held.keep (by rw [comp_apply, hpc]; rfl)
  · simp only [State.goto, comp_update]
    rw [h.placed.erase_eq_update hq]
    exact h.placed.pop hq (by rw [comp_apply, hpc]; rfl)
  · obtain rfl | hb := eq_or_ne b a
    · simp [State.goto, Pc.Loc]
    · simpa [State.goto, hb] using h.loc b
  · by_cases hba : b = a
    · rw [hba, hpc] at hb
      obtain ⟨_, hc | hc⟩ := hb <;> cases hc
    · exact hx b (by simpa [State.goto, hba] using hb)

theorem QueueInv.acquire (hx : x.held = some p)
    (hpc : (s.pc a).held = none) (hhand : x.hand = (s.pc a).hand)
    (hloc : home p = some (s.pcbs.state p) → x.Loc s.pcbs.state home)
    (hs : s.acquire a p x = some s') : QueueInv s' home := by
  rw [State.acquire] at hs
  obtain ⟨hfree, rfl⟩ := guard_eq_some.1 hs
  have hrest := h.rest p fun b hb => h.held.ne_of_free hfree b hb.held
  refine h.goto ?_ hhand (hloc hrest) fun q _ hq => ?_
  · rw [comp_update, hx]
    exact h.held.acquire hfree
  · rw [hq.held] at hpc
    cases hpc

omit [DecidableEq P] in
theorem QueueInv.call (hs : s.call a st = some s') :
    QueueInv s' home := by
  rw [State.call] at hs
  split at hs
  next p hpc =>
    obtain ⟨hused, hs⟩ := Option.ite_none_left_eq_some.1 hs
    cases hs
    refine h.goto ?_ (by rw [hpc]; rfl) hused fun q _ hq => ?_
    · rw [comp_update]
      exact h.held.keep (by rw [comp_apply, hpc]; rfl)
    · rw [hpc] at hq
      obtain ⟨_, hc | hc⟩ := hq <;> cases hc
  next => cases hs

theorem QueueInv.inside (hs : s.inside a = some s') :
    ∃ home', QueueInv s' home' := by
  rw [State.inside] at hs
  split at hs
  next p hpc =>
    refine ⟨home, h.acquire (p := p) rfl (by rw [hpc]; rfl) (by rw [hpc]; rfl) (fun hhome => ?_) hs⟩
    have hhand := (h.placed.inHand a p .unused (by rw [comp_apply, hpc]; rfl)).1
    exact (Option.some.inj (hhand.symm.trans hhome)).symm
  next p hpc =>
    cases hs
    exact ⟨_, h.allocRemove hpc⟩
  next p st hpc =>
    cases hs
    exact ⟨_, h.remove hpc⟩
  next p st hpc =>
    cases hs
    exact ⟨_, h.push hpc⟩
  next p st hpc =>
    cases hs
    exact ⟨home, h.set hpc⟩
  next => cases hs
  next => cases hs

/-- **A step keeps the invariant.** -/
theorem QueueInv.step {x : Act A P} (hs : s.act x = some s') :
    ∃ home', QueueInv s' home' := by
  cases x with
  | allocproc a =>
    simp only [State.act] at hs
    split at hs
    next hpc =>
      split at hs
      · cases hs
        exact ⟨home, h⟩
      rename_i p pcbs hpop
      cases hs
      exact ⟨home, h.pop hpc hpop⟩
    next => cases hs
  | lock a p =>
    simp only [State.act] at hs
    split at hs
    next hpc =>
      exact ⟨home, h.acquire (x := .locked p) rfl (by rw [hpc]; rfl) (by rw [hpc]; rfl)
        (fun _ => trivial) hs⟩
    next => cases hs
  | freeproc a | procExit a => exact ⟨home, h.call hs⟩
  | step a => exact h.inside hs
  | release a =>
    simp only [State.act] at hs
    split at hs
    next p hpc =>
      cases hs
      refine ⟨home, h.goto ?_ (by rw [hpc]; rfl) trivial fun q _ hq => ?_⟩
      · rw [comp_update]
        exact h.held.release (by rw [comp_apply, hpc]; rfl)
      · rw [hpc] at hq
        obtain ⟨_, hc | hc⟩ := hq <;> cases hc
    next => cases hs

end

theorem QueueInv.init (h : (machine A P).init s) : QueueInv s fun _ => some .unused := by
  obtain ⟨hpc, hlock, hstate, hnodup, hall, hused, hzombie, hcnt, hcnt1, hcnt2⟩ := h
  refine ⟨fun a p ha => ?_, ⟨fun st => ?_, fun st p hp => ?_, fun a p st ha => ?_,
    fun a b p st st' ha => ?_, fun p st hp => ?_⟩, fun st => ?_, fun a => ?_, fun p _ => by rw [hstate]⟩
  · simp [hpc, Pc.held] at ha
  · cases st with
    | unused => exact hnodup
    | used => simp [hused]
    | zombie => simp [hzombie]
  · cases st with
    | unused => rfl
    | used => simp [hused] at hp
    | zombie => simp [hzombie] at hp
  · simp [hpc, Pc.hand] at ha
  · simp [hpc, Pc.hand] at ha
  · cases hp
    exact .inl (hall p)
  · cases st with
    | unused =>
      have hcard : (s.pcbs.queue .unused).toFinset = Finset.univ :=
        Finset.eq_univ_iff_forall.2 fun p => List.mem_toFinset.2 (hall p)
      rw [hcnt, ← List.toFinset_card_of_nodup hnodup, hcard]
      simp [tally]
    | used => simp [hcnt1, tally]
    | zombie => simp [hcnt2, tally]
  · rw [hpc]
    trivial

/-! ### The result -/

/-- No process is between `queue_pop_atomic` and `pcb_q_change_state`, and no
`pcb_q_change_state` is in progress. -/
def Quiet (s : State A P) : Prop := ∀ a, s.pc a = .idle ∨ ∃ p, s.pc a = .locked p

/-- **The queues are right whenever no process is on its way**: every process is linked once,
on the queue of its state; the counts are the lengths; and `procs_cnt` is the number of the
processes in use. -/
theorem procQueues_of_reach (h : (machine A P).Reach Machine.anyStep s) (hq : Quiet s) :
    (∀ st p, (s.pcbs.queue st).count p = if s.pcbs.state p = st then 1 else 0) ∧
    (∀ st, s.pcbs.cnt st = (s.pcbs.queue st).length) ∧
    s.pcbs.procsCnt = (Finset.univ.filter fun p =>
      s.pcbs.state p = .used ∨ s.pcbs.state p = .zombie).card := by
  obtain ⟨home, hi⟩ : ∃ home, QueueInv s home := by
    refine h.invariant (I := fun s => ∃ home, QueueInv s home) (fun s hs => ⟨_, QueueInv.init hs⟩)
      fun s a s' hi _ hs => ?_
    obtain ⟨home, hi⟩ := hi
    exact hi.step hs
  have hhome : home = fun p => some (s.pcbs.state p) := funext fun p =>
    hi.rest p fun a hm => by
      obtain ⟨st, hc⟩ := hm
      obtain hidle | ⟨q, hlocked⟩ := hq a
      · simp [hidle] at hc
      · simp [hlocked] at hc
  have hmem : ∀ st p, p ∈ s.pcbs.queue st ↔ s.pcbs.state p = st := by
    intro st p
    rw [hi.placed.mem_iff, hhome, Option.some.injEq]
    refine and_iff_left fun a ha => ?_
    obtain hidle | ⟨q, hlocked⟩ := hq a
    · simp [hidle, Pc.hand] at ha
    · simp [hlocked, Pc.hand] at ha
  have htally : ∀ st, s.pcbs.cnt st = (Finset.univ.filter fun p => s.pcbs.state p = st).card := by
    intro st
    rw [hi.cnt, hhome, tally]
    simp
  refine ⟨fun st p => ?_, fun st => ?_, ?_⟩
  · rw [(hi.placed.nodup st).count]
    exact if_congr (hmem st p) rfl rfl
  · have hset : (s.pcbs.queue st).toFinset = Finset.univ.filter fun p => s.pcbs.state p = st := by
      ext p
      simp [hmem]
    rw [htally, ← List.toFinset_card_of_nodup (hi.placed.nodup st), hset]
  · rw [Pcbs.procsCnt, htally, htally, Finset.filter_or, Finset.card_union_of_disjoint]
    · exact (Nat.cast_add _ _).symm
    · refine Finset.disjoint_filter.2 fun p _ hused hzombie => ?_
      rw [hused] at hzombie
      cases hzombie

/-- Two processes that are not used, and one agent. -/
def twoProcs : State Unit Bool :=
  ⟨⟨fun _ => .unused, fun | .unused => [false, true] | _ => [], fun | .unused => 2 | _ => 0⟩,
    fun _ => none, fun _ => .idle⟩

/-- After `allocproc` one process is in use, and `procs_cnt` says so. -/
theorem procsCnt_allocproc : ∃ s, (machine Unit Bool).exec twoProcs
      [.allocproc (), .step (), .step (), .step (), .step (), .release ()] = some s ∧
    s.pcbs.procsCnt = 1 := by
  have hrun : (machine Unit Bool).exec twoProcs
      [.allocproc (), .step (), .step (), .step (), .step (), .release ()] = some _ := rfl
  have hinit : (machine Unit Bool).init twoProcs :=
    ⟨fun _ => rfl, fun _ => rfl, fun _ => rfl, by decide, by decide, rfl, rfl, rfl, rfl, rfl⟩
  have hcnt := (procQueues_of_reach (Machine.reach_of_exec hinit hrun) fun _ => .inl rfl).2.2
  exact ⟨_, hrun, hcnt.trans (by decide)⟩

end XVapor.Pcb
