import XVapor.Ownership
import XVapor.SchedMachine

/-!
# The Home of a Thread

The invariant of the scheduler gives every tcb a home: the queue it is linked on or was
popped from, where `RUNNING` counts as a queue on which nothing is ever linked, so that a
running thread is in the hand of its CPU. While `t->lock` is free, the home of `t` is its
state. Only the holder of the lock moves it, in the three steps of `tcb_q_change_state`:
after the unlink the tcb has no home, after the push the queue of the new state is its
home, and after the assignment its state agrees with its home again.

A thread that `alloc_thread` has handed out stays `USED` until its creator makes it
`RUNNABLE` or frees it, although the creator does not hold its lock all the time: the
creator claims it, and nobody claims the same thread twice.
-/

namespace XVapor.Sched

open Function

variable {A T : Type} [DecidableEq A] [DecidableEq T]

/-! ### The invariant -/

/-- The tcb an agent has popped or runs, with its home. -/
def handOf : Pc T → Option (T × TcbState)
  | .popped t => some (t, .runnable)
  | .locked t => some (t, .runnable)
  | .marked t => some (t, .running)
  | .switched t => some (t, .running)
  | .run t => some (t, .running)
  | .change .own _ .remove t => some (t, .running)
  | .allocWant t => some (t, .unused)
  | .allocGot t => some (t, .unused)
  | .change .alloc _ .remove t => some (t, .unused)
  | _ => none

/-- The thread whose lock an agent holds. -/
def heldOf : Pc T → Option T
  | .locked t => some t
  | .marked t => some t
  | .switched t => some t
  | .back t => some t
  | .unlock t => some t
  | .got _ t => some t
  | .allocGot t => some t
  | .allocated t => some t
  | .change _ _ _ t => some t
  | .rel t => some t
  | _ => none

/-- The new thread, `USED`, that an agent is about to make `RUNNABLE` or to free. -/
def claimOf : Pc T → Option T
  | .change .alloc _ .set t => some t
  | .allocated t => some t
  | .created t => some t
  | .want .ready t => some t
  | .got .ready t => some t
  | .change .ready _ .remove t => some t
  | .change .abort _ .remove t => some t
  | _ => none

/-- `c->thread` by the program counter. -/
def threadOf : Pc T → Option T
  | .switched t => some t
  | .run t => some t
  | .back t => some t
  | .change .own _ _ t => some t
  | _ => none

/-- The states a call of `tcb_q_change_state` changes to. -/
def Change.target : Change → TcbState → Prop
  | .own, st => st = .runnable ∨ st = .sleeping ∨ st = .unused
  | .alloc, st => st = .used
  | .wake, st => st = .runnable
  | .ready, st => st = .runnable
  | .abort, st => st = .unused
  | .free, st => st = .unused

/-- The home of a tcb before it is unlinked, where the hand and the claim do not say it. -/
def Change.before (home : Option TcbState) (state : TcbState) : Change → Prop
  | .wake => home = some .sleeping
  | .free => home = some state
  | .own => True
  | .alloc => True
  | .ready => True
  | .abort => True

/-- What an agent knows of the tcb it has locked. -/
def LocalOk (home : T → Option TcbState) (state : T → TcbState) : Pc T → Prop
  | .locked t => state t = .runnable
  | .marked t => state t = .running
  | .switched t => state t = .running
  | .back t => home t = some (state t)
  | .unlock t => home t = some (state t)
  | .got _ t => home t = some (state t)
  | .allocated t => home t = some (state t)
  | .rel t => home t = some (state t)
  | .change k st .remove t => k.target st ∧ k.before (home t) (state t)
  | .change k st .push t => k.target st ∧ home t = none
  | .change k st .set t => k.target st ∧ home t = some st
  | .freeproc _ _ => False
  | _ => True

/-- **The invariant**, for a given home of every tcb. -/
structure SchedInv (s : SchedState A T) (home : T → Option TcbState) : Prop where
  placed : Placed s.tcbs.queue (handOf ∘ s.pc) home
  running_nil : s.tcbs.queue .running = []
  held : Held (heldOf ∘ s.pc) s.lock
  free : ∀ t, s.lock t = none → home t = some (s.tcbs.state t)
  loc : ∀ a, LocalOk home s.tcbs.state (s.pc a)
  claim : ∀ a t, claimOf (s.pc a) = some t → home t = some .used
  claim_inj : ∀ a b t, claimOf (s.pc a) = some t → claimOf (s.pc b) = some t → a = b
  cthread : ∀ a, s.cthread a = threadOf (s.pc a)

variable {s s' : SchedState A T} {home : T → Option TcbState} {a : A} {t : T} {p0 p : Pc T}

variable {k : Change} {st : TcbState}

theorem Change.target_ne_running (h : k.target st) :
    st ≠ .running := by
  rintro rfl
  cases k <;> simp [Change.target] at h

omit [DecidableEq T] in
theorem LocalOk.congr {home' : T → Option TcbState} {state state' : T → TcbState}
    (h : LocalOk home state p)
    (heq : ∀ t, heldOf p = some t → home' t = home t ∧ state' t = state t) :
    LocalOk home' state' p := by
  cases p with
  | locked t | marked t | switched t => exact (heq t rfl).2.trans h
  | back t | unlock t | got path t | allocated t | rel t => simpa only [LocalOk, heq t rfl] using h
  | change k st stage t => cases stage <;> simpa only [LocalOk, heq t rfl] using h
  | freeproc stage t => exact h
  | _ => trivial

/-! ### One agent moves -/

section

omit [DecidableEq T]

/-- **The frame rule.** One agent moves; it may touch the tcb it has locked, and no tcb
that another agent claims. -/
theorem SchedInv.move (hi : SchedInv s home) {home' : T → Option TcbState}
    (hpc : s'.pc = update s.pc a p)
    (hplaced : Placed s'.tcbs.queue (update (handOf ∘ s.pc) a (handOf p)) home')
    (hrun : s'.tcbs.queue .running = [])
    (hheld : Held (update (heldOf ∘ s.pc) a (heldOf p)) s'.lock)
    (hfree : ∀ t, s'.lock t = none → home' t = some (s'.tcbs.state t))
    (hloc : LocalOk home' s'.tcbs.state p) (hothers : ∀ t, heldOf (s.pc a) ≠ some t →
      home' t = home t ∧ s'.tcbs.state t = s.tcbs.state t) (hclaim : ∀ t, claimOf p = some t →
      home' t = some .used ∧ ∀ b, b ≠ a → claimOf (s.pc b) ≠ some t)
    (hclaims : ∀ b t, b ≠ a → claimOf (s.pc b) = some t → home' t = home t)
    (hthread : s'.cthread = update s.cthread a (threadOf p)) :
    SchedInv s' home' := by
  have hself : s'.pc a = p := by simp [hpc]
  have hne : ∀ b, b ≠ a → s'.pc b = s.pc b := fun b hb => by simp [hpc, hb]
  refine ⟨?_, hrun, ?_, hfree, fun b => ?_, fun b u hu => ?_, fun b c u hb hc => ?_,
    fun b => ?_⟩
  · rw [hpc, comp_update]
    exact hplaced
  · rw [hpc, comp_update]
    exact hheld
  · by_cases hb : b = a
    · rwa [hb, hself]
    · rw [hne b hb]
      exact (hi.loc b).congr fun u hu => hothers u fun ha => hb (hi.held.excl hu ha)
  · by_cases hb : b = a
    · rw [hb, hself] at hu
      exact (hclaim u hu).1
    · rw [hne b hb] at hu
      exact (hclaims b u hb hu).trans (hi.claim b u hu)
  · by_cases hba : b = a <;> by_cases hca : c = a
    · rw [hba, hca]
    · rw [hba, hself] at hb
      rw [hne c hca] at hc
      exact absurd hc ((hclaim u hb).2 c hca)
    · rw [hca, hself] at hc
      rw [hne b hba] at hb
      exact absurd hb ((hclaim u hc).2 b hba)
    · rw [hne b hba] at hb
      rw [hne c hca] at hc
      exact hi.claim_inj b c u hb hc
  · by_cases hb : b = a
    · simp [hb, hself, hthread]
    · rw [hthread, hne b hb, update_of_ne hb]
      exact hi.cthread b

/-- What an agent keeps when it moves on without moving a tcb. -/
structure Keeps (p p' : Pc T) : Prop where
  hand : handOf p' = handOf p
  claim : claimOf p' = claimOf p
  thread : threadOf p' = threadOf p

theorem SchedInv.moveOn (hi : SchedInv s home) (hk : Keeps (s.pc a) p)
    (hpc : s'.pc = update s.pc a p) (htcbs : s'.tcbs = s.tcbs)
    (hthread : s'.cthread = s.cthread)
    (hheld : Held (update (heldOf ∘ s.pc) a (heldOf p)) s'.lock)
    (hfree : ∀ t, s'.lock t = none → home t = some (s.tcbs.state t))
    (hloc : LocalOk home s.tcbs.state p) : SchedInv s' home := by
  refine hi.move hpc ?_ (htcbs ▸ hi.running_nil) hheld (htcbs ▸ hfree) (htcbs ▸ hloc)
    (fun u _ => ⟨rfl, by rw [htcbs]⟩) (fun u hu => ?_) (fun _ _ _ _ => rfl) ?_
  · rw [htcbs]
    exact hi.placed.keep hk.hand
  · rw [hk.claim] at hu
    exact ⟨hi.claim a u hu, fun b hb hbu => hb (hi.claim_inj b a u hbu hu)⟩
  · rw [hthread, hk.thread, ← hi.cthread a, update_eq_self]

theorem SchedInv.goto (hi : SchedInv s home) (hp : s.pc a = p0)
    (hloc : LocalOk home s.tcbs.state p) (hk : Keeps p0 p := by exact ⟨rfl, rfl, rfl⟩)
    (hheld : heldOf p = heldOf p0 := by rfl) : SchedInv (s.goto a p) home := by
  subst hp
  exact hi.moveOn hk rfl rfl rfl (hi.held.keep hheld) hi.free hloc

end

section

variable (hi : SchedInv s home)
include hi

theorem SchedInv.acquire (h : acquire s a t p = some s') (hp : s.pc a = p0)
    (hloc : home t = some (s.tcbs.state t) → LocalOk home s.tcbs.state p)
    (hk : Keeps p0 p := by exact ⟨rfl, rfl, rfl⟩) (hheld : heldOf p = some t := by rfl) :
    SchedInv s' home := by
  subst hp
  unfold Sched.acquire at h
  obtain ⟨hlock, rfl⟩ := guard_eq_some.1 h
  refine hi.moveOn hk rfl rfl rfl ?_ (fun u hu => ?_) (hloc (hi.free t hlock))
  · rw [hheld]
    exact hi.held.acquire hlock
  · have hne : u ≠ t := by
      rintro rfl
      simp at hu
    exact hi.free u (by simpa [hne] using hu)

theorem SchedInv.release (hp : s.pc a = p0) (hhome : home t = some (s.tcbs.state t))
    (hloc : LocalOk home s.tcbs.state p) (hk : Keeps p0 p := by exact ⟨rfl, rfl, rfl⟩)
    (hheld : heldOf p0 = some t := by rfl) (hheld' : heldOf p = none := by rfl) :
    SchedInv (release s a t p) home := by
  subst hp
  refine hi.moveOn hk rfl rfl rfl ?_ (fun u hu => ?_) hloc
  · rw [hheld']
    exact hi.held.release hheld
  · by_cases hut : u = t
    · rw [hut, hhome]
    · exact hi.free u (by simpa [hut] using hu)

theorem SchedInv.pop {rest : List T} (hq : s.tcbs.queue st = t :: rest) (hp : s.pc a = p0)
    (hloc : LocalOk home s.tcbs.state p) (hhand : handOf p0 = none := by rfl)
    (hheld : heldOf p0 = none := by rfl) (hthread : threadOf p0 = none := by rfl)
    (hhand' : handOf p = some (t, st) := by rfl) (hheld' : heldOf p = none := by rfl)
    (hclaim' : claimOf p = none := by rfl) (hthread' : threadOf p = none := by rfl) :
    SchedInv ((s.setTcbs (s.tcbs.queueRemove t)).goto a p) home := by
  subst hp
  have hqueue : (s.tcbs.queueRemove t).queue = update s.tcbs.queue st rest :=
    hi.placed.erase_eq_update hq
  refine hi.move (a := a) rfl ?_ ?_ ?_ hi.free hloc (fun _ _ => ⟨rfl, rfl⟩)
    (fun u hu => by rw [hclaim'] at hu; nomatch hu) (fun _ _ _ _ => rfl) ?_
  · change Placed (s.tcbs.queueRemove t).queue _ _
    rw [hqueue, hhand']
    exact hi.placed.pop hq hhand
  · simp [Tcbs.queueRemove, hi.running_nil]
  · exact hi.held.keep (hheld'.trans hheld.symm)
  · rw [hthread', ← hthread, ← hi.cthread a, update_eq_self]
    rfl

theorem SchedInv.setHome {c : Tcbs T} {h : Option TcbState} (hp : s.pc a = p0)
    (hheld : heldOf p0 = some t) (hheld' : heldOf p = some t ∨ heldOf p = none)
    (hplaced : Placed c.queue (update (handOf ∘ s.pc) a (handOf p)) (update home t h))
    (hrun : c.queue .running = []) (hstate : ∀ u, u ≠ t → c.state u = s.tcbs.state u)
    (hclaim : ∀ u, claimOf p = some u → u = t ∧ h = some .used)
    (hclaims : ∀ b, b ≠ a → claimOf (s.pc b) ≠ some t) (hthread : threadOf p = threadOf p0)
    (hloc : LocalOk (update home t h) c.state p) :
    SchedInv ((s.setTcbs c).goto a p) (update home t h) := by
  subst hp
  have hlock : s.lock t = some a := hi.held a t hheld
  refine hi.move (a := a) rfl hplaced hrun ?_ (fun u hu => ?_) hloc (fun u hu => ?_)
    (fun u hu => ?_) (fun b u hb hu => ?_) ?_
  · rcases hheld' with hh | hh
    · exact hi.held.keep (hh.trans hheld.symm)
    · exact hh ▸ hi.held.forget
  · have hne : u ≠ t := by
      rintro rfl
      exact nomatch hlock.symm.trans hu
    rw [update_of_ne hne]
    exact (hi.free u hu).trans (congrArg some (hstate u hne).symm)
  · have hne : u ≠ t := by
      rintro rfl
      exact hu hheld
    exact ⟨update_of_ne hne .., hstate u hne⟩
  · obtain ⟨rfl, rfl⟩ := hclaim u hu
    exact ⟨update_self .., hclaims⟩
  · have hne : u ≠ t := by
      rintro rfl
      exact hclaims b hb hu
    exact update_of_ne hne ..
  · rw [hthread, ← hi.cthread a, update_eq_self]
    rfl

end

/-! ### `tcb_q_change_state` -/

omit [DecidableEq A] [DecidableEq T] in
theorem SchedInv.not_claim (hi : SchedInv s home) (h : home t ≠ some .used) (b : A) :
    claimOf (s.pc b) ≠ some t :=
  fun hb => h (hi.claim b t hb)

omit [DecidableEq A] [DecidableEq T] in
theorem handOf_home (h : handOf p = some (t, st)) :
    st = .runnable ∨ st = .running ∨ st = .unused := by
  unfold handOf at h
  split at h <;> simp_all

section

variable (hi : SchedInv s home)
include hi

omit [DecidableEq A] [DecidableEq T] in
theorem SchedInv.not_hand
    (h : home t = some .used ∨ home t = some .sleeping) (b : A) (st : TcbState) :
    (handOf ∘ s.pc) b ≠ some (t, st) := by
  intro hb
  have hst := (hi.placed.inHand b t st hb).1
  rcases handOf_home hb with rfl | rfl | rfl <;> rcases h with h | h <;>
    exact nomatch hst.symm.trans h

/-- **The unlink.** Afterwards the tcb has no home. -/
theorem SchedInv.remove (hp : s.pc a = .change k st .remove t)
    (hfree : k = .free → s.tcbs.state t = .sleeping ∨
      (s.tcbs.state t = .runnable ∧ t ∈ s.tcbs.queue .runnable)) :
    SchedInv ((s.setTcbs (s.tcbs.queueRemove t)).goto a (.change k st .push t))
      (update home t none) := by
  have hloc := hi.loc a
  rw [hp] at hloc
  -- either the tcb is in the hand of this agent, or in no hand
  have hplaced : Placed (s.tcbs.queueRemove t).queue
      (update (handOf ∘ s.pc) a none) (update home t none) ∧
      ∀ b, b ≠ a → claimOf (s.pc b) ≠ some t := by
    have hinHand : ∀ q, handOf (s.pc a) = some (t, q) → q ≠ .used →
        Placed (s.tcbs.queueRemove t).queue (update (handOf ∘ s.pc) a none)
          (update home t none) ∧ ∀ b, b ≠ a → claimOf (s.pc b) ≠ some t := by
      intro q hq hne
      have hno := hi.placed.not_mem_of_inHand hq
      have hqueue : (s.tcbs.queueRemove t).queue = s.tcbs.queue :=
        funext fun r => List.erase_of_not_mem (hno r)
      refine ⟨hqueue ▸ hi.placed.finish hq, fun b _ => hi.not_claim ?_ b⟩
      rw [(hi.placed.inHand a t q hq).1]
      exact fun h => hne (Option.some.inj h)
    have hlinked : handOf (s.pc a) = none → (∀ b q, (handOf ∘ s.pc) b ≠ some (t, q)) →
        Placed (s.tcbs.queueRemove t).queue (update (handOf ∘ s.pc) a none)
          (update home t none) := by
      intro ha hno
      exact (hi.placed.remove hno).keep ha.symm
    cases k with
    | own => exact hinHand .running (by rw [hp]; rfl) (by decide)
    | alloc => exact hinHand .unused (by rw [hp]; rfl) (by decide)
    | wake =>
      have hhome : home t = some .sleeping := hloc.2
      exact ⟨hlinked (by rw [hp]; rfl) (hi.not_hand (.inr hhome)),
        fun b _ => hi.not_claim (by simp [hhome]) b⟩
    | ready | abort =>
      have hc : claimOf (s.pc a) = some t := by rw [hp]; rfl
      exact ⟨hlinked (by rw [hp]; rfl) (hi.not_hand (.inl (hi.claim a t hc))),
        fun b hb hbt => hb (hi.claim_inj b a t hbt hc)⟩
    | free =>
      have hhome : home t = some (s.tcbs.state t) := hloc.2
      rcases hfree rfl with hst | ⟨hst, hmem⟩
      · rw [hst] at hhome
        exact ⟨hlinked (by rw [hp]; rfl) (hi.not_hand (.inr hhome)),
          fun b _ => hi.not_claim (by simp [hhome]) b⟩
      rw [hst] at hhome
      refine ⟨hlinked (by rw [hp]; rfl) fun b q hb => ?_,
        fun b _ => hi.not_claim (by simp [hhome]) b⟩
      have hq := (hi.placed.inHand b t q hb).1
      obtain rfl : .runnable = q := Option.some.inj (hhome.symm.trans hq)
      exact (hi.placed.mem_iff.1 hmem).2 b hb
  refine hi.setHome hp rfl (.inl rfl) ?_ ?_ (fun _ _ => rfl) ?_ hplaced.2 ?_ ?_
  · have hhand : handOf (.change k st .push t) = none := by cases k <;> rfl
    rw [hhand]
    exact hplaced.1
  · simp [Tcbs.queueRemove, hi.running_nil]
  · intro u hu
    cases k <;> cases hu
  · cases k <;> rfl
  · exact ⟨hloc.1, update_self ..⟩

/-- **The push.** Afterwards the queue of the new state is the home of the tcb. -/
theorem SchedInv.push (hp : s.pc a = .change k st .push t) :
    SchedInv ((s.setTcbs (s.tcbs.queuePushBack st t)).goto a (.change k st .set t))
      (update home t (some st)) := by
  have hloc := hi.loc a
  rw [hp] at hloc
  obtain ⟨htarget, hhome⟩ := hloc
  refine hi.setHome hp rfl (.inl rfl) ?_ ?_ (fun _ _ => rfl) ?_
    (fun b _ => hi.not_claim (by simp [hhome]) b) ?_ ?_
  · have hhand : handOf (.change k st .set t) = (handOf ∘ s.pc) a := by
      rw [comp_apply, hp]
      cases k <;> rfl
    exact (hi.placed.push hhome).keep hhand
  · have hne := Change.target_ne_running htarget
    simp [Tcbs.queuePushBack, hne.symm, hi.running_nil]
  · intro u hu
    cases k with
    | alloc =>
      cases hu
      exact ⟨rfl, congrArg some htarget⟩
    | _ => cases hu
  · cases k <;> rfl
  · exact ⟨htarget, update_self ..⟩

/-- **The assignment.** The state of the tcb becomes its home. -/
theorem SchedInv.set (hp : s.pc a = .change k st .set t) :
    SchedInv ((s.setTcbs (s.tcbs.setState t st)).goto a (k.after t))
      (update home t (some st)) := by
  have hloc := hi.loc a
  rw [hp] at hloc
  obtain ⟨htarget, hhome⟩ := hloc
  refine hi.setHome hp rfl ?_ ?_ hi.running_nil ?_ ?_ ?_ ?_ ?_
  · cases k <;> simp [Change.after, heldOf]
  · have hhand : handOf (k.after t) = (handOf ∘ s.pc) a := by
      rw [comp_apply, hp]
      cases k <;> rfl
    rw [hhand, update_eq_self, ← hhome, update_eq_self]
    exact hi.placed
  · intro u hu
    simp [hu]
  · intro u hu
    cases k with
    | alloc =>
      cases hu
      exact ⟨rfl, congrArg some htarget⟩
    | _ => cases hu
  · intro b hb hbt
    have hused : st = .used := Option.some.inj (hhome.symm.trans (hi.claim b t hbt))
    subst hused
    cases k with
    | alloc => exact hb (hi.claim_inj b a t hbt (by rw [hp]; rfl))
    | _ => simp [Change.target] at htarget
  · cases k <;> rfl
  · cases k <;> simp [Change.after, LocalOk]

end

/-! ### The scheduler -/

theorem SchedInv.toRunning (hi : SchedInv s home) (hp : s.pc a = .locked t) :
    SchedInv ((s.setTcbs (s.tcbs.setState t .running)).goto a (.marked t))
      (update home t (some .running)) := by
  have hhand : (handOf ∘ s.pc) a = some (t, .runnable) := by
    rw [comp_apply, hp]
    rfl
  have hhome := (hi.placed.inHand a t .runnable hhand).1
  refine hi.setHome hp rfl (.inl rfl) (hi.placed.rehome hhand .running)
    hi.running_nil (fun u hu => by simp [hu]) (fun u hu => nomatch hu)
    (fun b _ => hi.not_claim (by simp [hhome]) b) rfl ?_
  simp [LocalOk]

omit [DecidableEq T] in
theorem SchedInv.setThread (hi : SchedInv s home) (hhand : handOf p = handOf (s.pc a))
    (hheld : heldOf p = heldOf (s.pc a)) (hclaim : claimOf p = none)
    (hloc : LocalOk home s.tcbs.state p) :
    SchedInv ((s.setThread a (threadOf p)).goto a p) home := by
  refine hi.move (a := a) rfl ?_ hi.running_nil ?_ hi.free hloc (fun _ _ => ⟨rfl, rfl⟩)
    (fun u hu => by rw [hclaim] at hu; nomatch hu) (fun _ _ _ _ => rfl) rfl
  · exact hi.placed.keep hhand
  · exact hi.held.keep hheld

end XVapor.Sched
