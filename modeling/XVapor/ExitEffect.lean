import XVapor.ExitWait

/-!
# What a Step Does

The roles of the threads in exits, waits and clones, and what a step does to them and to the
processes, apart from the locks. Who holds which lock can be read off the program counters
(`Locks`), and that is used here and nowhere else: each step is one of a few effects, and an
effect comes with what the locks say about the other threads.
-/

namespace XVapor.ExitWait

open Function
open Files (ProcState)

variable {K T : Type}

/-! ### Locks -/

/-- The thread holds `wait_lock`. -/
def Pc.holdsWait : Pc K T → Option Unit
  | .exitLast _ _ | .reparent _ _ _ | .rewake _ _ _ _ | .wakeParent _ _ _ | .exitLock _ _
  | .zombie _ _ | .exitUnwait _ | .scan _ _ _ | .childLock _ _ _ | .child _ _ _ | .reapLast _ _
  | .freeTable _ _ | .reset _ _ | .reapUnlast _ | .reapUnlock _ | .unwait | .sleepLock _
  | .sleepUnwait _ => some ()
  | _ => none

/-- The process whose lock the thread holds. -/
def Pc.holdsLock : Pc K T → Option K
  | .zombie k _ | .exitUnwait k | .exitUnlock k | .child _ k _ | .reapLast k _ | .freeTable k _
  | .reset k _ | .reapUnlast k | .reapUnlock k | .cloneInit k | .cloneTcb k | .tcbLock k _
  | .tcbInit k _ | .tcbUnlock k _ | .cloneUnlock k _ => some k
  | _ => none

/-- The process whose `lth_exitlock` the thread holds. -/
def Pc.holdsLast : Pc K T → Option K
  | .reparent k _ _ | .rewake k _ _ _ | .wakeParent k _ _ | .exitLock k _ | .zombie k _
  | .exitUnwait k | .exitUnlock k | .unlink k true | .lockTcb k true | .freeTcb k true | .unlast k
  | .freeTable k _ | .reset k _ | .reapUnlast k => some k
  | _ => none

/-- The thread whose lock the thread `t` holds. -/
def Pc.holdsTcb (t : T) : Pc K T → Option T
  | .freeTcb _ _ | .unlast _ | .sched | .switched | .sleepUnwait _ | .sleepMark _ | .sleepSwitch _
  | .resumed _ => some t
  | .tcbInit _ u | .tcbUnlock _ u => some u
  | _ => none

/-- The lock words name the threads that hold the locks. -/
structure LocksOk (waitLock : Option T) (lock lastLock : K → Option T) (tcbLock : T → Option T)
    (pc : T → Pc K T) : Prop where
  wait : Held (fun t => (pc t).holdsWait) fun _ => waitLock
  lock : Held (fun t => (pc t).holdsLock) lock
  last : Held (fun t => (pc t).holdsLast) lastLock
  tcb : Held (fun t => (pc t).holdsTcb t) tcbLock

/-- The lock words of a state. -/
abbrev Locks (s : St K T) : Prop := LocksOk s.waitLock s.lock s.lastLock s.tcbLock s.pc

/-! ### Roles -/

/-- How far the last thread of a process is. -/
inductive Stage (T : Type)
  | early
  /-- The threads of the first process that are still to be woken, in `reparent`. -/
  | rewaking (ts : List T)
  /-- The threads of the parent that are still to be woken. -/
  | pending (ts : List T)
  | after
  /-- It is on no list of threads any more. -/
  | unlinked

/-- The process is a zombie. -/
def Stage.dead : Stage T → Bool
  | .after | .unlinked => true
  | _ => false

/-- What a thread is doing, apart from locks. -/
inductive Role (K T : Type)
  /-- It belongs to no process; `own` as long as it is on the way out. -/
  | gone (own : Bool)
  | fresh
  | out
  /-- It waits, has still to look at the processes in the list, and is asleep or about to be. -/
  | watching (g : Target) (l : List K) (doze : Bool)
  | leaving (k : K) (last : Bool) (stage : Stage T)
  | reaping (q : K) (v : Found)
  | popped (k : K)
  | making (k : K)
  | taking (k : K) (u : T)
  | made (k : K) (u : T)

def Pc.role : Pc K T → Role K T
  | .unused => .gone false
  | .unlast _ | .sched | .switched => .gone true
  | .fresh => .fresh
  | .user | .exit _ | .wait _ | .woken _ | .resumed _ | .unwait | .reapUnlast _
  | .reapUnlock _ => .out
  | .exitWait k _ | .exitLast k _ | .reparent k _ _ => .leaving k true .early
  | .rewake k _ _ ts => .leaving k true (.rewaking ts)
  | .wakeParent k _ ts => .leaving k true (.pending ts)
  | .exitLock k _ | .zombie k _ => .leaving k true (.pending [])
  | .exitUnwait k | .exitUnlock k => .leaving k true .after
  | .unlink k b => .leaving k b .after
  | .lockTcb k b | .freeTcb k b => .leaving k b .unlinked
  | .scan g l _ => .watching g l false
  | .childLock g q l | .child g q l => .watching g (q :: l) false
  | .sleepLock g | .sleepUnwait g => .watching g [] false
  | .sleepMark g | .sleepSwitch g | .asleep g => .watching g [] true
  | .reapLast q v | .freeTable q v | .reset q v => .reaping q v
  | .cloneLock k | .cloneInit k => .popped k
  | .cloneTcb k => .making k
  | .tcbLock k u | .tcbInit k u => .taking k u
  | .tcbUnlock k u | .cloneUnlock k u | .cloneParent k u | .cloneRun k u => .made k u

/-- The state without locks, and with roles. -/
structure Core (K T : Type) where
  state : K → ProcState
  parent : K → Option K
  pid : K → ℕ
  xstate : K → BitVec 32
  unusedProc : K → Bool
  threadCnt : K → ℤ
  linked : T → Option K
  proc : T → Option K
  unusedTcb : T → Bool
  role : T → Role K T
  nextPid : ℕ
  exits : List (ℕ × BitVec 32)
  reaps : List Found
  procExits : K → ℕ
  frees : T → ℕ

def St.core (s : St K T) : Core K T :=
  ⟨s.state, s.parent, s.pid, s.xstate, s.unusedProc, s.threadCnt, s.linked, s.proc, s.unusedTcb,
    fun t => (s.pc t).role, s.nextPid, s.exits, s.reaps, s.procExits, s.frees⟩

variable {s : St K T} {t u : T} {k : K} {x : Pc K T}

variable {g : Target} {l : List K}

theorem holdsWait_of_watching (h : x.role = .watching g l false) :
    x.holdsWait = some () := by
  cases x <;> cases h <;> rfl

variable {ts : List T}

theorem holdsWait_of_pending (h : x.role = .leaving k true (.pending ts)) :
    x.holdsWait = some () := by
  cases x <;> cases h <;> rfl

theorem holdsLast_of_dead {stage : Stage T} (hd : stage.dead = true)
    (h : x.role = .leaving k true stage) : x.holdsLast = some k := by
  cases x <;> cases h <;> first | rfl | cases hd

variable {v : Found}

theorem holdsLock_of_reaping (h : x.role = .reaping k v) : x.holdsLock = some k := by
  cases x <;> cases h <;> rfl

theorem holdsTcb_of_gone (h : x.role = .gone true) : x.holdsTcb t = some t := by
  cases x <;> cases h <;> rfl

theorem holdsTcb_of_doze (h : x.role = .watching g l true) :
    x.holdsTcb t = some t ∨ x = .asleep g := by
  cases x <;> cases h <;> first | exact .inl rfl | exact .inr rfl

/-- The process that a thread is making, before the process has a thread. -/
def Role.maker : Role K T → Option K
  | .popped k | .making k | .taking k _ => some k
  | _ => none

/-- The thread that a thread has allocated and not yet made runnable. -/
def Role.hand : Role K T → Option T
  | .taking _ u | .made _ u => some u
  | _ => none

/-- The thread belongs to no process. -/
def Role.isGone : Role K T → Bool
  | .gone _ => true
  | _ => false

theorem pc_of_gone (h : x.role.isGone = true) : x = .unused ∨ x.role = .gone true := by
  cases x <;> first | exact .inl rfl | exact .inr rfl | cases h

theorem pc_rewake_of_role (h : x.role = .leaving k true (.rewaking ts)) :
    ∃ status l, x = .rewake k status l ts := by
  cases x <;> cases h
  exact ⟨_, _, rfl⟩

/-- **Who belongs to which process.** -/
structure Groups (C : Core K T) : Prop where
  gone : ∀ t, C.proc t = none ↔ (C.role t).isGone = true
  leaving : ∀ t k b stage, C.role t = .leaving k b stage → C.proc t = some k
  linked : ∀ t k, C.linked t = some k → C.proc t = some k
  last : ∀ t k stage, C.role t = .leaving k true stage → ∀ u, C.proc u = some k → u = t
  state : ∀ t k, C.proc t = some k →
    C.state k = .used ∨
      C.state k = .zombie ∧ ∃ stage, stage.dead = true ∧ C.role t = .leaving k true stage
  dead : ∀ t k stage, C.role t = .leaving k true stage → stage.dead = true → C.state k = .zombie
  unlinked : ∀ t k b, C.role t = .leaving k b .unlinked → C.linked t = none
  freed : ∀ t, C.role t = .gone true → C.frees t = 1
  unfreed : ∀ t, C.proc t ≠ none → C.frees t = 0
  reaping : ∀ t q v, C.role t = .reaping q v → C.state q = .zombie

/-- **What is being allocated.** -/
structure Hands (C : Core K T) : Prop where
  unusedProc : ∀ k, C.unusedProc k = true → C.state k = .unused
  popped : ∀ t k, C.role t = .popped k → C.state k = .unused
  making : ∀ t k, C.role t = .making k → C.state k = .used
  taking : ∀ t k u, C.role t = .taking k u → C.state k = .used
  maker : ∀ t k, (C.role t).maker = some k → C.unusedProc k = false ∧ ∀ u, C.proc u ≠ some k
  maker_inj : ∀ t t' k, (C.role t).maker = some k → (C.role t').maker = some k → t = t'
  unusedTcb : ∀ u, C.unusedTcb u = true → (C.role u).isGone = true
  taken : ∀ t k u, C.role t = .taking k u → C.unusedTcb u = false ∧ (C.role u).isGone = true
  made : ∀ t k u, C.role t = .made k u → C.role u = .fresh ∧ C.proc u = some k
  hand_inj : ∀ t t' u, (C.role t).hand = some u → (C.role t').hand = some u → t = t'

variable [DecidableEq T]

/-- The thread changes its role. -/
def Core.go (C : Core K T) (t : T) (r : Role K T) : Core K T :=
  { C with role := update C.role t r }

variable {C : Core K T} {r r' : Role K T}

theorem Core.role_of_go (h : (C.go t r).role u = r') (hr : r ≠ r') : C.role u = r' := by
  obtain rfl | hu := eq_or_ne u t
  · exact absurd (by simpa [Core.go] using h) hr
  · simpa [Core.go, hu] using h

theorem Core.role_go (h : C.role u = r') (ht : C.role t ≠ r') :
    (C.go t r).role u = r' := by
  have hu : u ≠ t := by
    rintro rfl
    exact ht h
  simpa [Core.go, hu] using h

variable [DecidableEq K]

/-- **The effects.** The premises about other threads are what the locks say. -/
inductive Effect (c : Conf K T) (C : Core K T) : Core K T → Prop
  | keep : Effect c C C
  | look (t : T) (g : Target) : C.role t = .out →
      Effect c C (C.go t (.watching g c.procTable false))
  | skip (t : T) (g : Target) (q : K) (l : List K) : C.role t = .watching g (q :: l) false →
      (C.parent q = C.proc t → g.sees (C.pid q) = true → C.state q ≠ .zombie) →
      Effect c C (C.go t (.watching g l false))
  | doze (t : T) (g : Target) : C.role t = .watching g [] false →
      (∀ u k ts, C.role u ≠ .leaving k true (.pending ts)) →
      Effect c C (C.go t (.watching g [] true))
  | quit (t : T) (g : Target) (l : List K) (doze : Bool) : C.role t = .watching g l doze →
      Effect c C (C.go t .out)
  | find (t : T) (g : Target) (q : K) (l : List K) : C.role t = .watching g (q :: l) false →
      C.state q = .zombie →
      Effect c C (C.go t (.reaping q (C.pid q, if g.addr then some (C.xstate q) else none)))
  | countLast (t : T) (k : K) : C.role t = .out → C.proc t = some k → C.threadCnt k = 1 →
      (∀ u, C.proc u = some k → u = t) →
      Effect c C ({ C with
        threadCnt := update C.threadCnt k (C.threadCnt k - 1)
        procExits := update C.procExits k (C.procExits k + 1) }.go t
          (.leaving k true .early))
  | count (t : T) (k : K) : C.role t = .out → C.proc t = some k → C.threadCnt k ≠ 1 →
      Effect c C ({ C with threadCnt := update C.threadCnt k (C.threadCnt k - 1) }.go t
        (.leaving k false .after))
  | reparent (t : T) (k q : K) : C.role t = .leaving k true .early →
      (∀ u k ts, C.role u ≠ .leaving k true (.pending ts)) →
      Effect c C ({ C with parent := update C.parent q (some c.initproc) }.go t
        (.leaving k true (.rewaking c.tcbPool)))
  | rewoken (t : T) (k : K) : C.role t = .leaving k true (.rewaking []) →
      Effect c C (C.go t (.leaving k true .early))
  | rewake (t : T) (k : K) (w : T) (ts : List T) :
      C.role t = .leaving k true (.rewaking (w :: ts)) →
      (∀ u g l, C.role u ≠ .watching g l false) →
      (∀ g l, C.role w = .watching g l true → C.proc w ≠ some c.initproc) →
      Effect c C (C.go t (.leaving k true (.rewaking ts)))
  | reparented (t : T) (k : K) : C.role t = .leaving k true .early →
      Effect c C (C.go t (.leaving k true (.pending c.tcbPool)))
  | wake (t : T) (k : K) (w : T) (ts : List T) : C.role t = .leaving k true (.pending (w :: ts)) →
      (∀ g l, C.role w = .watching g l true → C.proc w ≠ C.parent k) →
      Effect c C (C.go t (.leaving k true (.pending ts)))
  | zombie (t : T) (k : K) (status : BitVec 32) : C.role t = .leaving k true (.pending []) →
      (∀ u g l, C.role u ≠ .watching g l false) → (∀ u v, C.role u ≠ .reaping k v) →
      Effect c C ({ C with
        xstate := update C.xstate k (status <<< 8)
        state := update C.state k .zombie
        exits := C.exits ++ [(C.pid k, status)] }.go t (.leaving k true .after))
  | unlink (t : T) (k : K) (b : Bool) : C.role t = .leaving k b .after →
      Effect c C ({ C with linked := update C.linked t none }.go t
        (.leaving k b .unlinked))
  | free (t : T) (k : K) (b : Bool) : C.role t = .leaving k b .unlinked →
      Effect c C ({ C with
        proc := update C.proc t none
        unusedTcb := update C.unusedTcb t true
        frees := update C.frees t (C.frees t + 1) }.go t (.gone true))
  | off (t : T) : C.role t = .gone true → Effect c C (C.go t (.gone false))
  | reset (t : T) (q : K) (v : Found) : C.role t = .reaping q v →
      (∀ u v', C.role u = .reaping q v' → u = t) → (∀ u, C.proc u ≠ some q) →
      Effect c C ({ C with
        pid := update C.pid q 0
        parent := update C.parent q none
        xstate := update C.xstate q 0
        state := update C.state q .unused
        unusedProc := update C.unusedProc q true
        reaps := C.reaps ++ [v] }.go t .out)
  | pop (t : T) (k : K) : C.role t = .out → C.unusedProc k = true →
      Effect c C ({ C with unusedProc := update C.unusedProc k false }.go t (.popped k))
  | init (t : T) (k : K) : C.role t = .popped k →
      Effect c C ({ C with
        pid := update C.pid k C.nextPid
        nextPid := C.nextPid + 1
        state := update C.state k .used
        threadCnt := update C.threadCnt k 0
        procExits := update C.procExits k 0 }.go t (.making k))
  | alloc (t : T) (k : K) (u : T) : C.role t = .making k → C.unusedTcb u = true →
      Effect c C ({ C with unusedTcb := update C.unusedTcb u false }.go t (.taking k u))
  | join (t : T) (k : K) (u : T) : C.role t = .taking k u → C.role u = .gone false →
      Effect c C (({ C with
        proc := update C.proc u (some k)
        linked := update C.linked u (some k)
        threadCnt := update C.threadCnt k (C.threadCnt k + 1)
        frees := update C.frees u 0 }.go u .fresh).go t (.made k u))
  | adopt (t : T) (k : K) (u : T) : C.role t = .made k u →
      Effect c C ({ C with parent := update C.parent k (C.proc t) }.go t (.made k u))
  | run (t : T) (k : K) (u : T) : C.role t = .made k u → Effect c C ((C.go u .out).go t .out)

/-- What a step does is one effect, or two: a wakeup changes the role of another thread. -/
def Effects (c : Conf K T) (C C' : Core K T) : Prop := ∃ C1, Effect c C C1 ∧ Effect c C1 C'

/-! ### Lock words -/

variable {c : Conf K T} {s' : St K T} {x0 : Pc K T}
  {w : Option T} {l e : K → Option T} {tl : T → Option T} {pc : T → Pc K T}

section

omit [DecidableEq K]

theorem Held.of_update {L : Type} {f : T → Pc K T → Option L} {lock : L → Option T}
    (h : Held (update (fun u => f u (pc u)) t (f t x)) lock) :
    Held (fun u => f u (update pc t x u)) lock := by
  have heq := funext (apply_update f pc t x)
  rwa [heq]

namespace LocksOk

theorem move {w' : Option T} {l' e' : K → Option T} {tl' : T → Option T}
    (hw : Held (update (fun u => (pc u).holdsWait) t x.holdsWait) fun _ => w')
    (hl : Held (update (fun u => (pc u).holdsLock) t x.holdsLock) l')
    (he : Held (update (fun u => (pc u).holdsLast) t x.holdsLast) e')
    (ht : Held (update (fun u => (pc u).holdsTcb u) t (x.holdsTcb t)) tl') :
    LocksOk w' l' e' tl' (update pc t x) :=
  ⟨Held.of_update (f := fun _ => Pc.holdsWait) hw, Held.of_update (f := fun _ => Pc.holdsLock) hl,
    Held.of_update (f := fun _ => Pc.holdsLast) he, Held.of_update (f := Pc.holdsTcb) ht⟩

section

variable (h : LocksOk w l e tl pc)
include h

theorem goto (hpc : pc t = x0) (hw : x.holdsWait = x0.holdsWait := by rfl)
    (hl : x.holdsLock = x0.holdsLock := by rfl) (he : x.holdsLast = x0.holdsLast := by rfl)
    (ht : x.holdsTcb t = x0.holdsTcb t := by rfl) : LocksOk w l e tl (update pc t x) := by
  subst hpc
  exact move (h.wait.keep hw) (h.lock.keep hl) (h.last.keep he) (h.tcb.keep ht)

theorem takeWait (hpc : pc t = x0) (hfree : w = none)
    (hx : x.holdsWait = some ()) (hl : x.holdsLock = x0.holdsLock)
    (he : x.holdsLast = x0.holdsLast) (ht : x.holdsTcb t = x0.holdsTcb t) :
    LocksOk (some t) l e tl (update pc t x) := by
  subst hpc
  refine move ?_ (h.lock.keep hl) (h.last.keep he) (h.tcb.keep ht)
  rw [hx]
  have hlock : (fun _ => some t) = update (fun _ : Unit => w) () (some t) :=
    funext fun _ => rfl
  rw [hlock]
  exact h.wait.acquire (l := ()) hfree

theorem dropWait (hpc : pc t = x0) (hx0 : x0.holdsWait = some ())
    (hx : x.holdsWait = none) (hl : x.holdsLock = x0.holdsLock)
    (he : x.holdsLast = x0.holdsLast) (ht : x.holdsTcb t = x0.holdsTcb t) :
    LocksOk none l e tl (update pc t x) := by
  subst hpc
  refine move ?_ (h.lock.keep hl) (h.last.keep he) (h.tcb.keep ht)
  rw [hx]
  have hlock : (fun _ => none) = update (fun _ : Unit => w) () none :=
    funext fun _ => rfl
  rw [hlock]
  exact h.wait.release (l := ()) hx0

theorem forget (hw : x.holdsWait = none) (hl : x.holdsLock = none)
    (he : x.holdsLast = none) (ht : x.holdsTcb t = none) :
    LocksOk w l e tl (update pc t x) := by
  refine move ?_ ?_ ?_ ?_
  · rw [hw]
    exact h.wait.forget
  · rw [hl]
    exact h.lock.forget
  · rw [he]
    exact h.last.forget
  · rw [ht]
    exact h.tcb.forget

end

end LocksOk

end

theorem Locks.wakeup (h : Locks s) (p : Option K) (w : T) : Locks (s.wakeup p w) := by
  unfold St.wakeup
  split
  next g hpc =>
    split
    · exact h.goto hpc
    · exact h
  next => exact h

/-! ### Effects -/

omit [DecidableEq K] in
theorem core_goto (s : St K T) (t : T) (x : Pc K T) : (s.goto t x).core = s.core.go t x.role := by
  have hrole := funext (apply_update (fun _ => Pc.role) s.pc t x)
  simp only [St.core, St.goto, Core.go, hrole]

theorem Effects.one {C' : Core K T} (h : Effect c C C') : Effects c C C' := ⟨C, .keep, h⟩

theorem Effects.keep (hpc : s.pc t = x0) (hr : x.role = x0.role) :
    Effects c s.core (s.goto t x).core := by
  have hrole : update s.core.role t x.role = s.core.role := by
    rw [hr, ← hpc]
    exact update_eq_self t _
  rw [core_goto, Core.go, hrole]
  exact .one .keep

theorem Effects.goto (h : Effect c C (s.core.go t x.role)) :
    Effects c C (s.goto t x).core := by
  rw [core_goto]
  exact .one h

omit [DecidableEq K] [DecidableEq T] in
theorem Locks.no_pending (h : Locks s) (ht : (s.pc t).holdsWait = some ())
    (hw : ∀ k ts, (s.pc t).role ≠ .leaving k true (.pending ts)) (u : T) (k : K) (ts : List T) :
    s.core.role u ≠ .leaving k true (.pending ts) := by
  intro hu
  obtain rfl := h.wait.excl (holdsWait_of_pending hu) ht
  exact hw k ts hu

omit [DecidableEq K] [DecidableEq T] in
theorem Locks.no_watching (h : Locks s) (ht : (s.pc t).holdsWait = some ())
    (hw : ∀ g l, (s.pc t).role ≠ .watching g l false) (u : T) (g : Target) (l : List K) :
    s.core.role u ≠ .watching g l false := by
  intro hu
  obtain rfl := h.wait.excl (holdsWait_of_watching hu) ht
  exact hw g l hu

/-! ### Steps -/

/-- A turn of a wakeup, for a thread whose lock is free: the thread is woken if it sleeps in a
wait of the process, and else it is not about to. -/
theorem wakeup_effect (hl : Locks s) (p : Option K) {w : T} (hfree : s.tcbLock w = none) :
    Effect c s.core (s.wakeup p w).core ∧
      (∀ g l, (s.wakeup p w).core.role w = .watching g l true → (s.wakeup p w).core.proc w ≠ p) ∧
      (∀ u, u ≠ w → (s.wakeup p w).pc u = s.pc u) ∧ (s.wakeup p w).parent = s.parent := by
  have hdoze : ∀ g l, (s.pc w).role = .watching g l true → s.pc w = .asleep g := by
    intro g l hrole
    exact (holdsTcb_of_doze hrole).resolve_left (hl.tcb.ne_of_free hfree w)
  unfold St.wakeup
  split
  next g hpc =>
    split
    next hp =>
      refine ⟨?_, fun g' l' hrole => ?_, fun u hu => update_of_ne hu _ _, rfl⟩
      · rw [core_goto]
        exact .quit w g [] true (congrArg Pc.role hpc)
      · simp [core_goto, Core.go, Pc.role] at hrole
    next hp => exact ⟨.keep, fun _ _ _ => hp, fun _ _ => rfl, rfl⟩
  next hno =>
    refine ⟨.keep, fun g l hrole => ?_, fun _ _ => rfl, rfl⟩
    exact absurd (hdoze g l hrole) (hno g)

omit [DecidableEq K] [DecidableEq T] in
theorem no_proc_of_reaping (hl : Locks s) (hg : Groups s.core) {q : K}
    (hrole : s.core.role t = .reaping q v) (hlast : (s.pc t).holdsLast = some q) (u : T) :
    s.core.proc u ≠ some q := by
  intro hu
  have hz := hg.reaping t q v hrole
  obtain hused | ⟨-, stage, hdead, hu'⟩ := hg.state u q hu
  · rw [hz] at hused
    cases hused
  · -- the last thread still holds the lock
    obtain rfl := hl.last.excl (holdsLast_of_dead hdead hu') hlast
    rw [hrole] at hu'
    cases hu'

omit [DecidableEq K] [DecidableEq T] in
theorem pc_unused_of_taking (hl : Locks s) (hh : Hands s.core) (hrole : s.core.role t = .taking k u)
    (htcb : (s.pc t).holdsTcb t = some u) : s.pc u = .unused := by
  have hgone := (hh.taken t k u hrole).2
  have hut : t ≠ u := by
    rintro rfl
    rw [hrole] at hgone
    cases hgone
  obtain hu | hu := pc_of_gone hgone
  · exact hu
  · -- on its way out the thread would hold its own lock
    exact absurd (hl.tcb.excl htcb (holdsTcb_of_gone hu)) hut

theorem core_join (s : St K T) (k : K) (u : T) : (s.joinThread k u).core = { s.core with
    proc := update s.proc u (some k)
    linked := update s.linked u (some k)
    threadCnt := update s.threadCnt k (s.threadCnt k + 1)
    frees := update s.frees u 0 }.go u .fresh :=
  core_goto ({ s with
    proc := update s.proc u (some k)
    linked := update s.linked u (some k)
    threadCnt := update s.threadCnt k (s.threadCnt k + 1)
    frees := update s.frees u 0 }) u .fresh

/-- **A step keeps the lock words right, and is one of the effects.** -/
theorem next_effect (hl : Locks s) (hg : Groups s.core) (hh : Hands s.core) {b : Bool}
    (hok : Orderly s (.step t b)) (h : next c s t b = some s') :
    Locks s' ∧ Effects c s.core s'.core := by
  cases hpc : s.pc t with simp only [next, hpc, reduceCtorEq, Option.some.injEq] at h
  | exit status =>
    have hrole : s.core.role t = .out := congrArg Pc.role hpc
    rcases hproc : s.proc t with _ | k
    · simp [hproc] at h
    simp only [hproc] at h
    split at h
    next hcnt =>
      split at h
      · cases h
      cases h
      exact ⟨hl.goto hpc, .goto (.countLast t k hrole hproc hcnt
        (hok k (by rw [hpc]; rfl) hproc hcnt))⟩
    next hcnt =>
      cases h
      exact ⟨hl.goto hpc, .goto (.count t k hrole hproc hcnt)⟩
  | exitWait k status =>
    obtain ⟨hfree, rfl⟩ := guard_eq_some.1 h
    exact ⟨hl.takeWait hpc hfree rfl rfl rfl rfl, .keep hpc rfl⟩
  | exitLast k status | reapLast q v =>
    obtain ⟨hfree, rfl⟩ := guard_eq_some.1 h
    exact ⟨.move (hl.wait.keep (hpc ▸ rfl)) (hl.lock.keep (hpc ▸ rfl))
      (hl.last.acquire hfree) (hl.tcb.keep (hpc ▸ rfl)), .keep hpc rfl⟩
  | reparent k status l =>
    have hrole : s.core.role t = .leaving k true .early := congrArg Pc.role hpc
    cases l with simp only [Option.some.injEq] at h
    | nil =>
      subst h
      exact ⟨hl.goto hpc, .goto (.reparented t k hrole)⟩
    | cons q l =>
      split at h
      · cases h
        refine ⟨hl.goto hpc, .goto (.reparent t k q hrole ?_)⟩
        exact hl.no_pending (by rw [hpc]; rfl) (by rw [hpc]; nofun)
      cases h
      exact ⟨hl.goto hpc, .keep hpc rfl⟩
  | rewake k status l ts =>
    have hrole : s.core.role t = .leaving k true (.rewaking ts) := congrArg Pc.role hpc
    cases ts with simp only [Option.some.injEq] at h
    | nil =>
      subst h
      exact ⟨hl.goto hpc, .goto (.rewoken t k hrole)⟩
    | cons w ts =>
      split at h
      next hwt =>
        cases h
        refine ⟨hl.goto hpc, .goto (.rewake t k w ts hrole ?_ ?_)⟩
        · exact hl.no_watching (by rw [hpc]; rfl) (by rw [hpc]; nofun)
        intro g l hw
        rw [hwt, hrole] at hw
        cases hw
      next hwt =>
        obtain ⟨hfree, rfl⟩ := guard_eq_some.1 h
        obtain ⟨heff, hw, hpc', -⟩ := wakeup_effect (c := c) hl (some c.initproc) hfree
        have hpc1 := (hpc' t (Ne.symm hwt)).trans hpc
        refine ⟨(hl.wakeup _ w).goto hpc1, _, heff, ?_⟩
        rw [core_goto]
        refine .rewake t k w ts (congrArg Pc.role hpc1) ?_ hw
        exact (hl.wakeup _ w).no_watching (by rw [hpc1]; rfl) (by rw [hpc1]; nofun)
  | wakeParent k status ts =>
    have hrole : s.core.role t = .leaving k true (.pending ts) := congrArg Pc.role hpc
    cases ts with simp only [Option.some.injEq] at h
    | nil =>
      subst h
      exact ⟨hl.goto hpc, .keep hpc rfl⟩
    | cons w ts =>
      split at h
      next hwt =>
        cases h
        refine ⟨hl.goto hpc, .goto (.wake t k w ts hrole ?_)⟩
        intro g l hw
        rw [hwt, hrole] at hw
        cases hw
      next hwt =>
        obtain ⟨hfree, rfl⟩ := guard_eq_some.1 h
        obtain ⟨heff, hw, hpc', hparent⟩ := wakeup_effect (c := c) hl (s.parent k) hfree
        have hpc1 := (hpc' t (Ne.symm hwt)).trans hpc
        refine ⟨(hl.wakeup _ w).goto hpc1, _, heff, ?_⟩
        rw [core_goto]
        refine .wake t k w ts (congrArg Pc.role hpc1) fun g l hrole => ?_
        rw [show (s.wakeup (s.parent k) w).core.parent = s.parent from hparent]
        exact hw g l hrole
  | exitLock k status | childLock g q l | cloneLock k =>
    obtain ⟨hfree, rfl⟩ := guard_eq_some.1 h
    exact ⟨.move (hl.wait.keep (hpc ▸ rfl)) (hl.lock.acquire hfree)
      (hl.last.keep (hpc ▸ rfl)) (hl.tcb.keep (hpc ▸ rfl)), .keep hpc rfl⟩
  | zombie k status =>
    subst h
    have hrole : s.core.role t = .leaving k true (.pending []) := congrArg Pc.role hpc
    refine ⟨hl.goto hpc, .goto (.zombie t k status hrole ?_ fun u v hu => ?_)⟩
    · exact hl.no_watching (by rw [hpc]; rfl) (by rw [hpc]; nofun)
    · obtain rfl := hl.lock.excl (holdsLock_of_reaping hu)
        (show (s.pc t).holdsLock = some k by rw [hpc]; rfl)
      rw [hrole] at hu
      cases hu
  | exitUnwait k | unwait =>
    subst h
    exact ⟨hl.dropWait hpc rfl rfl rfl rfl rfl, .keep hpc rfl⟩
  | exitUnlock k | reapUnlock q | cloneUnlock k u =>
    subst h
    exact ⟨.move (hl.wait.keep (hpc ▸ rfl)) (hl.lock.release (hpc ▸ rfl))
      (hl.last.keep (hpc ▸ rfl)) (hl.tcb.keep (hpc ▸ rfl)), .keep hpc rfl⟩
  | unlink k last =>
    subst h
    have hrole : s.core.role t = .leaving k last .after := congrArg Pc.role hpc
    refine ⟨hl.goto hpc rfl rfl ?_ rfl, .goto (.unlink t k last hrole)⟩
    cases last <;> rfl
  | lockTcb k last =>
    obtain ⟨hfree, rfl⟩ := guard_eq_some.1 h
    refine ⟨.move (hl.wait.keep (hpc ▸ rfl)) (hl.lock.keep (hpc ▸ rfl))
      (hl.last.keep ?_) (hl.tcb.acquire hfree), .keep hpc rfl⟩
    rw [hpc]
    cases last <;> rfl
  | freeTcb k last =>
    have hrole : s.core.role t = .leaving k last .unlinked := congrArg Pc.role hpc
    split at h
    · cases h
    cases h
    cases last with
    | true => exact ⟨hl.goto hpc, .goto (.free t k true hrole)⟩
    | false => exact ⟨hl.goto hpc, .goto (.free t k false hrole)⟩
  | unlast k | reapUnlast q =>
    subst h
    exact ⟨.move (hl.wait.keep (hpc ▸ rfl)) (hl.lock.keep (hpc ▸ rfl))
      (hl.last.release (hpc ▸ rfl)) (hl.tcb.keep (hpc ▸ rfl)), .keep hpc rfl⟩
  | sched | sleepMark g =>
    subst h
    exact ⟨hl.goto hpc, .keep hpc rfl⟩
  | switched =>
    subst h
    exact ⟨.move (hl.wait.keep (hpc ▸ rfl)) (hl.lock.keep (hpc ▸ rfl))
      (hl.last.keep (hpc ▸ rfl)) (hl.tcb.release (hpc ▸ rfl)), .goto (.off t (congrArg Pc.role hpc))⟩
  | wait g =>
    obtain ⟨hfree, rfl⟩ := guard_eq_some.1 h
    exact ⟨hl.takeWait hpc hfree rfl rfl rfl rfl, .goto (.look t g (congrArg Pc.role hpc))⟩
  | scan g l havekids =>
    have hrole : s.core.role t = .watching g l false := congrArg Pc.role hpc
    cases l with simp only at h
    | nil =>
      split at h
      · cases h
        exact ⟨hl.goto hpc, .goto (.quit t g [] false hrole)⟩
      split at h
      · cases h
        exact ⟨hl.goto hpc, .goto (.quit t g [] false hrole)⟩
      cases h
      exact ⟨hl.goto hpc, .keep hpc rfl⟩
    | cons q l =>
      split at h
      · cases h
        exact ⟨hl.goto hpc, .keep hpc rfl⟩
      rename_i hno
      cases h
      refine ⟨hl.goto hpc, .goto (.skip t g q l hrole ?_)⟩
      exact fun hp hsees => absurd ⟨hp, hsees⟩ hno
  | child g q l =>
    have hrole : s.core.role t = .watching g (q :: l) false := congrArg Pc.role hpc
    split at h
    next hz =>
      split at h
      · cases h
        exact ⟨hl.goto hpc, .goto (.quit t g (q :: l) false hrole)⟩
      cases h
      exact ⟨hl.goto hpc, .goto (.find t g q l hrole hz)⟩
    next hz =>
      cases h
      exact ⟨.move (hl.wait.keep (hpc ▸ rfl)) (hl.lock.release (hpc ▸ rfl))
        (hl.last.keep (hpc ▸ rfl)) (hl.tcb.keep (hpc ▸ rfl)),
        .goto (.skip t g q l hrole fun _ _ => hz)⟩
  | freeTable q v =>
    have hnone := no_proc_of_reaping hl hg (congrArg Pc.role hpc) (by rw [hpc]; rfl)
    have hfilter : (c.tcbPool.filter fun u => s.linked u = some q) = [] :=
      List.filter_eq_nil_iff.2 fun u _ hu => hnone u (hg.linked u q (of_decide_eq_true hu))
    rcases hproc : s.proc t with _ | p
    · simp [hproc] at h
    simp only [hproc, hfilter, St.freeThreads, Option.map_some, Option.some.injEq] at h
    subst h
    exact ⟨hl.goto hpc, .keep hpc rfl⟩
  | reset q v =>
    subst h
    have hrole : s.core.role t = .reaping q v := congrArg Pc.role hpc
    have hlock : (s.pc t).holdsLock = some q := by
      rw [hpc]
      rfl
    refine ⟨hl.goto hpc, .goto (.reset t q v hrole (fun u v' hu => ?_) ?_)⟩
    · exact hl.lock.excl (holdsLock_of_reaping hu) hlock
    · exact no_proc_of_reaping hl hg hrole (by rw [hpc]; rfl)
  | sleepLock g | woken g | tcbLock k u =>
    obtain ⟨hfree, rfl⟩ := guard_eq_some.1 h
    exact ⟨.move (hl.wait.keep (hpc ▸ rfl)) (hl.lock.keep (hpc ▸ rfl))
      (hl.last.keep (hpc ▸ rfl)) (hl.tcb.acquire hfree), .keep hpc rfl⟩
  | sleepUnwait g =>
    subst h
    refine ⟨hl.dropWait hpc rfl rfl rfl rfl rfl, .goto (.doze t g (congrArg Pc.role hpc) ?_)⟩
    exact hl.no_pending (by rw [hpc]; rfl) (by rw [hpc]; nofun)
  | sleepSwitch g | resumed g | tcbUnlock k u =>
    subst h
    exact ⟨.move (hl.wait.keep (hpc ▸ rfl)) (hl.lock.keep (hpc ▸ rfl))
      (hl.last.keep (hpc ▸ rfl)) (hl.tcb.release (hpc ▸ rfl)), .keep hpc rfl⟩
  | cloneInit k =>
    subst h
    exact ⟨hl.goto hpc, .goto (.init t k (congrArg Pc.role hpc))⟩
  | tcbInit k u =>
    subst h
    have hrole : s.core.role t = .taking k u := congrArg Pc.role hpc
    have hpcu := pc_unused_of_taking hl hh hrole (by rw [hpc]; rfl)
    have hu : s.core.role u = .gone false := congrArg Pc.role hpcu
    have hut : t ≠ u := ne_of_values hrole hu nofun
    refine ⟨(hl.forget rfl rfl rfl rfl).goto ((update_of_ne hut _ _).trans hpc)
      rfl rfl rfl rfl, ?_⟩
    rw [core_goto, core_join]
    exact .one (.join t k u hrole hu)
  | cloneParent k u =>
    obtain ⟨-, rfl⟩ := guard_eq_some.1 h
    exact ⟨hl.goto hpc, .goto (.adopt t k u (congrArg Pc.role hpc))⟩
  | cloneRun k u =>
    obtain ⟨-, rfl⟩ := guard_eq_some.1 h
    refine ⟨(hl.forget rfl rfl rfl rfl).forget rfl rfl rfl rfl, ?_⟩
    rw [core_goto, core_goto]
    exact .one (.run t k u (congrArg Pc.role hpc))

/-- **An action keeps the lock words right, and is one of the effects.** -/
theorem act_effect (hl : Locks s) (hg : Groups s.core) (hh : Hands s.core) {a : Act K T}
    (hok : Orderly s a) (h : act c s a = some s') : Locks s' ∧ Effects c s.core s'.core := by
  cases a with
  | exit t status | wait t g =>
    obtain ⟨hpc, rfl⟩ := guard_eq_some.1 h
    exact ⟨hl.goto hpc, .keep hpc rfl⟩
  | clone t k =>
    obtain ⟨⟨hpc, hk⟩, rfl⟩ := guard_eq_some.1 h
    exact ⟨hl.goto hpc, .goto (.pop t k (congrArg Pc.role hpc) hk)⟩
  | allocThread t u =>
    simp only [act] at h
    split at h
    next k hpc =>
      obtain ⟨hu, rfl⟩ := guard_eq_some.1 h
      exact ⟨hl.goto hpc, .goto (.alloc t k u (congrArg Pc.role hpc) hu)⟩
    next => cases h
  | step t b => exact next_effect hl hg hh hok h
  | wake t =>
    simp only [act] at h
    split at h
    next g hpc =>
      obtain ⟨-, rfl⟩ := guard_eq_some.1 h
      exact ⟨hl.goto hpc, .goto (.quit t g [] true (congrArg Pc.role hpc))⟩
    next => cases h

end XVapor.ExitWait
