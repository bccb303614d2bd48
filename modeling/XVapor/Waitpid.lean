import XVapor.FileTable

/-!
# `waitpid`

`waitpid` calls `wait_one` for any child, if it may block, and `wait4` for a child with a given
pid (`sched/proc.c`). Both scan the process table under `wait_lock`, and sleep and scan again as
long as there is a child and none is a zombie. So a call is a sequence of rounds, and other
processes run between them.

`wait4` is also called with the pid `-1`, when `WNOHANG` is set, and looks for a child with
this pid: there is none, whatever children there are. And both look whether the caller has
been killed before `wait4` looks at `WNOHANG`.

## Main results

* `waitpidOk_iff`: a call is right if and only if it may block, or there is no child, or it is for
  one pid and finds a zombie or a caller that has not been killed.
-/

namespace XVapor.Waitpid

open Function
open Files (ProcId ProcState)

/-! ### The table -/

/-- The fields of a `struct proc` that the calls read. No pid is negative. -/
structure Slot where
  state : ProcState
  parent : Option ProcId
  pid : ℕ
  xstate : BitVec 32
  deriving DecidableEq

/-- The process table, and who has been killed. -/
structure Procs where
  slot : ProcId → Slot
  killed : ProcId → Bool

/-- `freeproc`, for these fields. -/
def Procs.freeproc (s : Procs) (q : ProcId) : Procs :=
  { slot := update s.slot q ⟨.unused, none, 0, 0⟩
    killed := update s.killed q false }

/-- How a round of a call ends: it returns a value, after a status has been stored or not, or
the caller goes to sleep. -/
inductive Round
  | ret (value : ℤ) (status : Option (BitVec 32)) (s : Procs)
  | sleep

/-- The scan of the table: whether there is a child looked for, and the first that is a
zombie. -/
def scanLoop (slot : ProcId → Slot) (target : Slot → Bool) :
    List ProcId → Bool → Bool × Option ProcId
  | [], havekids => (havekids, none)
  | q :: qs, havekids =>
    if target (slot q) then
      if (slot q).state = .zombie then (true, some q) else scanLoop slot target qs true
    else scanLoop slot target qs havekids

/-- What both calls do with a scan. `addr` says whether there is an address for the status, and
`copied` whether `copyout` to it succeeds. -/
def round (s : Procs) (p : ProcId) (target : Slot → Bool) (nohang addr copied : Bool) : Round :=
  match scanLoop s.slot target (List.finRange _) false with
  | (_, some q) =>
    if addr && !copied then .ret (-1) none s
    else .ret (s.slot q).pid (if addr then some (s.slot q).xstate else none) (s.freeproc q)
  | (havekids, none) =>
    if !havekids || s.killed p then .ret (-1) none s
    else if nohang then .ret 0 none s
    else .sleep

/-- A round of `wait_one`. -/
def waitOne (s : Procs) (p : ProcId) (addr copied : Bool) : Round :=
  round s p (fun pp => pp.parent = some p) false addr copied

/-- A round of `wait4`. -/
def wait4 (s : Procs) (p : ProcId) (pid : ℤ) (nohang addr copied : Bool) : Round :=
  round s p (fun pp => pp.parent = some p ∧ pid = pp.pid) nohang addr copied

/-- A round of `waitpid`; `none` is the panic. -/
def waitpid (s : Procs) (p : ProcId) (pid : ℤ) (nohang addr copied : Bool) : Option Round :=
  if pid < -1 ∨ pid = 0 then none
  else if pid = -1 ∧ nohang = false then some (waitOne s p addr copied)
  else some (wait4 s p pid nohang addr copied)

/-! ### The other processes -/

variable {s s' : Procs} {p q : ProcId} {pid : ℤ}

/-- **What the others do** while the caller `p` sleeps: `do_clone` allocates an entry and makes
it a child, or gives it back, and a process exits, is reaped or is killed. -/
inductive Other (initproc p : ProcId) : Procs → Procs → Prop
  | alloc {s : Procs} (q : ProcId) (n : ℕ) :
      (s.slot q).state = .unused → (s.slot q).parent = none →
      Other initproc p s { s with slot := update s.slot q ⟨.used, none, n, 0⟩ }
  | adopt {s : Procs} (q r : ProcId) :
      (s.slot q).state = .used → (s.slot q).parent = none →
      Other initproc p s
        { s with slot := update s.slot q { s.slot q with parent := some r } }
  | abort {s : Procs} (q : ProcId) :
      (s.slot q).state = .used → (s.slot q).parent = none → Other initproc p s (s.freeproc q)
  | exit {s : Procs} (q : ProcId) (status : BitVec 32) : q ≠ p → (s.slot q).state = .used →
      Other initproc p s { s with slot := fun r =>
        { s.slot r with
          state := if r = q then .zombie else (s.slot r).state
          parent := if (s.slot r).parent = some q then some initproc else (s.slot r).parent
          xstate := if r = q then status <<< 8 else (s.slot r).xstate } }
  | reap {s : Procs} (q : ProcId) : (s.slot q).state = .zombie →
      Other initproc p s (s.freeproc q)
  | kill {s : Procs} (killed : ProcId → Bool) : Other initproc p s { s with killed }

/-- The children that the call is about. -/
def Child (s : Procs) (p : ProcId) (pid : ℤ) (q : ProcId) : Prop :=
  (s.slot q).parent = some p ∧ (pid = -1 ∨ pid = (s.slot q).pid)

/-- One of them is a zombie. -/
def Ready (s : Procs) (p : ProcId) (pid : ℤ) : Prop :=
  ∃ q, Child s p pid q ∧ (s.slot q).state = .zombie

/-- A step of the others to a state without a zombie, and with the caller not killed. -/
def Quiet (initproc p : ProcId) (pid : ℤ) (s s' : Procs) : Prop :=
  Other initproc p s s' ∧ ¬ Ready s' p pid ∧ s'.killed p = false

/-- **What `waitpid` should do**, when the status can be stored. The last field is about every
round of a call that may block: as long as there has been no zombie, and the caller has not
been killed, the round ends in sleep. -/
structure WaitpidOk (initproc : ProcId) (s : Procs) (p : ProcId) (pid : ℤ) (nohang addr : Bool) :
    Prop where
  empty : (∀ q, ¬ Child s p pid q) → waitpid s p pid nohang addr true = some (.ret (-1) none s)
  zombie : Ready s p pid → ∃ q, Child s p pid q ∧ (s.slot q).state = .zombie ∧
    waitpid s p pid nohang addr true = some (.ret (s.slot q).pid
      (if addr then some (s.slot q).xstate else none) (s.freeproc q))
  poll : (∃ q, Child s p pid q) → ¬ Ready s p pid → nohang = true →
    waitpid s p pid nohang addr true = some (.ret 0 none s)
  block : (∃ q, Child s p pid q) → ¬ Ready s p pid → nohang = false → s.killed p = false →
    ∀ s', Relation.ReflTransGen (Quiet initproc p pid) s s' →
      waitpid s' p pid nohang addr true = some .sleep

/-! ### Scans -/

/-- **What a scan finds.** -/
theorem scanLoop_eq (slot : ProcId → Slot) (target : Slot → Bool) (l : List ProcId) (kids : Bool) :
    (scanLoop slot target l kids).2 =
        l.find? (fun q => target (slot q) && (slot q).state = .zombie) ∧
      ((scanLoop slot target l kids).2 = none →
        (scanLoop slot target l kids).1 = (kids || l.any fun q => target (slot q))) := by
  induction l generalizing kids with
  | nil => simp [scanLoop]
  | cons q l ih =>
    rw [scanLoop]
    rcases ht : target (slot q) with _ | _
    · obtain ⟨h1, h2⟩ := ih kids
      simpa [ht] using ⟨h1, h2⟩
    by_cases hz : (slot q).state = .zombie
    · simp [ht, hz]
    · obtain ⟨h1, h2⟩ := ih true
      simpa [ht, hz] using ⟨h1, h2⟩

variable {target : Slot → Bool} {nohang addr : Bool}

theorem round_zombie (h : ∃ q, target (s.slot q) = true ∧ (s.slot q).state = .zombie) :
    ∃ q, target (s.slot q) = true ∧ (s.slot q).state = .zombie ∧
      round s p target nohang addr true = .ret (s.slot q).pid
        (if addr then some (s.slot q).xstate else none) (s.freeproc q) := by
  obtain ⟨hfind, -⟩ := scanLoop_eq s.slot target (List.finRange _) false
  cases hscan : scanLoop s.slot target (List.finRange _) false with
  | mk kids found =>
    rw [hscan] at hfind
    obtain _ | q := found
    · obtain ⟨q, hq, hz⟩ := h
      have hno := List.find?_eq_none.1 hfind.symm q (List.mem_finRange q)
      simp [hq, hz] at hno
    have hq := List.find?_some hfind.symm
    simp only [Bool.and_eq_true, decide_eq_true_eq] at hq
    refine ⟨q, hq.1, hq.2, ?_⟩
    rw [round, hscan]
    simp

theorem round_none (h : ∀ q, target (s.slot q) = true → (s.slot q).state ≠ .zombie) :
    round s p target nohang addr true =
      if (∀ q, target (s.slot q) = false) ∨ s.killed p = true then .ret (-1) none s
      else if nohang then .ret 0 none s else .sleep := by
  obtain ⟨hfind, hkids⟩ := scanLoop_eq s.slot target (List.finRange _) false
  have hnone : (scanLoop s.slot target (List.finRange _) false).2 = none := by
    rw [hfind, List.find?_eq_none]
    intro q _
    simpa using h q
  have hiff : (scanLoop s.slot target (List.finRange _) false).1 = false ↔
      ∀ q, target (s.slot q) = false := by
    rw [hkids hnone, Bool.false_or, List.any_eq_false]
    simp
  rw [round]
  generalize scanLoop s.slot target (List.finRange _) false = r at hnone hiff
  obtain ⟨kids, found⟩ := r
  obtain rfl : found = none := hnone
  simp only [Bool.or_eq_true, Bool.not_eq_true', hiff]

/-! ### Calls -/

/-- The entries that the call looks for. -/
def look (p : ProcId) (pid : ℤ) (nohang : Bool) (x : Slot) : Bool :=
  if pid = -1 ∧ nohang = false then x.parent = some p else x.parent = some p ∧ pid = x.pid

theorem waitpid_eq (hpid : pid = -1 ∨ 0 < pid) :
    waitpid s p pid nohang addr true = some (round s p (look p pid nohang) nohang addr true) := by
  rw [waitpid, if_neg (by omega)]
  split
  next h =>
    have hlook : look p pid nohang = fun x => decide (x.parent = some p) :=
      funext fun x => by rw [look, if_pos h]
    rw [hlook, waitOne, h.2]
  next h =>
    have hlook : look p pid nohang = fun x => decide (x.parent = some p ∧ pid = x.pid) :=
      funext fun x => by rw [look, if_neg h]
    rw [hlook, wait4]

theorem look_iff (h : pid ≠ -1 ∨ nohang = false) :
    look p pid nohang (s.slot q) = true ↔ Child s p pid q := by
  by_cases hany : pid = -1
  · have hno := h.resolve_left (not_not_intro hany)
    simp only [look, hany, hno, and_self, if_true, decide_eq_true_eq, Child, true_or, and_true]
  · rw [look, if_neg fun hc => hany hc.1]
    simp only [decide_eq_true_eq, Child, hany, false_or]

theorem look_any_nohang : look p (-1) true (s.slot q) = false := by
  have hpid : ¬ (-1 : ℤ) = (s.slot q).pid := by omega
  simp [look, hpid]

theorem Child.update {x : ProcId} {e : Slot} {killed : ProcId → Bool} (hc : Child s p pid q)
    (hx : x ≠ q) : Child ⟨update s.slot x e, killed⟩ p pid q := by
  simpa only [Child, update_of_ne hx.symm] using hc

variable {initproc : ProcId}

/-- **A child stays a child until it is a zombie.** -/
theorem Other.child (h : Other initproc p s s') (hready : ¬ Ready s p pid)
    (hc : Child s p pid q) : Child s' p pid q := by
  have horphan : ∀ {x}, (s.slot x).parent = none → x ≠ q := by
    rintro x hx rfl
    have hp := hc.1
    rw [hx] at hp
    cases hp
  cases h with
  | alloc x n _ hx | adopt x r _ hx | abort x _ hx => exact hc.update (horphan hx)
  | exit x status hxp _ =>
    have hne : (s.slot q).parent ≠ some x := by
      rw [hc.1]
      exact fun heq => hxp (Option.some.inj heq).symm
    refine ⟨?_, hc.2⟩
    dsimp only
    rw [if_neg hne, hc.1]
  | reap x hx =>
    refine hc.update ?_
    rintro rfl
    exact hready ⟨x, hc, hx⟩
  | kill => exact hc

/-- **A quiet time leaves a child**, and no zombie. -/
theorem Quiet.keeps (hc : ∃ q, Child s p pid q) (hready : ¬ Ready s p pid)
    (hk : s.killed p = false) (h : Relation.ReflTransGen (Quiet initproc p pid) s s') :
    (∃ q, Child s' p pid q) ∧ ¬ Ready s' p pid ∧ s'.killed p = false := by
  induction h with
  | refl => exact ⟨hc, hready, hk⟩
  | tail _ hstep ih =>
    obtain ⟨⟨q, hc⟩, hready, -⟩ := ih
    obtain ⟨hother, hready', hk'⟩ := hstep
    exact ⟨⟨q, hother.child hready hc⟩, hready', hk'⟩

/-- A round that finds nothing returns `-1`. -/
theorem waitpid_nothing (hpid : pid = -1 ∨ 0 < pid)
    (h : ∀ q, look p pid nohang (s.slot q) = false) :
    waitpid s p pid nohang addr true = some (.ret (-1) none s) := by
  have hno : ∀ q, look p pid nohang (s.slot q) = true → (s.slot q).state ≠ .zombie := by
    intro q hq
    rw [h q] at hq
    cases hq
  rw [waitpid_eq hpid, round_none hno, if_pos (.inl h)]

theorem waitpidOk_of_look (hpid : pid = -1 ∨ 0 < pid) (hlook : pid ≠ -1 ∨ nohang = false)
    (hkill : nohang = true → (∃ q, Child s p pid q) → ¬ Ready s p pid → s.killed p = false) :
    WaitpidOk initproc s p pid nohang addr := by
  have hnone : ∀ {s : Procs}, ¬ Ready s p pid →
      ∀ q, look p pid nohang (s.slot q) = true → (s.slot q).state ≠ .zombie :=
    fun hready q hq hz => hready ⟨q, (look_iff hlook).1 hq, hz⟩
  have hsome : ∀ {s : Procs}, (∃ q, Child s p pid q) → s.killed p = false →
      ¬ ((∀ q, look p pid nohang (s.slot q) = false) ∨ s.killed p = true) := by
    rintro s ⟨q, hq⟩ hk (hall | hk')
    · have hq' := (look_iff hlook).2 hq
      rw [hall q] at hq'
      cases hq'
    · rw [hk] at hk'
      cases hk'
  constructor
  case empty =>
    intro hempty
    refine waitpid_nothing hpid fun q => ?_
    rw [← Bool.not_eq_true, look_iff hlook]
    exact hempty q
  case zombie =>
    rintro ⟨q, hq, hz⟩
    have hex : ∃ q, look p pid nohang (s.slot q) = true ∧ (s.slot q).state = .zombie :=
      ⟨q, (look_iff hlook).2 hq, hz⟩
    obtain ⟨q', hq', hz', hround⟩ := round_zombie hex
    exact ⟨q', (look_iff hlook).1 hq', hz', by rw [waitpid_eq hpid, hround]⟩
  case poll =>
    intro hc hready hno
    rw [waitpid_eq hpid, round_none (hnone hready), if_neg (hsome hc (hkill hno hc hready)),
      if_pos hno]
  case block =>
    intro hc hready hno hk s' h
    obtain ⟨hc', hready', hk'⟩ := Quiet.keeps hc hready hk h
    rw [waitpid_eq hpid, round_none (hnone hready'), if_neg (hsome hc' hk'), hno]
    rfl

/-- **When `waitpid` does what it should**: it may block, or there is no child, or it is called
for one pid and there is a zombie or the caller has not been killed. -/
theorem waitpidOk_iff {initproc : ProcId} (hpid : pid = -1 ∨ 0 < pid) :
    WaitpidOk initproc s p pid nohang addr ↔
      nohang = false ∨ (∀ q, ¬ Child s p pid q) ∨
        (pid ≠ -1 ∧ (Ready s p pid ∨ s.killed p = false)) := by
  constructor
  · intro h
    by_contra hcon
    push Not at hcon
    obtain ⟨hno, hc, hrest⟩ := hcon
    obtain rfl : nohang = true := by simpa using hno
    by_cases hany : pid = -1
    · -- `wait4` looks for the pid `-1`, and finds nothing
      subst hany
      have hret : waitpid s p (-1) true addr true = some (.ret (-1) none s) :=
        waitpid_nothing hpid fun _ => look_any_nohang
      by_cases hready : Ready s p (-1)
      · obtain ⟨q, -, -, hq⟩ := h.zombie hready
        rw [hret] at hq
        have hval : (-1 : ℤ) = (s.slot q).pid := (Round.ret.inj (Option.some.inj hq)).1
        omega
      · have hq := h.poll hc hready rfl
        rw [hret] at hq
        exact absurd (Round.ret.inj (Option.some.inj hq)).1 (by decide)
    · -- the caller has been killed, which is looked at before `WNOHANG`
      obtain ⟨hready, hk⟩ := hrest hany
      have hk : s.killed p = true := by simpa using hk
      have hq := h.poll hc hready rfl
      rw [waitpid_eq hpid, round_none (fun q hq hz =>
        hready ⟨q, (look_iff (.inl hany)).1 hq, hz⟩), if_pos (.inr hk)] at hq
      exact absurd (Round.ret.inj (Option.some.inj hq)).1 (by decide)
  · rintro (rfl | hempty | ⟨hany, hor⟩)
    · exact waitpidOk_of_look hpid (.inr rfl) nofun
    · refine ⟨fun _ => waitpid_nothing hpid fun q => ?_, fun ⟨q, hq, _⟩ => absurd hq (hempty q),
        fun ⟨q, hq⟩ => absurd hq (hempty q), fun ⟨q, hq⟩ => absurd hq (hempty q)⟩
      by_cases hlook : pid ≠ -1 ∨ nohang = false
      · rw [← Bool.not_eq_true, look_iff hlook]
        exact hempty q
      · push Not at hlook
        obtain ⟨rfl, hno⟩ := hlook
        obtain rfl : nohang = true := by simpa using hno
        exact look_any_nohang
    · exact waitpidOk_of_look hpid (.inl hany) fun _ _ hready => hor.resolve_left hready

/-! ### Calls of the first process -/

/-- The first process. -/
def p0 : ProcId := ⟨0, Files.nproc_pos⟩

/-- Its child. -/
def p1 : ProcId := ⟨1, Files.one_lt_nproc⟩

/-- The first process, and a zombie child of it. -/
def zombieChild : Procs :=
  ⟨fun q => if q = p0 then ⟨.used, none, 1, 0⟩
    else if q = p1 then ⟨.zombie, some p0, 2, 0x700⟩ else ⟨.unused, none, 0, 0⟩, fun _ => false⟩

/-- `waitpid` for the child's pid does what it should. -/
theorem waitpidOk_pid : WaitpidOk p0 zombieChild p0 2 true true :=
  (waitpidOk_iff (.inr (by decide))).2 (.inr (.inr ⟨by decide, .inr rfl⟩))

/-- **A zombie is not reaped**: `waitpid` for any child with `WNOHANG` returns `-1`. -/
theorem waitpid_any_nohang : Child zombieChild p0 (-1) p1 ∧ (zombieChild.slot p1).state = .zombie ∧
    waitpid zombieChild p0 (-1) true true true = some (.ret (-1) none zombieChild) ∧
    ¬ WaitpidOk p0 zombieChild p0 (-1) true true := by
  have hchild : Child zombieChild p0 (-1) p1 := ⟨rfl, .inl rfl⟩
  have hret : waitpid zombieChild p0 (-1) true true true = some (.ret (-1) none zombieChild) :=
    waitpid_nothing (.inl rfl) fun _ => look_any_nohang
  refine ⟨hchild, rfl, hret, fun h => ?_⟩
  obtain ⟨q, -, -, hq⟩ := h.zombie ⟨p1, hchild, rfl⟩
  rw [hret] at hq
  have hval : (-1 : ℤ) = (zombieChild.slot q).pid := (Round.ret.inj (Option.some.inj hq)).1
  omega

end XVapor.Waitpid
