import XVapor.Machine
import XVapor.Tcb

/-!
# Timed Sleeps

A thread that sleeps with a timeout, in `thread_sleep` (`sched/thread.c`) or `futex_wait`
(`ipc/futex.c`), has the tick of its end in `t->timeout`. `clockintr` (`sched/trap.c`) counts the
tick and then scans the pool for a thread whose timeout **is** this tick, and stops at the first.

So a sleep of no tick and the second of two sleeps that end together are never ended, and a
thread that sleeps without a timeout is woken if it still has an old one, which `futex_wait`
leaves behind.

A sleep is one step, up to the switch: the lock of the thread is held. The scan takes one such
lock at a time, so other CPUs run between its visits. `free_thread` and `alloc_thread` clear the
timeout.

## Main results

* `expires_of_reach`: **timed sleeps expire**, and no other sleep is ended by a scan, in every run
  in which a timed sleep takes a tick at least and ends alone, a sleep without a timeout finds no
  old one, and the ticks do not wrap.
-/

namespace XVapor.Timeout

open Function

structure Timespec where
  sec : ℕ
  nsec : ℕ

/-- `TIMESPEC2TICKS`, as a `uint`; the product with `tv_nsec` is a `uint64`. -/
def timespec2ticks (ts : Timespec) : ℕ :=
  (ts.sec * 10 + ts.nsec * 10 % 2 ^ 64 / 1000000000) % 2 ^ 32

structure Tcb where
  state : TcbState
  timeout : ℕ
  /-- It sleeps in `futex_wait`, not in `thread_sleep`. -/
  futex : Bool
  /-- History: the ticks that its sleep is to take, if it has a timeout. -/
  limit : Option ℕ
  /-- History: the ticks since it went to sleep. -/
  since : ℕ

structure State (n : ℕ) where
  ticks : ℕ
  tcb : Fin n → Tcb
  /-- The threads that the scan of `clockintr` has not come to. -/
  scan : List (Fin n)
  /-- History: the limits of the threads that the scans have woken. -/
  woken : List (Option ℕ)

inductive Act (n : ℕ)
  | sleep (t : Fin n) (futex : Bool) (timeout : Option Timespec)
  /-- A wakeup by channel, that of `&ticks` too, by futex or by signal. -/
  | wake (t : Fin n)
  | resume (t : Fin n)
  | free (t : Fin n)
  | alloc (t : Fin n)
  /-- A tick on a CPU that runs `cur`. -/
  | tick (cur : Option (Fin n))
  | visit

variable {n : ℕ} {s s' : State n} {a : Act n}

def State.set (s : State n) (t : Fin n) (b : Tcb) : State n := { s with tcb := update s.tcb t b }

def getTimeoutTicks (s : State n) (ts : Timespec) : ℕ := (timespec2ticks ts + s.ticks) % 2 ^ 32

/-- One round of the loop of `thread_wakeup_timeout`. -/
def visit (s : State n) (t : Fin n) (rest : List (Fin n)) : State n :=
  if (s.tcb t).state = .sleeping ∧ (s.tcb t).timeout = s.ticks then
    { s.set t { s.tcb t with state := .runnable } with
      scan := []
      woken := (s.tcb t).limit :: s.woken }
  else { s with scan := rest }

def step (s : State n) : Act n → Option (State n)
  | .sleep t futex timeout =>
    if (s.tcb t).state = .running then
      some (s.set t ⟨.sleeping, timeout.elim (s.tcb t).timeout (getTimeoutTicks s), futex,
        timeout.map timespec2ticks, 0⟩)
    else none
  | .wake t =>
    if (s.tcb t).state = .sleeping then some (s.set t { s.tcb t with state := .runnable })
    else none
  | .resume t =>
    if (s.tcb t).state = .runnable then
      -- only `thread_sleep` clears the timeout
      let timeout := if (s.tcb t).futex then (s.tcb t).timeout else 0
      some (s.set t { s.tcb t with state := .running, timeout })
    else none
  | .free t =>
    if (s.tcb t).state ≠ .unused then
      some (s.set t { s.tcb t with state := .unused, timeout := 0 })
    else none
  | .alloc t =>
    if (s.tcb t).state = .unused then
      some (s.set t { s.tcb t with state := .runnable, timeout := 0 })
    else none
  | .tick cur =>
    if s.scan = [] ∧ ∀ c ∈ cur, (s.tcb c).state = .running then
      some { s with
        ticks := (s.ticks + 1) % 2 ^ 32
        tcb := fun t => { s.tcb t with since := (s.tcb t).since + 1 }
        scan := (List.finRange n).filter (some · ≠ cur) }
    else none
  | .visit =>
    match s.scan with
    | [] => none
    | t :: rest => some (visit s t rest)

/-- After boot no thread sleeps, and no timeout is set. -/
def timeoutMachine (n : ℕ) : Machine (State n) (Act n) where
  init s := s.ticks = 0 ∧ s.scan = [] ∧ s.woken = [] ∧
    ∀ t, (s.tcb t).state ≠ .sleeping ∧ (s.tcb t).timeout = 0
  step := step

/-- **Timed sleeps expire**: outside of `clockintr`, no thread sleeps that has slept for its ticks,
and for one at least; and the scans have woken no thread without a timeout. -/
def Expires (s : State n) : Prop :=
  (s.scan = [] → ∀ t r, (s.tcb t).state = .sleeping → (s.tcb t).limit = some r →
    (s.tcb t).since = 0 ∨ (s.tcb t).since < r) ∧ none ∉ s.woken

/-- The condition: a sleep with a timeout takes a tick at least and ends at a tick at which no
other sleep does, a sleep without one finds no old timeout, and the ticks do not wrap. -/
def Timely (s : State n) : Act n → Prop
  | .sleep _ _ (some ts) => timespec2ticks ts ≠ 0 ∧
      ∀ u, (s.tcb u).state = .sleeping → (s.tcb u).timeout ≠ getTimeoutTicks s ts
  | .sleep t _ none => (s.tcb t).timeout = 0
  | .tick _ => s.ticks + 1 < 2 ^ 32
  | _ => True

/-- It sleeps with a timeout. -/
def Tcb.Armed (b : Tcb) : Prop := b.state = .sleeping ∧ b.limit ≠ none

/-- A timed sleep has ticks left, or is due and the scan still comes to it. -/
def Tcb.Ok (b : Tcb) (s : State n) (t : Fin n) : Prop :=
  b.state = .sleeping → (b.limit = none → b.timeout = 0) ∧ ∀ r, b.limit = some r →
    0 < r ∧ r < 2 ^ 32 ∧ b.since ≤ r ∧ b.timeout = (s.ticks + (r - b.since)) % 2 ^ 32 ∧
      (b.since = r → t ∈ s.scan)

structure Inv (s : State n) : Prop where
  ticks : s.ticks < 2 ^ 32
  pos : s.scan ≠ [] → 0 < s.ticks
  ok : ∀ t, (s.tcb t).Ok s t
  unique : ∀ t u, (s.tcb t).Armed → (s.tcb u).Armed → (s.tcb t).timeout = (s.tcb u).timeout → t = u
  woken : none ∉ s.woken

theorem Inv.set {t : Fin n} {b : Tcb} (h : Inv s) (hb : b.Ok s t)
    (hne : b.Armed → ∀ u, (s.tcb u).Armed → (s.tcb u).timeout ≠ b.timeout) : Inv (s.set t b) := by
  refine ⟨h.ticks, h.pos, ?_, ?_, h.woken⟩
  · exact (forall_update_iff s.tcb fun u c => c.Ok s u).2 ⟨hb, fun u _ => h.ok u⟩
  intro u v hu hv heq
  by_contra huv
  rcases eq_or_ne u t with rfl | hut
  · simp only [State.set, update_self, update_of_ne (Ne.symm huv)] at hu hv heq
    exact hne hu v hv heq.symm
  rcases eq_or_ne v t with rfl | hvt
  · simp only [State.set, update_self, update_of_ne huv] at hu hv heq
    exact hne hv u hu heq
  · simp only [State.set, update_of_ne hut, update_of_ne hvt] at hu hv heq
    exact huv (h.unique u v hu hv heq)

/-- A thread that the scan finds is due, and it alone. -/
theorem Inv.visit {t : Fin n} {rest : List (Fin n)} (h : Inv s) (hs : s.scan = t :: rest) :
    Inv (visit s t rest) := by
  have hpos := h.pos (by simp [hs])
  have hlt := h.ticks
  unfold Timeout.visit
  split_ifs with hdue
  · obtain ⟨hsl, hto⟩ := hdue
    have harm : (s.tcb t).Armed := ⟨hsl, fun hl => by have := (h.ok t hsl).1 hl; omega⟩
    have hset := h.set (t := t) (b := { s.tcb t with state := .runnable }) nofun nofun
    refine ⟨h.ticks, nofun, fun u hu => ⟨(hset.ok u hu).1, fun r hr => ?_⟩, hset.unique, ?_⟩
    · obtain ⟨h1, h2, h3, h4, -⟩ := (hset.ok u hu).2 r hr
      refine ⟨h1, h2, h3, h4, fun hsince => ?_⟩
      -- a second thread that is due would have the timeout of `t`
      have hut : u ≠ t := by
        rintro rfl
        simp [State.set] at hu
      simp only [State.set, update_of_ne hut] at hu hr h4 hsince
      have := h.unique u t ⟨hu, by simp [hr]⟩ harm (by omega)
      exact absurd this hut
    · simpa using ⟨harm.2.symm, h.woken⟩
  · refine ⟨h.ticks, fun _ => hpos, fun u hu => ⟨(h.ok u hu).1, fun r hr => ?_⟩, h.unique, h.woken⟩
    obtain ⟨h1, h2, h3, h4, h5⟩ := (h.ok u hu).2 r hr
    refine ⟨h1, h2, h3, h4, fun hsince => ?_⟩
    rcases List.mem_cons.1 (hs ▸ h5 hsince) with rfl | hmem
    · exact absurd ⟨hu, by dsimp only at hsince; omega⟩ hdue
    · exact hmem

theorem Inv.step (h : Inv s) (hok : Timely s a) (hs : step s a = some s') : Inv s' := by
  cases a with
  | sleep t futex timeout =>
    obtain ⟨-, rfl⟩ := guard_eq_some.1 hs
    rcases timeout with - | ts
    · exact h.set (fun _ => ⟨fun _ => hok, nofun⟩) fun hb => absurd rfl hb.2
    refine h.set (fun _ => ⟨nofun, ?_⟩) fun _ u hu => hok.2 u hu.1
    rintro r ⟨⟩
    have hr : timespec2ticks ts < 2 ^ 32 := Nat.mod_lt _ (by decide)
    exact ⟨Nat.pos_of_ne_zero hok.1, hr, Nat.zero_le _, by simp [getTimeoutTicks, Nat.add_comm],
      fun h0 => absurd h0.symm hok.1⟩
  | wake t | resume t | free t | alloc t =>
    obtain ⟨-, rfl⟩ := guard_eq_some.1 hs
    exact h.set nofun nofun
  | tick cur =>
    obtain ⟨⟨hscan, hcur⟩, rfl⟩ := guard_eq_some.1 hs
    have hlt : s.ticks + 1 < 2 ^ 32 := hok
    refine ⟨Nat.mod_lt _ (by decide), fun _ => ?_, fun t ht => ⟨(h.ok t ht).1, fun r hr => ?_⟩,
      h.unique, h.woken⟩
    · rw [Nat.mod_eq_of_lt hlt]
      exact Nat.succ_pos _
    · obtain ⟨h1, h2, h3, h4, h5⟩ := (h.ok t ht).2 r hr
      have hleft : (s.tcb t).since ≠ r := fun he => by simpa [hscan] using h5 he
      refine ⟨h1, h2, by dsimp only; omega, by dsimp only at h4 ⊢; omega, fun _ => ?_⟩
      simp only [ne_eq, decide_not, List.mem_filter, List.mem_finRange, true_and]
      have : some t ≠ cur := fun hc => by cases (hcur t hc.symm).symm.trans ht
      simpa using this
  | visit =>
    simp only [Timeout.step] at hs
    split at hs
    · cases hs
    · obtain rfl := Option.some.inj hs
      exact h.visit ‹_›

/-- **Timed sleeps expire** in every run whose sleeps are timely. -/
theorem expires_of_reach (h : (timeoutMachine n).Reach Timely s) : Expires s := by
  have hi : Inv s := by
    refine h.invariant (fun s h0 => ?_) fun s a s' hi hok hs => hi.step hok hs
    obtain ⟨h1, h2, h3, h4⟩ := h0
    exact ⟨by simp [h1], fun hne => absurd h2 hne, fun t ht => absurd ht (h4 t).1,
      fun t _ ht => absurd ht.1 (h4 t).1, by simp [h3]⟩
  refine ⟨fun hscan t r ht hr => ?_, hi.woken⟩
  obtain ⟨-, -, hle, -, hdue⟩ := (hi.ok t ht).2 r hr
  have : (s.tcb t).since ≠ r := fun he => by simpa [hscan] using hdue he
  omega

/-- Two running threads. -/
def boot : State 2 := ⟨0, fun _ => ⟨.running, 0, false, none, 0⟩, [], []⟩

/-- A sleep of a tenth of a second ends at the next tick. -/
theorem expires_one : ∃ s, (timeoutMachine 2).exec boot
    [.sleep 0 true (some ⟨0, 100000000⟩), .tick (some 1), .visit] = some s ∧
      (s.tcb 0).state = .runnable ∧ s.woken = [some 1] ∧ Expires s := by
  have h0 : (timeoutMachine 2).Reach Timely boot := .init ⟨rfl, rfl, rfl, by decide⟩
  have h1 := h0.step (a := Act.sleep 0 true (some ⟨0, 100000000⟩)) ⟨by decide, by decide⟩ rfl
  have h2 := h1.step (a := Act.tick (some 1)) (show 0 + 1 < 2 ^ 32 by decide) rfl
  exact ⟨_, rfl, rfl, rfl, expires_of_reach (h2.step (a := Act.visit) trivial rfl)⟩

/-- Two threads sleep for a tenth of a second, and the second sleeps on; so does a thread that is to
sleep for less, and one without a timeout is woken by its last one. -/
theorem sleeps_on :
    (∃ s, (timeoutMachine 2).exec boot [.sleep 0 true (some ⟨0, 100000000⟩),
      .sleep 1 true (some ⟨0, 100000000⟩), .tick none, .visit] = some s ∧
        (s.tcb 1).state = .sleeping ∧ ¬ Expires s) ∧
    (∃ s, (timeoutMachine 2).exec boot
      [.sleep 0 true (some ⟨0, 0⟩), .tick none, .visit, .visit] = some s ∧
        (s.tcb 0).state = .sleeping ∧ ¬ Expires s) ∧
    ∃ s, (timeoutMachine 2).exec boot [.sleep 0 true (some ⟨0, 100000000⟩), .wake 0, .resume 0,
      .sleep 0 true none, .tick none, .visit] = some s ∧ s.woken = [none] ∧ ¬ Expires s := by
  refine ⟨⟨_, rfl, rfl, fun h => ?_⟩, ⟨_, rfl, rfl, fun h => ?_⟩, _, rfl, rfl, fun h => ?_⟩
  · exact absurd (h.1 rfl 1 1 rfl rfl) (by decide)
  · exact absurd (h.1 rfl 0 0 rfl rfl) (by decide)
  · exact h.2 List.mem_cons_self

end XVapor.Timeout
