import XVapor.SchedMachine

/-!
# Round Robin

On one CPU nothing else runs inside `tcb_q_change_state`: its callers hold a spinlock, so
interrupts are off. What interleaves are whole changes of state and the steps of
`thread_scheduler`, which takes the lock of a thread only after it has popped it.

## Main results

* `round_robin`: **the run queue is first in, first out**, as long as no `RUNNABLE` thread is
  freed.
-/

namespace XVapor.OneCpu

open Function
open Sched (OwnCall)
open scoped Sample

/-- Where `thread_scheduler` is: before `queue_pop_atomic`, before `tcb_change2_running`, or
switched to a thread. -/
inductive Cpu (T : Type)
  | loop
  | popped (t : T)
  | run (t : T)

/-- The tcbs and the CPU. The last two fields are not in the source: the threads in the order
in which they were made `RUNNABLE`, and in which they were dispatched. -/
structure State (T : Type) where
  tcbs : Tcbs T
  cpu : Cpu T
  readied : List T
  dispatched : List T

/-- The two steps of `thread_scheduler`, a call of the running thread that ends in
`thread_sched`, and a change of the state of another thread. -/
inductive Act (T : Type)
  | pop
  | switch
  | own (call : OwnCall)
  | move (t : T) (st : TcbState)

/-- The changes of the state of another thread. -/
def moves : TcbState → TcbState → Bool
  | .sleeping, .runnable => true -- a wakeup or a signal
  | .unused, .used => true -- `alloc_thread`
  | .used, .runnable => true -- the end of a clone
  | .running, _ => false
  | _, .unused => true -- `free_thread`
  | _, _ => false

variable {T : Type} [DecidableEq T]

/-- `tcb_q_change_state`. -/
def State.change (s : State T) (t : T) (st : TcbState) : State T :=
  { s with
    tcbs := s.tcbs.tcbQChangeState t st
    readied := s.readied ++ if st = .runnable then [t] else [] }

def step (s : State T) : Act T → Option (State T)
  | .pop =>
    match s.cpu, s.tcbs.queue .runnable with
    | .loop, [] => some s
    | .loop, t :: _ => some ⟨s.tcbs.queueRemove t, .popped t, s.readied, s.dispatched ++ [t]⟩
    | _, _ => none
  | .switch =>
    match s.cpu with
    | .popped t => some { s with tcbs := s.tcbs.setState t .running, cpu := .run t }
    | _ => none
  | .own call =>
    match s.cpu with
    | .run t => some ({ s with cpu := .loop }.change t call.state)
    | _ => none
  | .move t st => if moves (s.tcbs.state t) st then some (s.change t st) else none

/-- After `tcb_init`: every tcb is `UNUSED`. -/
def boot (pool : List T) : State T :=
  ⟨⟨fun _ => .unused, fun st => if st = .unused then pool else []⟩, .loop, [], []⟩

def oneCpu : Machine (State T) (Act T) where
  init s := ∃ pool : List T, pool.Nodup ∧ (∀ t, t ∈ pool) ∧ s = boot pool
  step := step

/-- No `RUNNABLE` thread is freed. -/
def FreesNoRunnable (s : State T) (a : Act T) : Prop :=
  ∀ t, a = .move t .unused → s.tcbs.state t ≠ .runnable

/-- A thread is on the queue of its state, unless it is dispatched, and the threads that were
made `RUNNABLE` and not dispatched are on their queue in order. -/
structure Inv (s : State T) : Prop where
  mem : ∀ st t, t ∈ s.tcbs.queue st ↔
    s.tcbs.state t = st ∧ st ≠ .running ∧ s.cpu ≠ .popped t
  nodup : ∀ st, (s.tcbs.queue st).Nodup
  run : ∀ t, s.cpu = .run t → s.tcbs.state t = .running
  popped : ∀ t, s.cpu = .popped t → s.tcbs.state t = .runnable
  fifo : s.readied = s.dispatched ++ s.tcbs.queue .runnable

/-- The invariant holds later on, and the histories have only grown. -/
def Onward (s s' : State T) : Prop :=
  Inv s' ∧ s.dispatched <+: s'.dispatched ∧ s.readied <+: s'.readied

variable {s s' : State T} {t : T} {st : TcbState} {a : Act T} {as : List (Act T)}

theorem Inv.change (h : Inv s) (ht : s.tcbs.state t ≠ .runnable) (hrun : s.cpu ≠ .run t)
    (hst : st ≠ .running) : Onward s (s.change t st) := by
  have hpop : s.cpu ≠ .popped t := fun hc => ht (h.popped t hc)
  have hnot : t ∉ s.tcbs.queue .runnable := fun hmem => ht ((h.mem _ _).1 hmem).1
  have hne : ∀ u, s.cpu = .run u ∨ s.cpu = .popped u → u ≠ t := by
    rintro u (hu | hu) rfl
    · exact hrun hu
    · exact hpop hu
  refine ⟨⟨fun st' u => ?_, Tcbs.nodup_tcbQChangeState h.nodup, fun u hu => ?_,
    fun u hu => ?_, ?_⟩, List.prefix_rfl, List.prefix_append _ _⟩
  · rw [State.change, Tcbs.mem_tcbQChangeState h.nodup, Tcbs.tcbQChangeState_state, h.mem]
    obtain rfl | hut := eq_or_ne u t
    · simp only [update_self]
      grind
    · simp [hut]
  · simpa [State.change, hne u (.inl hu)] using h.run u hu
  · simpa [State.change, hne u (.inr hu)] using h.popped u hu
  · simp only [State.change, Tcbs.tcbQChangeState, Tcbs.queuePushBack, Tcbs.queueRemove,
      Tcbs.setState_queue, h.fifo, List.append_assoc]
    by_cases hr : st = .runnable
    · simp [hr, List.erase_of_not_mem hnot]
    · simp [hr, Ne.symm hr, List.erase_of_not_mem hnot]

theorem Inv.step (h : Inv s) (hok : FreesNoRunnable s a) (hs : step s a = some s') :
    Onward s s' := by
  cases a with simp only [OneCpu.step] at hs
  | pop =>
    split at hs
    · cases hs
      exact ⟨h, List.prefix_rfl, List.prefix_rfl⟩
    · rename_i t q hcpu hq
      cases hs
      refine ⟨⟨fun st u => ?_, Tcbs.nodup_queueRemove h.nodup, by simp, fun u hu => ?_, ?_⟩,
        List.prefix_append _ _, List.prefix_rfl⟩
      · rw [Tcbs.mem_queueRemove h.nodup, h.mem]
        simp only [Tcbs.queueRemove_state, hcpu, ne_eq, Cpu.popped.injEq, reduceCtorEq]
        grind
      · cases hu
        exact ((h.mem .runnable t).1 (by simp [hq])).1
      · simp [Tcbs.queueRemove, hq, h.fifo]
    · cases hs
  | switch =>
    split at hs
    · rename_i t hcpu
      cases hs
      refine ⟨⟨fun st u => ?_, h.nodup, fun u hu => ?_, by simp, h.fifo⟩, List.prefix_rfl,
        List.prefix_rfl⟩
      · rw [Tcbs.setState_queue, h.mem, hcpu]
        obtain rfl | hut := eq_or_ne u t
        · simp [eq_comm]
        · simp [hut, hut.symm]
      · cases hu
        simp
    · cases hs
  | own call =>
    split at hs
    · rename_i t hcpu
      cases hs
      have hloop : Inv { s with cpu := .loop } :=
        ⟨fun st u => by simpa [hcpu] using h.mem st u, h.nodup, by simp, by simp, h.fifo⟩
      exact hloop.change (by simp [h.run t hcpu]) (by simp) (by cases call <;> simp [OwnCall.state])
    · cases hs
  | move t st =>
    obtain ⟨hm, rfl⟩ := guard_eq_some.1 hs
    refine h.change (fun ht => ?_) (fun hc => ?_) ?_
    · cases st <;> simp [ht, moves] at hm
      exact hok t rfl ht
    · simp [h.run t hc, moves] at hm
    · rintro rfl
      cases hst : s.tcbs.state t <;> simp [hst, moves] at hm

theorem Inv.exec (h : Inv s) (ha : oneCpu.Along FreesNoRunnable s as)
    (he : oneCpu.exec s as = some s') : Onward s s' := by
  induction as generalizing s with
  | nil =>
    cases he
    exact ⟨h, List.prefix_rfl, List.prefix_rfl⟩
  | cons a as ih =>
    obtain ⟨s1, h1, he⟩ := Option.bind_eq_some_iff.1 he
    obtain ⟨hinv, hd, hr⟩ := h.step ha.1 h1
    obtain ⟨hinv', hd', hr'⟩ := ih hinv (ha.2 s1 h1) he
    exact ⟨hinv', hd.trans hd', hr.trans hr'⟩

theorem inv_of_reach (h : oneCpu.Reach FreesNoRunnable s) : Inv s := by
  refine h.invariant ?_ fun s a s' hs hok hstep => (hs.step hok hstep).1
  rintro s ⟨pool, hnodup, hall, rfl⟩
  refine ⟨fun st t => ?_, fun st => ?_, nofun, nofun, rfl⟩
  · cases st <;> simp [boot, hall]
  · cases st <;> simp [boot, hnodup]

/-- **Round robin**, in every run on one CPU in which no `RUNNABLE` thread is freed. The `k`-th
thread of the run queue is the `k`-th that is dispatched. Between two dispatches of a thread,
every thread that was `RUNNABLE` at the first is dispatched once, and once more for each time
it was made `RUNNABLE` again before the other was. -/
theorem round_robin (h : oneCpu.Reach FreesNoRunnable s)
    (ha : oneCpu.Along FreesNoRunnable s as) (he : oneCpu.exec s as = some s') :
    ∃ ds rs, s'.dispatched = s.dispatched ++ ds ∧ s'.readied = s.readied ++ rs ∧
      (∀ k t, (s.tcbs.queue .runnable)[k]? = some t → k < ds.length → ds[k]? = some t) ∧
      ∀ t l, s.cpu = .popped t → ds = l ++ [t] → t ∉ l → ∀ u ≠ t, s.tcbs.state u = .runnable →
        l.count u = 1 + (rs.takeWhile (· ≠ t)).count u := by
  have hi := inv_of_reach h
  obtain ⟨hi', ⟨ds, hds⟩, rs, hrs⟩ := hi.exec ha he
  have hlaw : s.tcbs.queue .runnable ++ rs = ds ++ s'.tcbs.queue .runnable := by
    have hfifo := hi'.fifo
    rw [← hds, ← hrs, hi.fifo, List.append_assoc, List.append_assoc] at hfifo
    exact List.append_cancel_left hfifo
  refine ⟨ds, rs, hds.symm, hrs.symm, fun k t hk hlt => ?_, ?_⟩
  · rw [← List.getElem?_append_left hlt, ← hlaw, List.getElem?_append_left, hk]
    exact (List.getElem?_eq_some_iff.1 hk).1
  · rintro t l hcpu rfl hno u hu hst
    have hnot : t ∉ s.tcbs.queue .runnable := fun hmem => ((hi.mem _ _).1 hmem).2.2 hcpu
    have hmem : u ∈ s.tcbs.queue .runnable :=
      (hi.mem _ _).2 ⟨hst, by simp, by simpa [hcpu] using hu.symm⟩
    -- up to the next `t` both sides of the law are the same
    have hl : s.tcbs.queue .runnable ++ rs.takeWhile (· ≠ t) = l := by
      have htake := congrArg (List.takeWhile (· ≠ t)) hlaw
      rw [List.append_assoc, List.takeWhile_append_of_pos, List.takeWhile_append_of_pos] at htake
      · simpa using htake
      · exact fun x hx => decide_eq_true fun heq => hno (heq ▸ hx)
      · exact fun x hx => decide_eq_true fun heq => hnot (heq ▸ hx)
    rw [← hl, List.count_append, List.count_eq_one_of_mem (hi.nodup _) hmem]

/-- Two threads are made, and the first yields to the second. -/
theorem round_robin_two : ∃ s s' : State (Fin 2), s.tcbs.queue .runnable = [0, 1] ∧
    ∃ ds, s'.dispatched = s.dispatched ++ ds ∧ ds[1]? = some 1 := by
  have hboot : oneCpu.Reach FreesNoRunnable (boot [0, 1] : State (Fin 2)) :=
    .init ⟨[0, 1], by decide, by decide, rfl⟩
  have hmade := hboot.exec_along (show oneCpu.Along _ _
      [.move 0 .used, .move 0 .runnable, .move 1 .used, .move 1 .runnable] by
    simp [Machine.Along, FreesNoRunnable]) rfl
  obtain ⟨ds, rs, hds, -, hk, -⟩ := round_robin hmade
    (show oneCpu.Along _ _ [.pop, .switch, .own .yield, .pop] by
      simp [Machine.Along, FreesNoRunnable]) rfl
  have hlen : ([0, 1] : List (Fin 2)).length = ds.length := congrArg List.length hds
  refine ⟨_, _, ?_, ds, hds, hk 1 1 rfl (hlen ▸ by decide)⟩
  rfl

end XVapor.OneCpu
