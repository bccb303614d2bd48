import XVapor.GroupCount

/-!
# `exit_group`

`sys_exit_group` frees the other threads if the caller is the leader of its group, and then
the caller exits; a caller that is not the leader exits alone. The other threads are not
counted down when they are freed, so `thread_exit` does not find itself to be the last:
**`exit_group` ends a process if and only if the caller is its only thread**.

Beside the tables there is the field `xstate` of the processes, and the list of the threads
that a call passes to `free_thread`.
-/

namespace XVapor.Group

open Function

variable {P T : Type} [DecidableEq P] [DecidableEq T]
variable {s s' : GroupState P T} {p : P} {t : T} {x : P → BitVec 32} {n : BitVec 32}

/-- What a call leaves: the tables, the field `xstate`, and the threads it has freed. -/
structure Outcome (P T : Type) where
  s : GroupState P T
  xstate : P → BitVec 32
  freed : List T

/-- `thread_exit` with its status, after the threads `fs` have been freed. -/
def threadExitStatus (s : GroupState P T) (x : P → BitVec 32) (p : P) (t : T) (n : BitVec 32)
    (fs : List T) : Option (Outcome P T) :=
  (threadExit s p t).map fun s' =>
    ⟨s', if exitsProc s p then update x p (n <<< 8) else x, fs ++ [t]⟩

/-- `sys_exit_group` by the thread `t` of the process `p`. -/
def sysExitGroup (s : GroupState P T) (x : P → BitVec 32) (p : P) (t : T) (n : BitVec 32) :
    Option (Outcome P T) :=
  if (s.tg p).groupLeader = .tcb t then
    (freeAllotherThreadsGroup s p t).bind fun s' =>
      threadExitStatus s' x p t n ((s.tg p).threads.filter (· ≠ t))
  else threadExitStatus s x p t n []

/-- What happens to the tables is the call of the machine. -/
theorem sysExitGroup_tables :
    (sysExitGroup s x p t n).map Outcome.s = runOp s p t .exitGroup := by
  simp only [sysExitGroup, runOp, threadExitStatus]
  split <;> simp [Option.map_bind, comp_def]

/-- **The process has ended**: its threads have been freed once and are on no queue but that of
the free ones, and it is a zombie with its status, which `freeproc` can free. -/
structure Ended (o : Outcome P T) (p : P) (threads : List T) (n : BitVec 32) : Prop where
  gone : ∀ u ∈ threads, o.s.tcbs.state u = .unused ∧ ∀ st, u ∈ o.s.tcbs.queue st ↔ st = .unused
  once : ∀ u ∈ threads, o.freed.count u = 1
  zombie : o.s.procState p = .zombie
  status : o.xstate p = n <<< 8
  reaps : ∀ cur, (freeproc o.s cur p).isSome

/-- A thread that is the only one ends the process. -/
theorem Exited.ended (hex : Exited s s' p t) (hi : GroupsInv s) (h : (s.tg p).threads = [t])
    (hx : exitsProc s p) : Ended ⟨s', update x p (n <<< 8), [t]⟩ p [t] n where
  gone := by
    simp [hex.tcbs, Tcbs.mem_tcbQChangeState hi.links.queue_nodup]
  once := by simp
  zombie := by rw [hex.state, if_pos hx]
  status := update_self ..
  reaps cur := by simp [freeproc, hex.threads, h]

/-- **`exit_group` ends the whole process if and only if the caller is its only thread**; the
first process cannot exit. The call is that of the machine. -/
theorem exitGroup_iff (hi : GroupsInv s) (ht : s.proc t = some p) (x : P → BitVec 32)
    (n : BitVec 32) :
    (sysExitGroup s x p t n).map Outcome.s = runOp s p t .exitGroup ∧
    ((∃ o, sysExitGroup s x p t n = some o ∧ Ended o p (s.tg p).threads n) ↔
      (s.tg p).threads = [t] ∧ s.initproc ≠ some p) := by
  refine ⟨sysExitGroup_tables, ?_⟩
  have hused := hi.links.used ht
  constructor
  · rintro ⟨o, ho, hend⟩
    have hlast : ∀ s1 fs, threadExitStatus s1 x p t n fs = some o → s1.proc t = some p →
        s1.procState p = .used → (s1.tg p).threadCnt = 1 := by
      intro s1 fs h ht1 hused1
      obtain ⟨s2, hs2, rfl⟩ := Option.map_eq_some_iff.1 h
      have hz := (exited_of_threadExit ht1 hs2).state.symm.trans hend.zombie
      by_contra hx
      simp [exitsProc, hx, hused1] at hz
    have hcnt : (s.tg p).threadCnt = 1 := by
      rw [sysExitGroup] at ho
      split at ho
      · obtain ⟨s1, hs1, -, hcnt, hproc, hst⟩ := hi.freeAllother ht
        rw [hs1] at ho
        exact hcnt ▸ hlast s1 _ ho hproc hst
      · exact hlast s [] ho ht hused
    have hone : (s.tg p).threads = [t] := by
      by_contra hne
      exact hi.count_ne_one ht hne hcnt
    refine ⟨hone, fun hinit => ?_⟩
    simp [sysExitGroup, threadExitStatus, freeAllother_self hone, threadExit, exitsProc, hcnt,
      procExit, setCnt, hinit] at ho
  · rintro ⟨h, hinit⟩
    have hx : exitsProc s p := ((hi.groupsOk p hused).2 t ht).2 h
    obtain ⟨s', hs'⟩ : ∃ s', threadExit s p t = some s' := by
      have hinit' : (setCnt s p ((s.tg p).threadCnt - 1)).initproc ≠ some p := hinit
      rw [threadExit, if_pos hx, procExit, if_neg hinit', Option.bind_some]
      exact ⟨_, freeThread_fixLeader (by exact ht)⟩
    refine ⟨⟨s', update x p (n <<< 8), [t]⟩, ?_, ?_⟩
    · simp [sysExitGroup, threadExitStatus, freeAllother_self h, hs', hx, h]
    · rw [h]
      exact (exited_of_threadExit ht hs').ended hi h hx

/-- A child of the first process, with one thread. -/
theorem exitGroup_forked : ∃ s0 s : GroupState ℕ ℕ, userinit (pools [0, 1] [0, 1, 2]) = some s0 ∧
    groupStep s0 (0, cloneCall false) = some s ∧
    ∃ o, sysExitGroup s (fun _ => 0) 1 1 3 = some o ∧ Ended o 1 [1] 3 := by
  refine ⟨_, _, rfl, rfl, ?_⟩
  have hps : [0, 1].Nodup := by decide
  have hts : [0, 1, 2].Nodup := by decide
  have hi := (groupsInv_userinit hps hts rfl).step (orderly_cloneCall (t := 0) false) rfl
  exact (exitGroup_iff hi rfl (fun _ => 0) 3).2.2 ⟨rfl, by decide⟩

/-- **A process with two threads.** When the leader calls `exit_group`, no thread is left and the
process stays `USED`; when the other thread does, the leader stays `RUNNABLE`. -/
theorem exitGroup_two : ∃ s0 s : GroupState ℕ ℕ, userinit (pools [0, 1] [0, 1, 2]) = some s0 ∧
    (groupMachine ℕ ℕ).exec s0 [(0, cloneCall false), (1, cloneCall true)] = some s ∧
    (s.tg 1).threads = [1, 2] ∧
    (∃ o, sysExitGroup s (fun _ => 0) 1 1 3 = some o ∧ (o.s.tg 1).threads = [] ∧
      o.s.procState 1 = .used) ∧
    ∃ o, sysExitGroup s (fun _ => 0) 1 2 3 = some o ∧ o.s.tcbs.state 1 = .runnable ∧
      o.s.procState 1 = .used :=
  ⟨_, _, rfl, rfl, rfl, ⟨_, rfl, rfl, rfl⟩, _, rfl, rfl, rfl⟩

end XVapor.Group
