import XVapor.GroupLinks

/-!
# The Thread Count of a Group

The calls keep the counter of a group equal to the length of its list exactly as long as
no call frees other threads, and no `do_clone` fails after it has joined its thread.

## Main results

* `groups_iff`: along every sequence of calls, the groups are right exactly if every call
  is orderly.
-/

namespace XVapor.Group

open Function

variable {P T : Type} [DecidableEq P] [DecidableEq T]
variable {s s' : GroupState P T} {p q cur : P} {t u : T}

/-! ### `do_clone` -/

theorem GroupsInv.joined (hi : GroupsInv s) (hp : s.procState p = .used)
    (ht : t ∈ s.tcbs.queue .unused) : GroupsInv (procJoinThread (allocated s t) p t) := by
  obtain ⟨hl, hproc, hq⟩ := hi.links.after_alloc ht
  refine ⟨hl.join hp hproc hq, fun q hq => ?_⟩
  have hok : GroupOk (allocated s t) q := (hi.ok q hq).congr rfl fun _ _ => rfl
  obtain rfl | hqp := eq_or_ne q p
  · exact GroupOk.join (.inl hok)
  · exact hok.join_ne hqp hproc

variable {f : CloneFlags} {env : CloneEnv}

theorem GroupsInv.after_cloneThread (hi : GroupsInv s) (hp : s.procState p = .used)
    (hord : s.tcbs.queue .unused ≠ [] → env.trapframe ∧ ¬ settidFails f env)
    (h : cloneThread s p f env = some s') : GroupsInv s' := by
  rcases hts : s.tcbs.queue .unused with _ | ⟨t, ts⟩
  · simp only [cloneThread, allocThread_nil hts, Option.some.injEq] at h
    exact h ▸ hi
  obtain ⟨htf, hset⟩ := hord (by simp [hts])
  simp only [cloneThread, allocThread_cons hts, htf, hset, not_true_eq_false,
    or_self, if_false, Option.some.injEq] at h
  exact h ▸ (hi.joined hp (by simp [hts])).after_changeState (by decide)

theorem exists_cloneThread (hp : s.procState p = .used) (hts : s.tcbs.queue .unused ≠ [])
    (hord : ¬ (env.trapframe ∧ ¬ settidFails f env)) :
    ∃ s', cloneThread s p f env = some s' ∧ ¬ GroupsOk s' := by
  obtain ⟨t, ts, hts⟩ := List.exists_cons_of_ne_nil hts
  have hfail : ¬ env.trapframe ∨ settidFails f env := by
    by_cases htf : env.trapframe
    · exact .inr (not_not.1 fun hset => hord ⟨htf, hset⟩)
    · exact .inl htf
  have hproc : (procJoinThread (allocated s t) p t).proc t = some p := by
    simp [procJoinThread]
  refine ⟨freed (procJoinThread (allocated s t) p t) t, ?_, fun hok => ?_⟩
  · simp only [cloneThread, allocThread_cons hts, if_pos hfail, freeThread_of_proc hproc]
  · have hmem := (hok p hp).1.proc t (by simp [freed, changeState, procJoinThread])
    simp [freed, changeState] at hmem

omit [DecidableEq P] [DecidableEq T] in
theorem GroupsInv.count_pos (hi : GroupsInv s) (ht : s.proc t = some p) :
    0 < (s.tg p).threadCnt := by
  have hmem := (hi.links.mem_iff p t).2 ht
  have hlen := List.length_pos_of_mem hmem
  have hcount := (hi.ok p (hi.links.used ht)).count
  omega

omit [DecidableEq P] [DecidableEq T] in
theorem Links.ne_of_pool (hl : Links s) (ht : s.proc t = some p) (hq : q ∈ s.unusedPQ) :
    p ≠ q := by
  rintro rfl
  have hused := hl.used ht
  rw [hl.pool p hq] at hused
  cases hused

variable {ps : List P}

theorem created_threads : ((created s p ps t).tg p).threads = [t] := by
  simp [created, procJoinThread, allocated, changeState, opened]

theorem created_proc : (created s p ps t).proc t = some p := by
  simp [created, procJoinThread]

theorem GroupsInv.after_cloneProc (hi : GroupsInv s)
    (hord : s.tcbs.queue .unused ≠ [] → s.unusedPQ ≠ [] → env.trapframe →
      ¬ settidFails f env → ¬ copyFails f env) (h : cloneProc s p f env = some s') : GroupsInv s' := by
  rcases createProc_cases s p with ⟨-, hc⟩ | ⟨np, ps, -, -, hc⟩ |
    ⟨np, ps, t, ts, hps, hts, hc⟩
  · simp only [cloneProc, hc, Option.bind_some, Option.some.injEq] at h
    exact h ▸ hi.after_createProc hc
  · simp only [cloneProc, hc, Option.bind_some, Option.some.injEq] at h
    exact h ▸ hi.after_createProc hc
  · have hinv := hi.after_createProc hc
    simp only [cloneProc, hc, Option.bind_some] at h
    obtain ⟨htf, h⟩ := Option.ite_none_left_eq_some.1 h
    split at h
    next hset =>
      -- `bad` frees the thread a second time, which is a fault
      obtain ⟨s1, hfree, h⟩ := Option.bind_eq_some_iff.1 h
      rw [freeproc_singleton created_threads created_proc] at hfree
      split at hfree
      · cases hfree
      · cases hfree
        simp [freeThread, retire, setLeader, freed, changeState] at h
    next hset =>
      have hcopy := hord (by simp [hts]) (by simp [hps]) (not_not.1 htf) hset
      simp only [hcopy, if_false, Option.some.injEq] at h
      exact h ▸ hinv.after_changeState (by decide)

theorem GroupsInv.exists_cloneProc (hi : GroupsInv s) (hu : s.proc u = some p)
    (hts : s.tcbs.queue .unused ≠ [])
    (hps : s.unusedPQ ≠ []) (htf : env.trapframe) (hset : ¬ settidFails f env)
    (hcopy : copyFails f env) :
    ∃ s', cloneProc s p f env = some s' ∧ ¬ GroupsOk s' := by
  rcases createProc_cases s p with ⟨h, -⟩ | ⟨np, ps, -, h, -⟩ |
    ⟨np, ps, t, ts, hps, hts, hc⟩
  · exact absurd h hps
  · exact absurd h hts
  · have hne : p ≠ np := hi.links.ne_of_pool hu (by simp [hps])
    have hpos := hi.count_pos hu
    have hcnt : ((created s np ps t).tg p).threadCnt ≠ 0 := by
      have htg : (created s np ps t).tg p = s.tg p := by
        simp [created, procJoinThread, allocated, changeState, opened, hne]
      rw [htg]
      omega
    have hinv := hi.after_createProc hc
    have hused : (created s np ps t).procState p = .used := by
      simpa [created, procJoinThread, allocated, changeState, opened, hne] using
        hi.links.used hu
    have hstep : cloneProc s p f env = some (retire (freed (setCnt
        (listDel (created s np ps t) t) p (((created s np ps t).tg p).threadCnt - 1)) t)
        np) := by
      simp only [cloneProc, hc, Option.bind_some, htf, not_true_eq_false, if_false, hset,
        hcopy, if_true, freeproc_singleton created_threads created_proc, if_neg hcnt]
    refine ⟨_, hstep, fun hok => ?_⟩
    have hthreads := hinv.links.erase_eq (created_proc (s := s) (t := t)) hne
    have hcount := (hok p (by
      simpa [retire, freed, changeState, setCnt, listDel, hne] using hused)).1.count
    simp only [retire, setLeader, freed, changeState, setCnt, listDel, hne, ne_eq,
      not_false_eq_true, update_of_ne, update_self, hthreads,
      (hinv.ok p hused).count] at hcount
    omega

/-! ### `thread_exit` -/

/-- What `thread_exit` leaves behind: the thread is freed and unlinked, the counter is one
less, the process is a zombie if the counter was one, and a leader that exits is replaced
by the first thread left. -/
structure Exited (s s' : GroupState P T) (p : P) (t : T) : Prop where
  pool : s'.unusedPQ = s.unusedPQ
  tcbs : s'.tcbs = s.tcbs.tcbQChangeState t .unused
  proc : s'.proc = update s.proc t none
  threads : ∀ q, (s'.tg q).threads = (s.tg q).threads.erase t
  count : (s'.tg p).threadCnt = (s.tg p).threadCnt - 1
  leader : (s'.tg p).groupLeader = if (s.tg p).groupLeader = .tcb t then
    listFirstEntry ((s.tg p).threads.erase t) else (s.tg p).groupLeader
  state : s'.procState p = if exitsProc s p then .zombie else s.procState p
  others : ∀ q, q ≠ p → (s'.tg q).threadCnt = (s.tg q).threadCnt ∧
    (s'.tg q).groupLeader = (s.tg q).groupLeader ∧ s'.procState q = s.procState q

theorem exited_freed (st : P → ProcState) {n : ℤ} (hn : n = (s.tg p).threadCnt - 1)
    (hst : st p = if exitsProc s p then .zombie else s.procState p)
    (hothers : ∀ q, q ≠ p → st q = s.procState q) :
    Exited s (freed (fixLeader (listDel { setCnt s p n with procState := st } t) p t) t)
      p t := by
  have hlead : ((listDel { setCnt s p n with procState := st } t).tg p).groupLeader =
      (s.tg p).groupLeader := by simp [listDel, setCnt]
  unfold fixLeader
  rw [hlead]
  split
  all_goals
    rename_i h
    refine ⟨rfl, rfl, rfl, fun q => ?_, ?_, ?_, hst, fun q hq => ⟨?_, ?_, hothers q hq⟩⟩
    · by_cases hq : q = p <;> simp [freed, changeState, setLeader, listDel, setCnt, hq]
    · simp [freed, changeState, setLeader, listDel, setCnt, hn]
    · simp [freed, changeState, setLeader, listDel, setCnt, h]
    · simp [freed, changeState, setLeader, listDel, setCnt, hq]
    · simp [freed, changeState, setLeader, listDel, setCnt, hq]

theorem freeThread_fixLeader (ht : s.proc t = some p) :
    freeThread (fixLeader (listDel s t) p t) t = some (freed (fixLeader (listDel s t) p t) t) := by
  refine freeThread_of_proc (p := p) ?_
  unfold fixLeader
  split <;> exact ht

theorem threadExit_of_not_exitsProc (ht : s.proc t = some p) (hx : ¬ exitsProc s p) :
    ∃ s', threadExit s p t = some s' ∧ Exited s s' p t := by
  refine ⟨_, ?_, exited_freed s.procState rfl (by rw [if_neg hx]) fun _ _ => rfl⟩
  simp only [threadExit, if_neg hx, Option.bind_some]
  exact freeThread_fixLeader ht

theorem exited_of_threadExit (ht : s.proc t = some p) (h : threadExit s p t = some s') :
    Exited s s' p t := by
  by_cases hx : exitsProc s p
  · simp only [threadExit, if_pos hx, procExit] at h
    split at h
    · cases h
    rw [Option.bind_some] at h
    obtain rfl := Option.some.inj ((freeThread_fixLeader (by exact ht)).symm.trans h)
    exact exited_freed _ rfl (by simp [hx]) fun q hq => by simp [setCnt, hq]
  · obtain ⟨s1, hs1, hex⟩ := threadExit_of_not_exitsProc ht hx
    obtain rfl := Option.some.inj (hs1.symm.trans h)
    exact hex

omit [DecidableEq P] in
theorem Exited.groupOk (hex : Exited s s' p t) (hi : GroupsInv s) (ht : s.proc t = some p)
    (hx : ¬ exitsProc s p) : GroupOk s' p := by
  have hok := hi.ok p (hi.links.used ht)
  have hmem := (hi.links.mem_iff p t).2 ht
  have hlen := List.length_erase_of_mem hmem
  have hpos := List.length_pos_of_mem hmem
  have hcount := hok.count
  have hne : (s.tg p).threadCnt ≠ 1 := hx
  refine ⟨?_, fun u hu => ?_, ?_⟩
  · rw [hex.count, hex.threads]
    omega
  · rw [hex.threads, (hi.links.nodup p).mem_erase_iff] at hu
    simpa [hex.proc, hu.1] using hok.proc u hu.2
  · rw [hex.leader, hex.threads]
    split
    · obtain ⟨w, ws, hws⟩ := List.exists_cons_of_ne_nil (l := (s.tg p).threads.erase t) (by
        rw [ne_eq, ← List.length_eq_zero_iff]
        omega)
      exact ⟨w, by simp [hws], by rw [hws]; rfl⟩
    rename_i hl
    obtain ⟨w, hw, hlead⟩ := hok.leader
    have hwt : w ≠ t := fun h => hl (h ▸ hlead)
    exact ⟨w, (hi.links.nodup p).mem_erase_iff.2 ⟨hwt, hw⟩, hlead⟩

theorem GroupsInv.after_threadExit (hi : GroupsInv s) (ht : s.proc t = some p)
    (h : threadExit s p t = some s') : GroupsInv s' := by
  have hex := exited_of_threadExit ht h
  have hused := hi.links.used ht
  have hlast : exitsProc s p → (s.tg p).threads = [t] :=
    ((hi.groupsOk p hused).2 t ht).1
  refine ⟨hi.links.drop hex.pool hex.tcbs hex.proc hex.threads fun q => ?_, fun q hq => ?_⟩
  · obtain rfl | hqp := eq_or_ne q p
    · by_cases hx : exitsProc s q
      · exact .inr ⟨hused, hlast hx⟩
      · exact .inl (by rw [hex.state, if_neg hx])
    · exact .inl (hex.others q hqp).2.2
  · obtain rfl | hqp := eq_or_ne q p
    · have hx : ¬ exitsProc s q := by
        intro hx
        rw [hex.state, if_pos hx] at hq
        cases hq
      exact hex.groupOk hi ht hx
    · obtain ⟨hcnt, hlead, hst⟩ := hex.others q hqp
      have hok := hi.ok q (hst ▸ hq)
      have hthreads := (hex.threads q).trans (hi.links.erase_eq ht hqp)
      refine ⟨by rw [hcnt, hthreads, hok.count], fun u hu => ?_, by
        rw [hthreads, hlead]; exact hok.leader⟩
      rw [hthreads] at hu
      have hut : u ≠ t := by
        rintro rfl
        rw [hok.proc u hu, Option.some.injEq] at ht
        exact hqp ht
      simpa [hex.proc, hut] using hok.proc u hu

/-! ### `free_allother_threads_group` -/

theorem foldlM_freeOther {l : List T} (hl : l.Nodup) (hnd : ∀ q, (s.tg q).threads.Nodup)
    (hproc : ∀ u ∈ l, s.proc u ≠ none) :
    ∃ s', l.foldlM (freeOther p t) s = some s' ∧
      (∀ q, (s'.tg q).threadCnt = (s.tg q).threadCnt) ∧
      (∀ q, (s'.tg q).threads.Nodup) ∧
      (∀ q u, u ∈ (s'.tg q).threads ↔ u ∈ (s.tg q).threads ∧ (u ∈ l → u = t)) ∧
      s'.proc t = s.proc t ∧ s'.procState = s.procState := by
  induction l generalizing s with
  | nil => exact ⟨s, rfl, fun _ => rfl, hnd, by simp, rfl, rfl⟩
  | cons tt l ih =>
    rw [List.nodup_cons] at hl
    by_cases htt : tt = t
    · obtain ⟨s', hs', hcnt, hnd', hmem, hp, hst⟩ := ih (s := s) hl.2 hnd
        fun u hu => hproc u (by simp [hu])
      refine ⟨s', by simpa [List.foldlM_cons, freeOther, htt] using hs', hcnt, hnd',
        fun q u => ?_, hp, hst⟩
      rw [hmem, List.mem_cons]
      grind
    · obtain ⟨r, hr⟩ := Option.ne_none_iff_exists'.1 (hproc tt (by simp))
      set s1 := listDel (if ((freed s tt).tg p).groupLeader = .tcb tt then
        setLeader (freed s tt) p (.tcb t) else freed s tt) tt with hs1
      have hstep : freeOther p t s tt = some s1 := by
        simp [freeOther, htt, freeThread_of_proc hr, hs1]
      have hthreads : ∀ q, (s1.tg q).threads = (s.tg q).threads.erase tt := by
        intro q
        rw [hs1]
        split
        · by_cases hq : q = p <;> simp [listDel, setLeader, freed, changeState, hq]
        · rfl
      have hcnt1 : ∀ q, (s1.tg q).threadCnt = (s.tg q).threadCnt := by
        intro q
        rw [hs1]
        split
        · by_cases hq : q = p <;> simp [listDel, setLeader, freed, changeState, hq]
        · rfl
      have hproc1 : s1.proc = update s.proc tt none := by
        rw [hs1]
        split <;> rfl
      have hst1 : s1.procState = s.procState := by
        rw [hs1]
        split <;> rfl
      obtain ⟨s', hs', hcnt, hnd', hmem, hp, hst⟩ := ih (s := s1) hl.2
        (fun q => by rw [hthreads]; exact (hnd q).erase tt) (fun u hu => by
          have hne : u ≠ tt := fun h => hl.1 (h ▸ hu)
          simpa [hproc1, hne] using hproc u (by simp [hu]))
      refine ⟨s', by simpa [List.foldlM_cons, hstep] using hs',
        fun q => (hcnt q).trans (hcnt1 q), hnd', fun q u => ?_, ?_, hst.trans hst1⟩
      · rw [hmem, hthreads, (hnd q).mem_erase_iff, List.mem_cons]
        grind
      · rw [hp, hproc1, update_of_ne (Ne.symm htt)]

/-- **Freeing the other threads** leaves the calling thread alone on the list, and the
counter as it was. -/
theorem GroupsInv.freeAllother (hi : GroupsInv s) (ht : s.proc t = some p) :
    ∃ s', freeAllotherThreadsGroup s p t = some s' ∧ (s'.tg p).threads = [t] ∧
      (s'.tg p).threadCnt = (s.tg p).threadCnt ∧ s'.proc t = some p ∧
      s'.procState p = .used := by
  obtain ⟨s', hs', hcnt, hnd, hmem, hproc, hst⟩ := foldlM_freeOther (p := p) (t := t)
    (hi.links.nodup p) hi.links.nodup fun u hu => by
      rw [(hi.links.mem_iff p u).1 hu]
      exact Option.some_ne_none p
  refine ⟨s', hs', ?_, hcnt p, hproc.trans ht, by rw [hst]; exact hi.links.used ht⟩
  have htmem := (hi.links.mem_iff p t).2 ht
  refine List.perm_singleton.1 ((List.perm_ext_iff_of_nodup (hnd p)
    (List.nodup_singleton t)).2 fun u => ?_)
  rw [hmem, List.mem_singleton]
  exact ⟨fun h => h.2 h.1, fun h => ⟨h ▸ htmem, fun _ => h⟩⟩

theorem freeAllother_self (h : (s.tg p).threads = [t]) :
    freeAllotherThreadsGroup s p t = some s := by
  simp [freeAllotherThreadsGroup, h, freeOther]

omit [DecidableEq P] [DecidableEq T] in
/-- The count of a group is one only if the caller is alone. -/
theorem GroupsInv.count_ne_one (hi : GroupsInv s) (ht : s.proc t = some p)
    (h : (s.tg p).threads ≠ [t]) : (s.tg p).threadCnt ≠ 1 :=
  fun hc => h (((hi.groupsOk p (hi.links.used ht)).2 t ht).1 hc)

/-! ### The calls -/

omit [DecidableEq P] [DecidableEq T] in
theorem proc_of_caller (h : caller s t = some p) : s.proc t = some p := by
  unfold caller at h
  split at h
  · exact h
  · cases h

variable {a : T × Op P}

/-- **One orderly call keeps the invariant.** -/
theorem GroupsInv.step (hi : GroupsInv s) (hord : Orderly s a)
    (h : groupStep s a = some s') : GroupsInv s' := by
  obtain ⟨t, op⟩ := a
  obtain ⟨p, hcall, h⟩ := Option.bind_eq_some_iff.1 h
  have ht := proc_of_caller hcall
  have hused := hi.links.used ht
  have hop := hord p hcall
  cases op with
  | createProc =>
    obtain ⟨r, hr, rfl⟩ := Option.map_eq_some_iff.1 h
    exact hi.after_createProc hr
  | clone f env =>
    simp only [runOp] at h
    simp only [OrderlyOp] at hop
    split at h
    next hf =>
      simp only [hf, if_true] at hop
      exact hi.after_cloneThread hused hop h
    next hf =>
      simp only [hf] at hop
      exact hi.after_cloneProc hop h
  | exit => exact hi.after_threadExit ht h
  | exitGroup =>
    simp only [runOp] at h
    split at h
    next hl =>
      rw [freeAllother_self (hop hl), Option.bind_some] at h
      exact hi.after_threadExit ht h
    next => exact hi.after_threadExit ht h
  | execve frees =>
    simp only [runOp] at h
    split at h
    · rename_i hf
      rw [freeAllother_self (hop hf)] at h
      cases h
      exact hi
    cases h
    exact hi
  | wait np copyout =>
    simp only [runOp] at h
    split at h
    next hz =>
      have hnil := hi.links.live np (by simp [hz.1])
      rw [freeproc_nil hnil] at h
      cases h
      refine GroupsInv.after_retire hi.links (fun q _ => hi.ok q) hnil fun hmem => ?_
      have hun := hi.links.pool np hmem
      rw [hz.1] at hun
      cases hun
    next =>
      cases h
      exact hi

/-- **Every other call leaves a group wrong.** -/
theorem GroupsInv.exists_not_groupsOk (hi : GroupsInv s)
    (hord : ¬ Orderly s a) : ∃ s', groupStep s a = some s' ∧ ¬ GroupsOk s' := by
  obtain ⟨t, op⟩ := a
  simp only [Orderly, not_forall] at hord
  obtain ⟨p, hcall, hop⟩ := hord
  have ht := proc_of_caller hcall
  have hused := hi.links.used ht
  simp only [groupStep, hcall, Option.bind_some]
  cases op with
  | createProc | exit | wait np copyout => exact absurd trivial hop
  | clone f env =>
    simp only [OrderlyOp, not_forall] at hop
    obtain ⟨hts, hop⟩ := hop
    by_cases hf : f.thread
    · simp only [hf, if_true] at hop
      simpa only [runOp, hf, if_true] using exists_cloneThread hused hts hop
    · simp only [if_neg hf, not_forall, not_not] at hop
      obtain ⟨hps, htf, hset, hcopy⟩ := hop
      simpa only [runOp, if_neg hf] using hi.exists_cloneProc ht hts hps htf hset hcopy
  | exitGroup =>
    simp only [OrderlyOp, not_forall] at hop
    obtain ⟨hl, hne⟩ := hop
    obtain ⟨s1, hs1, hthreads, hcnt, hproc, hst⟩ := hi.freeAllother ht
    have hx : ¬ exitsProc s1 p := by
      rw [exitsProc, hcnt]
      exact hi.count_ne_one ht hne
    obtain ⟨s', hs', hex⟩ := threadExit_of_not_exitsProc hproc hx
    refine ⟨s', by simp only [runOp, hl, if_true, hs1, Option.bind_some, hs'],
      fun hok => ?_⟩
    obtain ⟨w, hw, -⟩ := (hok p (by rw [hex.state, if_neg hx, hst])).1.leader
    simp [hex.threads, hthreads] at hw
  | execve frees =>
    simp only [OrderlyOp, not_forall] at hop
    obtain ⟨hf, hne⟩ := hop
    obtain ⟨s', hs', hthreads, hcnt, -, hst⟩ := hi.freeAllother ht
    refine ⟨s', by simp only [runOp, hf, if_true, hs'], fun hok => ?_⟩
    have hcount := (hok p hst).1.count
    rw [hthreads, hcnt] at hcount
    exact hi.count_ne_one ht hne hcount

/-! ### Runs -/

variable {ts : List T}

omit [DecidableEq P] [DecidableEq T] in
theorem groupsInv_pools (hps : ps.Nodup) (hts : ts.Nodup) :
    GroupsInv (pools ps ts) := by
  refine ⟨⟨hps, fun _ _ => rfl, fun st => ?_, fun _ _ => rfl, fun _ => List.nodup_nil,
    fun _ _ => by simp [pools], fun _ _ => rfl⟩, fun p hp => nomatch hp⟩
  by_cases hst : st = .unused
  · simpa [pools, hst] using hts
  · simp [pools, hst]

theorem groupsInv_userinit (hps : ps.Nodup) (hts : ts.Nodup)
    (h : userinit (pools ps ts) = some s) : GroupsInv s := by
  have hpools := groupsInv_pools hps hts
  obtain _ | ⟨p, ps⟩ := ps
  · cases h
  obtain _ | ⟨t, ts⟩ := ts
  · cases h
  have hcreated : GroupsInv (created (pools (p :: ps) (t :: ts)) p ps t) :=
    hpools.after_create rfl (by simp [pools])
  have hinv : GroupsInv
      (changeState (created (pools (p :: ps) (t :: ts)) p ps t) t .runnable) :=
    hcreated.after_changeState (by decide)
  have hthread : allocThread (opened (pools (p :: ps) (t :: ts)) p ps) =
      some (t, allocated (opened (pools (p :: ps) (t :: ts)) p ps) t) :=
    allocThread_cons rfl
  have hs : userinit (pools (p :: ps) (t :: ts)) = some
      { changeState (created (pools (p :: ps) (t :: ts)) p ps t) t .runnable with
        initproc := some p } := by
    have halloc : allocproc (pools (p :: ps) (t :: ts)) =
        some (p, opened (pools (p :: ps) (t :: ts)) p ps) := rfl
    simp only [userinit, halloc, hthread, Option.map_some]
    rfl
  obtain rfl := Option.some.inj (hs.symm.trans h)
  obtain ⟨⟨h1, h2, h3, h4, h5, h6, h7⟩, hok⟩ := hinv
  exact ⟨⟨h1, h2, h3, h4, h5, h6, h7⟩, fun q hq =>
    (hok q hq).congr rfl fun _ _ => rfl⟩

/-- **Along every sequence of calls from `userinit`, every call leaves the groups right
exactly if every call is orderly**: other threads are freed only if there are none, and
no `do_clone` fails once its thread has joined. -/
theorem groups_iff (ps : List P) (ts : List T) (hps : ps.Nodup) (hts : ts.Nodup)
    (h0 : userinit (pools ps ts) = some s) (as : List (T × Op P)) :
    (groupMachine P T).Along StaysOk s as ↔ (groupMachine P T).Along Orderly s as := by
  refine Machine.along_iff_along (I := GroupsInv) (fun s a hi => ⟨fun hok => ?_, fun hord => ?_⟩)
    (fun _ _ _ hi hord hs => hi.step hord hs) (groupsInv_userinit hps hts h0)
  · by_contra hord
    obtain ⟨s', hs', hbad⟩ := hi.exists_not_groupsOk hord
    exact hbad (hok s' hs')
  · exact fun s' hs' => (hi.step hord hs').groupsOk

/-- `clone` with no flag that copies a tid out, and with every allocation successful. -/
def cloneCall (thread : Bool) : Op ℕ :=
  .clone ⟨thread, false, false, false⟩ ⟨true, true, true, true, true⟩

theorem orderly_cloneCall {s : GroupState ℕ ℕ} {t : ℕ} (thread : Bool) :
    Orderly s (t, cloneCall thread) := by
  intro p _ _
  cases thread <;> simp [settidFails, copyFails]

/-- Two processes and three threads in the pools: the first process forks, and its child
makes a second thread. -/
theorem groups_of_fork_clone : ∃ s, userinit (pools [0, 1] [0, 1, 2]) = some s ∧
    (groupMachine ℕ ℕ).Along StaysOk s [(0, cloneCall false), (1, cloneCall true)] :=
  ⟨_, rfl, (groups_iff [0, 1] [0, 1, 2] (by decide) (by decide) rfl _).2
    ⟨orderly_cloneCall false, fun _ _ => ⟨orderly_cloneCall true, fun _ _ => trivial⟩⟩⟩

/-- **A thread that calls `execve` next to another one**: the process keeps the count 2 for
one thread, and when that thread exits, `proc_exit` does not run and the process stays
`USED` without any thread. -/
theorem execve_keeps_count : ∃ s0 s1 s2 : GroupState ℕ ℕ,
    userinit (pools [0, 1] [0, 1, 2]) = some s0 ∧
    (groupMachine ℕ ℕ).exec s0 [(0, cloneCall false), (1, cloneCall true),
      (1, .execve true)] = some s1 ∧
    (s1.tg 1).threads = [1] ∧ (s1.tg 1).threadCnt = 2 ∧ ¬ GroupsOk s1 ∧
    groupStep s1 (1, .exit) = some s2 ∧
    s2.procState 1 = .used ∧ (s2.tg 1).threads = [] := by
  refine ⟨_, _, _, rfl, rfl, rfl, rfl, fun hok => ?_, rfl, rfl, rfl⟩
  have hcount := (hok 1 rfl).1.count
  exact absurd hcount (by decide)

end XVapor.Group
