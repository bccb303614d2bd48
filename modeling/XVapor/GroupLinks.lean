import XVapor.ThreadGroup

/-!
# The Links of the Thread Groups

The invariant of the thread groups has two parts: the links between the tables, which say
that a thread is on the list of its process and on no other, and a right group for every
`USED` process. This module states it, and proves what the single operations do to it:
`alloc_thread`, `proc_join_thread`, `free_thread` with the unlinking, `allocproc`,
`create_proc`, and `freeproc`.
-/

namespace XVapor.Group

open Function

variable {P T : Type} [DecidableEq P] [DecidableEq T]
variable {s s' : GroupState P T} {p q cur : P} {t u : T}

/-! ### The invariant -/

/-- The structure of the tables: the pools hold what is unused, and a thread is on the list
of its process and on no other. -/
structure Links (s : GroupState P T) : Prop where
  pool_nodup : s.unusedPQ.Nodup
  pool : ∀ p ∈ s.unusedPQ, s.procState p = .unused
  queue_nodup : ∀ st, (s.tcbs.queue st).Nodup
  free : ∀ t ∈ s.tcbs.queue .unused, s.proc t = none
  nodup : ∀ p, (s.tg p).threads.Nodup
  mem_iff : ∀ p t, t ∈ (s.tg p).threads ↔ s.proc t = some p
  live : ∀ p, s.procState p ≠ .used → (s.tg p).threads = []

/-- **The invariant**: the structure of the tables, and a right group for every `USED`
process. -/
structure GroupsInv (s : GroupState P T) : Prop where
  links : Links s
  ok : ∀ p, s.procState p = .used → GroupOk s p

section

omit [DecidableEq P] [DecidableEq T]

theorem GroupsInv.groupsOk (hi : GroupsInv s) : GroupsOk s := by
  intro p hp
  refine ⟨hi.ok p hp, fun t ht => ?_⟩
  have hmem := (hi.links.mem_iff p t).2 ht
  rw [exitsProc, (hi.ok p hp).count]
  constructor
  · intro h
    obtain ⟨u, hu⟩ := List.length_eq_one_iff.1 (Int.ofNat_inj.1 h)
    rw [hu, List.mem_singleton] at hmem
    rw [hu, hmem]
  · intro h
    simp [h]

theorem Links.used (hl : Links s) (ht : s.proc t = some p) : s.procState p = .used := by
  by_contra hne
  have hmem := (hl.mem_iff p t).2 ht
  rw [hl.live p hne] at hmem
  cases hmem

theorem GroupOk.congr (h : GroupOk s p) (htg : s'.tg p = s.tg p)
    (hproc : ∀ t ∈ (s.tg p).threads, s'.proc t = s.proc t) : GroupOk s' p := by
  refine ⟨by rw [htg]; exact h.count, fun t ht => ?_, by rw [htg]; exact h.leader⟩
  rw [htg] at ht
  rw [hproc t ht]
  exact h.proc t ht

end

/-! ### Single operations -/

variable {st : TcbState}

section

omit [DecidableEq P]

theorem Links.after_changeState (hl : Links s)
    (hst : st = .unused → s.proc t = none) : Links (changeState s t st) where
  pool_nodup := hl.pool_nodup
  pool := hl.pool
  queue_nodup := Tcbs.nodup_tcbQChangeState hl.queue_nodup
  free := by
    intro u hu
    rcases (Tcbs.mem_tcbQChangeState hl.queue_nodup).1 hu with ⟨-, h⟩ | ⟨h, rfl⟩
    · exact hl.free u h
    · exact hst h.symm
  nodup := hl.nodup
  mem_iff := hl.mem_iff
  live := hl.live

theorem GroupsInv.after_changeState (hi : GroupsInv s) (hst : st ≠ .unused) :
    GroupsInv (changeState s t st) :=
  ⟨hi.links.after_changeState fun h => absurd h hst,
    fun p hp => (hi.ok p hp).congr rfl fun _ _ => rfl⟩

/-- The state after `alloc_thread` of `t`. -/
def allocated (s : GroupState P T) (t : T) : GroupState P T :=
  changeState { s with tcbs := s.tcbs.queueRemove t } t .used

theorem allocThread_nil (h : s.tcbs.queue .unused = []) : allocThread s = none := by
  simp [allocThread, Tcbs.queuePop, h]

theorem allocThread_cons {ts : List T} (h : s.tcbs.queue .unused = t :: ts) :
    allocThread s = some (t, allocated s t) := by
  simp [allocThread, Tcbs.queuePop, h, allocated]

theorem Links.after_alloc (hl : Links s) (ht : t ∈ s.tcbs.queue .unused) :
    Links (allocated s t) ∧ (allocated s t).proc t = none ∧
      t ∉ (allocated s t).tcbs.queue .unused := by
  have hrem := Tcbs.nodup_queueRemove (t := t) hl.queue_nodup
  have hbase : Links { s with tcbs := s.tcbs.queueRemove t } :=
    ⟨hl.pool_nodup, hl.pool, hrem,
      fun u hu => hl.free u ((Tcbs.mem_queueRemove hl.queue_nodup).1 hu).2, hl.nodup,
      hl.mem_iff, hl.live⟩
  refine ⟨hbase.after_changeState (fun h => nomatch h), hl.free t ht, fun hmem => ?_⟩
  rcases (Tcbs.mem_tcbQChangeState hrem).1 hmem with ⟨hne, -⟩ | ⟨h, -⟩
  · exact hne rfl
  · cases h

end

theorem Links.join (hl : Links s) (hp : s.procState p = .used)
    (ht : s.proc t = none) (hq : t ∉ s.tcbs.queue .unused) :
    Links (procJoinThread s p t) := by
  have hnot : ∀ q, t ∉ (s.tg q).threads := by
    intro q hmem
    rw [hl.mem_iff, ht] at hmem
    cases hmem
  refine ⟨hl.pool_nodup, hl.pool, hl.queue_nodup, fun u hu => ?_, fun q => ?_,
    fun q u => ?_, fun q hq => ?_⟩
  · have hne : u ≠ t := fun h => hq (h ▸ hu)
    simpa [procJoinThread, hne] using hl.free u hu
  · obtain rfl | h := eq_or_ne q p
    · simpa [procJoinThread] using (hl.nodup q).concat (hnot q)
    · simpa [procJoinThread, h] using hl.nodup q
  · have hiff := hl.mem_iff q u
    have hnotq := hnot q
    by_cases hu : u = t <;> by_cases h : q = p
    · simp [procJoinThread, hu, h]
    · simp [procJoinThread, hu, h, hnotq, Ne.symm h]
    · subst h
      simpa [procJoinThread, hu] using hiff
    · simpa [procJoinThread, hu, h] using hiff
  · have hne : q ≠ p := fun h => hq (h ▸ hp)
    simpa [procJoinThread, hne] using hl.live q hq

theorem GroupOk.join
    (h : GroupOk s p ∨ s.tg p = ⟨.null, 0, []⟩) : GroupOk (procJoinThread s p t) p := by
  rcases h with h | h
  · obtain ⟨w, hw, hlead⟩ := h.leader
    refine ⟨?_, fun u hu => ?_, w, ?_, ?_⟩
    · simp [procJoinThread, h.count]
    · simp only [procJoinThread, update_self, List.mem_append,
        List.mem_singleton] at hu
      by_cases hut : u = t
      · simp [procJoinThread, hut]
      · simpa [procJoinThread, hut] using h.proc u (hu.resolve_right hut)
    · simp [procJoinThread, hw]
    · simp [procJoinThread, hlead]
  · refine ⟨?_, fun u hu => ?_, t, ?_, ?_⟩
    · simp [procJoinThread, h]
    · have hut : u = t := by simpa [procJoinThread, h] using hu
      simp [procJoinThread, hut]
    · simp [procJoinThread]
    · simp [procJoinThread, h]

theorem GroupOk.join_ne (h : GroupOk s q) (hne : q ≠ p) (ht : s.proc t = none) :
    GroupOk (procJoinThread s p t) q := by
  refine h.congr (by simp [procJoinThread, hne]) fun u hu => ?_
  have hut : u ≠ t := ne_of_values (h.proc u hu) ht nofun
  simp [procJoinThread, hut]

/-- The state after `free_thread` of a thread that has a process. -/
def freed (s : GroupState P T) (t : T) : GroupState P T :=
  changeState { s with proc := update s.proc t none } t .unused

omit [DecidableEq P] in
theorem freeThread_of_proc (h : s.proc t = some p) : freeThread s t = some (freed s t) := by
  simp [freeThread, h, freed]

omit [DecidableEq P] in
/-- A thread is freed and unlinked; the states of processes may change, but a process that
stops being `USED` has no other thread. -/
theorem Links.drop (hl : Links s) (hpool : s'.unusedPQ = s.unusedPQ)
    (htcbs : s'.tcbs = s.tcbs.tcbQChangeState t .unused) (hproc : s'.proc = update s.proc t none)
    (hthreads : ∀ q, (s'.tg q).threads = (s.tg q).threads.erase t)
    (hstate : ∀ q, s'.procState q = s.procState q ∨
      (s.procState q = .used ∧ (s.tg q).threads = [t])) : Links s' := by
  refine ⟨hpool ▸ hl.pool_nodup, fun q hq => ?_, fun st => ?_, fun u hu => ?_, fun q => ?_,
    fun q u => ?_, fun q hq => ?_⟩
  · have hun := hl.pool q (hpool ▸ hq)
    rcases hstate q with h | ⟨h, -⟩
    · rw [h, hun]
    · rw [hun] at h
      cases h
  · rw [htcbs]
    exact Tcbs.nodup_tcbQChangeState hl.queue_nodup st
  · rw [htcbs, Tcbs.mem_tcbQChangeState hl.queue_nodup] at hu
    by_cases hut : u = t
    · simp [hproc, hut]
    · simpa [hproc, hut] using hl.free u (hu.resolve_right fun h => hut h.2).2
  · rw [hthreads]
    exact (hl.nodup q).erase t
  · rw [hthreads, (hl.nodup q).mem_erase_iff, hl.mem_iff]
    by_cases hut : u = t
    · simp [hproc, hut]
    · simp [hproc, hut]
  · rw [hthreads]
    rcases hstate q with h | ⟨-, h⟩
    · rw [hl.live q (h ▸ hq), List.erase_nil]
    · simp [h]

omit [DecidableEq P] in
theorem Links.erase_eq (hl : Links s) (ht : s.proc t = some p) (hne : q ≠ p) :
    (s.tg q).threads.erase t = (s.tg q).threads := by
  refine List.erase_of_not_mem fun hmem => hne ?_
  rw [hl.mem_iff, ht, Option.some.injEq] at hmem
  exact hmem.symm

/-! ### `freeproc` and `create_proc` -/

omit [DecidableEq T] in
theorem GroupsInv.after_retire (hl : Links s) (hok : ∀ q, q ≠ p → s.procState q = .used →
    GroupOk s q) (hnil : (s.tg p).threads = []) (hp : p ∉ s.unusedPQ) :
    GroupsInv (retire s p) := by
  have hthreads : ∀ q, ((retire s p).tg q).threads = (s.tg q).threads := by
    intro q
    by_cases h : q = p
    · simp [retire, setLeader, h]
    · simp [retire, setLeader, h]
  refine ⟨⟨?_, fun q hq => ?_, hl.queue_nodup, hl.free, fun q => ?_, fun q u => ?_,
    fun q hq => ?_⟩, fun q hq => ?_⟩
  · simpa [retire] using hl.pool_nodup.concat hp
  · by_cases h : q = p
    · simp [retire, h]
    · have hmem : q ∈ s.unusedPQ := by simpa [retire, h] using hq
      simpa [retire, h] using hl.pool q hmem
  · rw [hthreads]
    exact hl.nodup q
  · rw [hthreads]
    exact hl.mem_iff q u
  · rw [hthreads]
    by_cases h : q = p
    · rw [h, hnil]
    · exact hl.live q (by simpa [retire, h] using hq)
  · have hne : q ≠ p := by
      rintro rfl
      simp [retire] at hq
    refine (hok q hne (by simpa [retire, hne] using hq)).congr ?_ fun _ _ => rfl
    simp [retire, setLeader, hne]

theorem freeproc_nil (h : (s.tg p).threads = []) :
    freeproc s cur p = some (retire s p) := by
  simp [freeproc, h]

/-- `freeproc` of a process with one thread counts down the calling process. -/
theorem freeproc_singleton (h : (s.tg p).threads = [t]) (ht : s.proc t = some q) :
    freeproc s cur p = if (s.tg cur).threadCnt = 0 then none else
      some (retire (freed (setCnt (listDel s t) cur ((s.tg cur).threadCnt - 1)) t) p) := by
  have hproc : (setCnt (listDel s t) cur ((s.tg cur).threadCnt - 1)).proc t = some q := ht
  have hcnt : ((listDel s t).tg cur).threadCnt = (s.tg cur).threadCnt := rfl
  simp only [freeproc, h, List.foldlM_cons, List.foldlM_nil, freeprocThread, hcnt,
    freeThread_of_proc hproc]
  split <;> rfl

/-- The state after `allocproc` of `p`. -/
def opened (s : GroupState P T) (p : P) (ps : List P) : GroupState P T :=
  { s with
    unusedPQ := ps
    procState := update s.procState p .used
    tg := update s.tg p ⟨.null, 0, []⟩ }

variable {ps : List P}

omit [DecidableEq T] in
theorem GroupsInv.after_allocproc (hi : GroupsInv s) (h : s.unusedPQ = p :: ps) :
    Links (opened s p ps) ∧ p ∉ ps ∧
      ∀ q, q ≠ p → (opened s p ps).procState q = .used → GroupOk (opened s p ps) q := by
  obtain ⟨hl, hok⟩ := hi
  have hnd := hl.pool_nodup
  rw [h, List.nodup_cons] at hnd
  have hnil : (s.tg p).threads = [] := by
    refine hl.live p ?_
    simp [hl.pool p (by simp [h])]
  have hthreads : ∀ q, ((opened s p ps).tg q).threads = (s.tg q).threads := by
    intro q
    by_cases hq : q = p
    · simp [opened, hq, hnil]
    · simp [opened, hq]
  refine ⟨⟨hnd.2, fun q hq => ?_, hl.queue_nodup, hl.free, fun q => ?_, fun q u => ?_,
    fun q hq => ?_⟩, hnd.1, fun q hne hq => ?_⟩
  · have hne : q ≠ p := by
      rintro rfl
      exact hnd.1 hq
    have hps : q ∈ ps := hq
    simpa [opened, hne] using hl.pool q (by simp [h, hps])
  · rw [hthreads]
    exact hl.nodup q
  · rw [hthreads]
    exact hl.mem_iff q u
  · rw [hthreads]
    by_cases hqp : q = p
    · rw [hqp, hnil]
    · exact hl.live q (by simpa [opened, hqp] using hq)
  · refine (hok q (by simpa [opened, hne] using hq)).congr ?_ fun _ _ => rfl
    simp [opened, hne]

/-- The state after `create_proc` of `p` with the leader `t`. -/
def created (s : GroupState P T) (p : P) (ps : List P) (t : T) : GroupState P T :=
  procJoinThread (allocated (opened s p ps) t) p t

theorem GroupsInv.after_create (hi : GroupsInv s) (h : s.unusedPQ = p :: ps)
    (ht : t ∈ s.tcbs.queue .unused) : GroupsInv (created s p ps t) := by
  obtain ⟨hl, -, hok⟩ := hi.after_allocproc h
  obtain ⟨hl', hproc, hq⟩ := hl.after_alloc ht
  refine ⟨hl'.join (by simp [allocated, opened, changeState]) hproc hq, fun q hq => ?_⟩
  obtain rfl | hqp := eq_or_ne q p
  · exact GroupOk.join (.inr (by simp [allocated, opened, changeState]))
  · have hok' : GroupOk (allocated (opened s p ps) t) q :=
      (hok q hqp hq).congr rfl fun _ _ => rfl
    exact hok'.join_ne hqp hproc

theorem createProc_cases (s : GroupState P T) (cur : P) :
    (s.unusedPQ = [] ∧ createProc s cur = some (none, s)) ∨
    (∃ p ps, s.unusedPQ = p :: ps ∧ s.tcbs.queue .unused = [] ∧
      createProc s cur = some (none, retire (opened s p ps) p)) ∨
    (∃ p ps t ts, s.unusedPQ = p :: ps ∧ s.tcbs.queue .unused = t :: ts ∧
      createProc s cur = some (some (p, t), created s p ps t)) := by
  rcases hps : s.unusedPQ with _ | ⟨p, ps⟩
  · refine .inl ⟨rfl, ?_⟩
    simp [createProc, allocproc, hps]
  have halloc : allocproc s = some (p, opened s p ps) := by simp [allocproc, hps, opened]
  cases hts : s.tcbs.queue .unused with
  | nil =>
    refine .inr (.inl ⟨p, ps, rfl, rfl, ?_⟩)
    have hnone : allocThread (opened s p ps) = none := allocThread_nil hts
    have hnil : ((opened s p ps).tg p).threads = [] := by simp [opened]
    simp [createProc, halloc, hnone, freeproc_nil hnil]
  | cons t ts =>
    refine .inr (.inr ⟨p, ps, t, ts, rfl, rfl, ?_⟩)
    have hsome : allocThread (opened s p ps) = some (t, allocated (opened s p ps) t) :=
      allocThread_cons hts
    simp [createProc, halloc, hsome, created]

theorem GroupsInv.after_createProc (hi : GroupsInv s) {r : Option (P × T)}
    (h : createProc s cur = some (r, s')) : GroupsInv s' := by
  rcases createProc_cases s cur with ⟨-, hc⟩ | ⟨p, ps, hps, -, hc⟩ |
    ⟨p, ps, t, ts, hps, hts, hc⟩
  · rw [hc] at h
    cases h
    exact hi
  · rw [hc] at h
    cases h
    obtain ⟨hl, hp, hok⟩ := hi.after_allocproc hps
    exact GroupsInv.after_retire hl hok (by simp [opened]) hp
  · rw [hc] at h
    cases h
    exact hi.after_create hps (by simp [hts])

end XVapor.Group
