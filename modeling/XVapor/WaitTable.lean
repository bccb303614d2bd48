import XVapor.WaitMachine

/-!
# The Futex Table Under Concurrent Calls

What the table keeps through the runs of the wait machine in which `get_futex` is called
only for addresses without a node: it stays well-formed, a thread on its way to sleep on a
futex has its node in the table, and a page about to be freed at the label `bad` is
referenced by nobody else. In these runs `futex_wake` never reaches its loop.
-/

namespace XVapor.FutexTable

open Function

variable {T : Type}

/-! ### Changes of the table -/

/-- The table has the node of `uaddr` with the futex in page `fp`. -/
def NodeFor (k : Kern T) (uaddr : UAddr) (fp : ℕ) : Prop :=
  ∃ pos ∈ k.bucket (hashGetEntry uaddr), k.page pos = .node ⟨uaddr, fp⟩

/-- A futex that no node refers to, with nobody on its queue. -/
def Unreferenced (k : Kern T) (fp : ℕ) : Prop :=
  k.page fp = .futex ⟨.image "futex", []⟩ ∧ ∀ u, ¬ NodeFor k u fp

variable {k : Kern T} {u : UAddr}

theorem NodeFor.hasNode {fp : ℕ} (h : NodeFor k u fp) :
    HasNode k u := by
  obtain ⟨pos, hpos, hn⟩ := h
  exact ⟨pos, hpos, fp, hn⟩

theorem NodeFor.live {fp : ℕ} (h : NodeFor k u fp) (hw : Wf k) :
    ∃ q, k.page fp = .futex ⟨.image "futex", q⟩ := by
  obtain ⟨pos, hpos, hn⟩ := h
  obtain ⟨n, q, hn', -, hf⟩ := hw.node_live _ pos hpos
  rw [hn, Page.node.injEq] at hn'
  subst hn'
  exact ⟨q, hf⟩

section

variable {k k' : Kern T} {u : UAddr} {fp : ℕ}

variable {pa fp0 fhn : ℕ} {x : Page T} {fl rest : List ℕ}

theorem Wf.update_page (hw : Wf k) (hpa : ∀ i, pa ∉ k.bucket i) (hno : ∀ u, ¬ NodeFor k u pa)
    (hfl : ∀ p ∈ fl, update k.page pa x p = .free) (hnd : fl.Nodup) :
    Wf { k with page := update k.page pa x, freelist := fl } := by
  have hpos : ∀ i, ∀ pos ∈ k.bucket i, update k.page pa x pos = k.page pos := by
    intro i pos hp
    refine update_of_ne ?_ _ _
    rintro rfl
    exact hpa i hp
  refine ⟨?_, hw.nodup, ?_, hfl, hnd⟩
  · intro i pos hp
    obtain ⟨n, q, hn, hi, hf⟩ := hw.node_live i pos hp
    have hne : n.fp ≠ pa := by
      rintro rfl
      exact hno n.uaddr ⟨pos, hi ▸ hp, hn⟩
    exact ⟨n, q, (hpos i pos hp).trans hn, hi, by simp [hne, hf]⟩
  · intro i pos hp pos' hp' n n' hn hn'
    exact hw.key_inj i pos hp pos' hp' n n' ((hpos i pos hp).symm.trans hn)
      ((hpos i pos' hp').symm.trans hn')

theorem Wf.not_mem_bucket (hw : Wf k) (h : ∀ n, k.page pa ≠ .node n) (i : ℕ) :
    pa ∉ k.bucket i := by
  intro hmem
  obtain ⟨n, -, hn, -⟩ := hw.node_live i pa hmem
  exact h n hn

theorem Wf.free_unreferenced (hw : Wf k) (hu : Unreferenced k fp) :
    Wf { k with page := update k.page fp .free, freelist := fp :: k.freelist } := by
  obtain ⟨hfp, hno⟩ := hu
  have hmem : fp ∉ k.freelist := by
    intro hmem
    rw [hw.free fp hmem] at hfp
    cases hfp
  refine hw.update_page (hw.not_mem_bucket (by simp [hfp])) hno ?_
    (List.nodup_cons.mpr ⟨hmem, hw.freelist_nodup⟩)
  intro p hp
  by_cases hpf : p = fp
  · simp [hpf]
  · simpa [hpf] using hw.free p ((List.mem_cons.mp hp).resolve_left hpf)

theorem nodeFor_update_page (h : ∀ n, k.page pa ≠ .node n) (hx : ∀ n, x ≠ .node n) :
    NodeFor { k with page := update k.page pa x, freelist := fl } u fp ↔
      NodeFor k u fp := by
  refine exists_congr fun pos => and_congr_right fun _ => ?_
  obtain rfl | hpa := eq_or_ne pos pa
  · simp [h, hx]
  · simp [hpa]

variable {uaddr : UAddr}

theorem Wf.nodeFor_withFutex (hw : Wf k) (hfl : k.freelist = fp0 :: fhn :: rest) :
    NodeFor (withFutex k uaddr fp0 fhn rest) u fp ↔
      NodeFor k u fp ∨ (u = uaddr ∧ fp = fp0) := by
  constructor
  · rintro ⟨pos, hpos, hn⟩
    rcases mem_bucket_withFutex.mp hpos with hold | ⟨-, rfl⟩
    · rw [hw.page_withFutex_of_mem hfl hold] at hn
      exact .inl ⟨pos, hold, hn⟩
    · rw [page_withFutex_node, Page.node.injEq, FutexHashNode.mk.injEq] at hn
      exact .inr ⟨hn.1.symm, hn.2.symm⟩
  · rintro (⟨pos, hpos, hn⟩ | ⟨rfl, rfl⟩)
    · exact ⟨pos, mem_bucket_withFutex.mpr (.inl hpos),
        by rw [hw.page_withFutex_of_mem hfl hpos, hn]⟩
    · exact ⟨fhn, mem_bucket_withFutex.mpr (.inr ⟨rfl, rfl⟩), page_withFutex_node⟩

theorem Unreferenced.withFutex (hu : Unreferenced k fp) (hw : Wf k)
    (hfl : k.freelist = fp0 :: fhn :: rest) :
    Unreferenced (withFutex k uaddr fp0 fhn rest) fp := by
  have hfp := hw.page_withFutex uaddr hfl (show k.page fp ≠ .free by simp [hu.1])
  refine ⟨hfp.trans hu.1, fun u hn => ?_⟩
  rcases (hw.nodeFor_withFutex hfl).mp hn with hn | ⟨-, rfl⟩
  · exact hu.2 u hn
  · have := hw.free fp (by simp [hfl])
    rw [hu.1] at this
    cases this

theorem Unreferenced.update_page (hu : Unreferenced k fp)
    (hne : fp ≠ pa) (h : ∀ n, k.page pa ≠ .node n) (hx : ∀ n, x ≠ .node n) :
    Unreferenced { k with page := update k.page pa x, freelist := fl } fp := by
  refine ⟨by simp [hne, hu.1], fun u => ?_⟩
  rw [nodeFor_update_page h hx]
  exact hu.2 u

/-- The three ways the locked part of a creating `get_futex` ends for an address without
a node: no memory at all, memory for the futex only, or the futex and its node. -/
theorem Wf.getFutexLocked_absent (hw : Wf k) (h : ¬ HasNode k u) :
    getFutexLocked k u false = .ok (.bad none, k) ∨
    (∃ pa, k.freelist = [pa] ∧ getFutexLocked k u false =
      .ok (.bad (some pa), { k with
        page := update k.page pa (.futex ⟨.image "futex", []⟩), freelist := [] })) ∨
    ∃ fp fhn rest, k.freelist = fp :: fhn :: rest ∧
      getFutexLocked k u false = .ok (.got fp, withFutex k u fp fhn rest) := by
  have hlook := hw.lookup_absent h
  match hfl : k.freelist with
  | [] =>
    left
    simp [getFutexLocked, hlook, kmalloc, hfl]
  | [pa] =>
    right; left
    exact ⟨pa, rfl, by simp [getFutexLocked, hlook, kmalloc, hfl, futexInit]⟩
  | fp :: fhn :: rest =>
    right; right
    exact ⟨fp, fhn, rest, rfl, hw.getFutexLocked_create h hfl⟩

theorem Wf.not_nodeFor_of_free (hw : Wf k) (h : k.page pa = .free) (u : UAddr) :
    ¬ NodeFor k u pa := by
  intro hn
  obtain ⟨q, hf⟩ := hn.live hw
  rw [h] at hf
  cases hf

theorem Wf.half_create (hw : Wf k) (hfl : k.freelist = [pa]) :
    Wf { k with
      page := update k.page pa (.futex ⟨.image "futex", []⟩), freelist := [] } := by
  have hpa : k.page pa = .free := hw.free pa (by simp [hfl])
  exact hw.update_page (hw.not_mem_bucket (by simp [hpa])) (hw.not_nodeFor_of_free hpa)
    (by simp) (by simp)

end

end XVapor.FutexTable

namespace XVapor.Wait

open FutexTable Function

variable {T : Type}

/-! ### The invariant -/

/-- What the program counter of a thread says about the table. -/
def PcOk (k : Kern T) : Pc T → Prop
  | .badWait fp => Unreferenced k fp
  | .enq _ q _ (.futex u _) => ∃ fp, q = .futex fp ∧ NodeFor k u fp
  | .enq _ q _ .cond => ∃ c, q = .cond c
  | .enq _ _ _ .chan => False
  | .asleep (.futex u _) => HasNode k u
  | .wake _ q kind => (∃ c, q = .cond c) ∧ (kind = .signal ∨ kind = .broadcast)
  | .badWake _ _ => False
  | .free _ _ _ => False
  | _ => True

/-- The table invariant. -/
structure TableInv (s : WState T) : Prop where
  wf : Wf s.kern
  pcOk : ∀ t, PcOk s.kern (s.pc t)
  bad_inj : ∀ t t' fp, s.pc t = .badWait fp → s.pc t' = .badWait fp → t = t'

theorem TableInv.unreferenced {s : WState T} (hi : TableInv s) {t : T} {fp : ℕ}
    (h : s.pc t = .badWait fp) : Unreferenced s.kern fp := by
  have := hi.pcOk t
  rwa [h] at this

/-- `get_futex` is called only for an address without a node. -/
def GetAbsent (s : WState T) : Act T → Prop
  | .step t =>
    match s.pc t with
    | .getWait u _ _ => ¬ HasNode s.kern u
    | .getWake u _ _ => ¬ HasNode s.kern u
    | _ => True
  | _ => True

/-- **What a step of a thread does** in these runs, in which only the operations on
conditions get to the code that wakes. -/
inductive Stepped [DecidableEq T] (s : WState T) (t : T) : WState T → Prop
  | noMatch {u v timeout} (hp : s.pc t = .copyin u v timeout) : Stepped s t (s.goto t .user)
  | matched {u v timeout} (hp : s.pc t = .copyin u v timeout) :
      Stepped s t (s.goto t (.getWait u v timeout))
  | noFutex {u v timeout} (hp : s.pc t = .getWait u v timeout) : Stepped s t (s.goto t .user)
  | noNode {u v timeout pa} (hp : s.pc t = .getWait u v timeout) (hfl : s.kern.freelist = [pa]) :
      Stepped s t ({ s with kern := { s.kern with
        page := update s.kern.page pa (.futex ⟨.image "futex", []⟩)
        freelist := [] } }.goto t (.badWait pa))
  | create {u v timeout fp fhn rest} (hp : s.pc t = .getWait u v timeout)
      (hno : ¬ HasNode s.kern u) (hfl : s.kern.freelist = fp :: fhn :: rest) :
      Stepped s t ({ s with kern := withFutex s.kern u fp fhn rest }.goto t
        (.enq .lock (.futex fp) timeout (.futex u v)))
  | badWait {fp} (hp : s.pc t = .badWait fp) :
      Stepped s t ({ s with kern := { s.kern with
        page := update s.kern.page fp .free
        freelist := fp :: s.kern.freelist } }.goto t .user)
  | enqLock {q timeout slot} (hp : s.pc t = .enq .lock q timeout slot) (hl : s.lock t = none) :
      Stepped s t ((s.setLock t (some t)).goto t (.enq .state q timeout slot))
  | enqState {q timeout slot} (hp : s.pc t = .enq .state q timeout slot) :
      Stepped s t ((s.setState t .sleeping).goto t (.enq .push q timeout slot))
  | enqPush {q timeout slot} (hp : s.pc t = .enq .push q timeout slot)
      (hq : queueLive s.kern q = true) :
      Stepped s t ((s.setQueue q (s.queue q ++ [t])).goto t (.enq .chan q timeout slot))
  | enqChan {q timeout slot} (hp : s.pc t = .enq .chan q timeout slot) :
      Stepped s t ((s.setWaitChan t (some q)).goto t (.enq .timeout q timeout slot))
  | enqTimeout {q timeout slot} (hp : s.pc t = .enq .timeout q timeout slot) :
      Stepped s t ((s.setTimeout t timeout).goto t (.enq .sched q timeout slot))
  | enqSched {q timeout slot} (hp : s.pc t = .enq .sched q timeout slot) :
      Stepped s t ((s.setLock t none).goto t (.asleep slot))
  | slpLock {c timeout} (hp : s.pc t = .slp .lock c timeout) (hl : s.lock t = none) :
      Stepped s t ((s.setLock t (some t)).goto t (.slp .state c timeout))
  | slpState {c timeout} (hp : s.pc t = .slp .state c timeout) :
      Stepped s t ((((s.setChan t c).setTimeout t timeout).setState t .sleeping).goto t
        (.slp .sched c timeout))
  | slpSched {c timeout} (hp : s.pc t = .slp .sched c timeout) :
      Stepped s t ((s.setLock t none).goto t (.asleep .chan))
  | getWake {u n exiting} (hp : s.pc t = .getWake u n exiting) (hno : ¬ HasNode s.kern u) :
      Stepped s t (s.endWake t exiting)
  | wakeTest {c kind} (hp : s.pc t = .wake .test (.cond c) kind) :
      Stepped s t (s.goto t (.wake .pop (.cond c) kind))
  | wakeDone {c kind} (hp : s.pc t = .wake .test (.cond c) kind) : Stepped s t (s.goto t .user)
  | wakePop {c kind w rest} (hp : s.pc t = .wake .pop (.cond c) kind)
      (hq : s.queue (.cond c) = w :: rest) :
      Stepped s t ((s.setQueue (.cond c) rest).goto t (.wake (.lock w) (.cond c) kind))
  | wakeCheck {c kind w} (hp : s.pc t = .wake (.check w) (.cond c) kind) :
      Stepped s t (s.goto t (.wake (.lock w) (.cond c) kind))
  | wakeLock {c kind w} (hp : s.pc t = .wake (.lock w) (.cond c) kind) (hl : s.lock w = none) :
      Stepped s t ((s.setLock w (some t)).goto t (.wake (.body w) (.cond c) kind))
  | wakeBody {c kind w} (hp : s.pc t = .wake (.body w) (.cond c) kind) :
      Stepped s t (((s.setWaitChan w none).setState w .runnable).goto t
        (.wake (.release w) (.cond c) kind))
  | signaled {c w} (hp : s.pc t = .wake (.release w) (.cond c) .signal) :
      Stepped s t ((s.setLock w none).goto t .user)
  | wakeNext {c w} (hp : s.pc t = .wake (.release w) (.cond c) .broadcast) :
      Stepped s t ((s.setLock w none).goto t (.wake .test (.cond c) .broadcast))
  | notSleeping {c kind w} (hp : s.pc t = .wake (.check w) (.cond c) kind ∨
      s.pc t = .wake (.body w) (.cond c) kind) (hs : s.state w ≠ .sleeping) :
      Stepped s t (s.crash (kind.notSleeping (s.state w)))
  | crash {e} (he : ∀ (kind : WakeKind) st, e ≠ kind.notSleeping st) : Stepped s t (s.crash e)
  | noTid (hp : s.pc t = .exit) : Stepped s t (s.goto t .exitLock)
  | exitWake {u} (hp : s.pc t = .exit) : Stepped s t (s.beginWake t u 1 true)
  | exitStore {u} (hp : s.pc t = .exit) : Stepped s t ((s.store u 0).beginWake t u 1 true)
  | exitLock (hp : s.pc t = .exitLock) (hl : s.lock t = none) :
      Stepped s t ((s.setLock t (some t)).goto t .exitFree)
  | exitFree (hp : s.pc t = .exitFree) :
      Stepped s t (((resetTcb s t).setState t .unused).setLock t none |>.goto t .user)

section

variable {k k' : Kern T}

theorem PcOk.mono {pc : Pc T} (h : PcOk k pc) (hN : ∀ u fp, NodeFor k u fp → NodeFor k' u fp)
    (hU : ∀ fp, pc = .badWait fp → Unreferenced k fp → Unreferenced k' fp) :
    PcOk k' pc := by
  have hH : ∀ u, HasNode k u → HasNode k' u := by
    rintro u ⟨pos, hpos, fp, hn⟩
    exact (hN u fp ⟨pos, hpos, hn⟩).hasNode
  cases pc with
  | badWait fp => exact hU fp rfl h
  | enq stage q timeout slot =>
    cases slot with
    | futex u v =>
      obtain ⟨fp, rfl, hn⟩ := h
      exact ⟨fp, rfl, hN u fp hn⟩
    | cond => exact h
    | chan => exact h
  | asleep slot =>
    cases slot with
    | futex u v => exact hH u h
    | cond => trivial
    | chan => trivial
  | wake stage q kind => exact h
  | badWake fp exiting => exact h
  | free fp u exiting => exact h
  | user | copyin | getWait | slp | getWake | exit | exitLock | exitFree => trivial

end

section

variable [DecidableEq T] {s s' : WState T} {t : T}

/-- **The general step**: the table changes so that the nodes and the unreferenced pages of
the other threads stay, and one thread moves on. -/
theorem TableInv.step_of (hi : TableInv s) {p : Pc T} (hwf : Wf s'.kern)
    (hN : ∀ u fp, NodeFor s.kern u fp → NodeFor s'.kern u fp)
    (hU : ∀ t' fp, t' ≠ t → s.pc t' = .badWait fp → Unreferenced s'.kern fp)
    (hp : PcOk s'.kern p) (hbad : ∀ t' fp, t' ≠ t → p = .badWait fp → s.pc t' ≠ .badWait fp)
    (hpc : s'.pc = update s.pc t p) : TableInv s' := by
  refine ⟨hwf, ?_, ?_⟩
  · intro t'
    by_cases ht : t' = t
    · rwa [ht, hpc, update_self]
    · rw [hpc, update_of_ne ht]
      exact (hi.pcOk t').mono hN fun fp hfp _ => hU t' fp ht hfp
  · intro t1 t2 fp h₁ h₂
    rw [hpc] at h₁ h₂
    by_cases h1 : t1 = t <;> by_cases h2 : t2 = t
    · rw [h1, h2]
    · rw [h1, update_self] at h₁
      rw [update_of_ne h2] at h₂
      exact absurd h₂ (hbad t2 fp h2 h₁)
    · rw [update_of_ne h1] at h₁
      rw [h2, update_self] at h₂
      exact absurd h₁ (hbad t1 fp h1 h₂)
    · rw [update_of_ne h1] at h₁
      rw [update_of_ne h2] at h₂
      exact hi.bad_inj t1 t2 fp h₁ h₂

theorem TableInv.move (hi : TableInv s) {p : Pc T}
    (hpc : s'.pc = update s.pc t p) (hk : s'.kern = s.kern) (hp : PcOk s.kern p)
    (hbad : ∀ fp, p ≠ .badWait fp) : TableInv s' := by
  refine hi.step_of (hk ▸ hi.wf) (fun u fp h => hk ▸ h) ?_ (hk ▸ hp)
    (fun _ fp _ h => absurd h (hbad fp)) hpc
  intro t' fp _ h
  exact hk ▸ hi.unreferenced h

omit [DecidableEq T] in
theorem TableInv.frame (hi : TableInv s) (hk : s'.kern = s.kern) (hpc : s'.pc = s.pc) :
    TableInv s' :=
  ⟨hk ▸ hi.wf, by rw [hk, hpc]; exact hi.pcOk, by rw [hpc]; exact hi.bad_inj⟩

omit [DecidableEq T] in
theorem Boot.tableInv (h : Boot s) : TableInv s := by
  obtain ⟨n, hk⟩ := h.kern
  refine ⟨hk ▸ wf_boot n, ?_, ?_⟩
  · intro t
    rw [h.pc t]
    trivial
  · intro t t' fp ht
    rw [h.pc t] at ht
    cases ht

/-! ### All steps -/

section

variable (hi : TableInv s)
include hi

/-- **Every step of a thread is one of these.** -/
theorem TableInv.stepped (hg : GetAbsent s (.step t)) (hs : threadStep s t = some s') :
    Stepped s t s' := by
  have hok := hi.pcOk t
  cases hp : s.pc t with simp only [Wait.threadStep, hp, reduceCtorEq] at hs
  | copyin u v timeout =>
    split at hs
    · cases hs
      exact .noMatch hp
    split at hs
    · cases hs
      exact .noMatch hp
    · cases hs
      exact .matched hp
  | getWait u v timeout =>
    simp only [GetAbsent, hp] at hg
    rcases hi.wf.getFutexLocked_absent hg with h | ⟨pa, hfl, h⟩ | ⟨fp, fhn, rest, hfl, h⟩
    · rw [h] at hs
      cases hs
      exact .noFutex hp
    · rw [h] at hs
      cases hs
      exact .noNode hp hfl
    · rw [h] at hs
      cases hs
      exact .create hp hg hfl
  | badWait fp =>
    simp only [kfree, (hi.unreferenced hp).1] at hs
    cases hs
    exact .badWait hp
  | enq stage q timeout slot =>
    cases stage with
    | lock =>
      obtain ⟨hl, rfl⟩ := guard_eq_some.1 hs
      exact .enqLock hp hl
    | state =>
      cases hs
      exact .enqState hp
    | push =>
      simp only [enqStep] at hs
      split at hs
      next hq =>
        cases hs
        exact .enqPush hp hq
      next =>
        cases hs
        exact .crash (ne_notSleeping (.inl rfl))
    | chan =>
      cases hs
      exact .enqChan hp
    | timeout =>
      cases hs
      exact .enqTimeout hp
    | sched =>
      cases hs
      exact .enqSched hp
  | slp stage c timeout =>
    cases stage with
    | lock =>
      obtain ⟨hl, rfl⟩ := guard_eq_some.1 hs
      exact .slpLock hp hl
    | state =>
      cases hs
      exact .slpState hp
    | sched =>
      cases hs
      exact .slpSched hp
  | getWake u n exiting =>
    simp only [GetAbsent, hp] at hg
    have h : getFutexLocked s.kern u true = .ok (.bad none, s.kern) := by
      simp [getFutexLocked, hi.wf.lookup_absent hg]
    rw [h] at hs
    cases hs
    exact .getWake hp hg
  | badWake fp exiting | free fp u exiting =>
    rw [hp] at hok
    exact hok.elim
  | wake stage q kind =>
    rw [hp] at hok
    obtain ⟨⟨c, rfl⟩, hkind⟩ := hok
    cases stage with
    | test =>
      simp only [wakeStep, queueLive, Bool.true_eq_false, if_false] at hs
      split at hs
      · cases hs
        exact .wakeTest hp
      · cases hs
        rcases hkind with rfl | rfl <;> exact .wakeDone hp
    | pop =>
      simp only [wakeStep, queueLive, Bool.true_eq_false, if_false] at hs
      split at hs
      · cases hs
        rcases hkind with rfl | rfl <;> exact .crash (ne_notSleeping (.inl rfl))
      next w rest hq =>
        rcases hkind with rfl | rfl <;>
        · cases hs
          exact .wakePop hp hq
    | check w =>
      simp only [wakeStep] at hs
      split at hs
      next hst =>
        cases hs
        exact .notSleeping (.inl hp) hst
      next =>
        cases hs
        exact .wakeCheck hp
    | lock w =>
      obtain ⟨hl, rfl⟩ := guard_eq_some.1 hs
      exact .wakeLock hp hl
    | body w =>
      simp only [wakeStep] at hs
      split at hs
      · split at hs
        · cases hs
          exact .crash (ne_notSleeping (.inr rfl))
        · cases hs
          exact .wakeBody hp
      next hst =>
        cases hs
        exact .notSleeping (.inr hp) fun h => hst (.inr h)
    | release w =>
      rcases hkind with rfl | rfl
      · cases hs
        exact .signaled hp
      · cases hs
        exact .wakeNext hp
  | exit =>
    split at hs
    · cases hs
      exact .noTid hp
    split at hs
    · cases hs
      exact .exitWake hp
    · cases hs
      exact .exitStore hp
  | exitLock =>
    obtain ⟨hl, rfl⟩ := guard_eq_some.1 hs
    exact .exitLock hp hl
  | exitFree =>
    cases hs
    exact .exitFree hp

theorem TableInv.pushFutex {l : List T} {p : Pc T} {u : UAddr} {fp : ℕ}
    (hn : NodeFor s.kern u fp) (hk : s'.kern = writeFutexQueue s.kern (.futex fp) l)
    (hpc : s'.pc = update s.pc t p) (hbad : ∀ fp, p ≠ .badWait fp)
    (hp : ∀ k, NodeFor k u fp → PcOk k p) : TableInv s' := by
  obtain ⟨q, hf⟩ := hn.live hi.wf
  have hwrite : writeFutexQueue s.kern (.futex fp) l = FutexTable.setQueue s.kern fp l := by
    simp [writeFutexQueue, hf, FutexTable.setQueue]
  rw [hwrite] at hk
  have hnode : ∀ n, s.kern.page fp ≠ .node n := by simp [hf]
  have hN : ∀ u' fp', NodeFor s.kern u' fp' → NodeFor s'.kern u' fp' := by
    intro u' fp' h
    rw [hk]
    exact (nodeFor_update_page hnode (by simp)).mpr h
  refine hi.step_of (hk ▸ hi.wf.setQueue hf l) hN ?_ (hp _ (hN u fp hn))
    (fun _ fp _ h => absurd h (hbad fp)) hpc
  intro t' fp' _ h
  rw [hk]
  refine (hi.unreferenced h).update_page ?_ hnode (by simp)
  rintro rfl
  exact (hi.unreferenced h).2 u hn

theorem TableInv.threadStep (hg : GetAbsent s (.step t))
    (hs : threadStep s t = some s') : TableInv s' := by
  have hok := hi.pcOk t
  cases hi.stepped hg hs with
  | noMatch | matched | noFutex | slpLock | slpState | slpSched | wakeDone | signaled | noTid
  | exitWake | exitStore | exitLock | exitFree => exact hi.move rfl rfl trivial nofun
  | @getWake u n exiting => cases exiting <;> exact hi.move rfl rfl trivial nofun
  | crash | notSleeping => exact hi.frame rfl rfl
  | @noNode u v timeout pa hp hfl =>
    -- the futex got a page and its node did not: the page goes back at `bad`
    have hpa : s.kern.page pa = .free := hi.wf.free pa (by simp [hfl])
    have hnode : ∀ n, s.kern.page pa ≠ .node n := by simp [hpa]
    have hne : ∀ t' fp, s.pc t' = .badWait fp → fp ≠ pa := by
      rintro t' fp h rfl
      rw [(hi.unreferenced h).1] at hpa
      cases hpa
    refine hi.step_of (p := .badWait pa) (hi.wf.half_create hfl)
      (fun u fp h => (nodeFor_update_page hnode (by simp)).mpr h)
      (fun t' fp _ h => (hi.unreferenced h).update_page (hne t' fp h) hnode (by simp))
      ⟨by simp, fun u h => ?_⟩ ?_ rfl
    · exact hi.wf.not_nodeFor_of_free hpa u ((nodeFor_update_page hnode (by simp)).mp h)
    · rintro t' fp - hfp h
      cases hfp
      exact hne t' pa h rfl
  | @create u v timeout fp fhn rest hp hno hfl =>
    exact hi.step_of (p := .enq .lock (.futex fp) timeout (.futex u v)) (hi.wf.create hno hfl)
      (fun u fp h => (hi.wf.nodeFor_withFutex hfl).mpr (.inl h))
      (fun t' fp _ h => (hi.unreferenced h).withFutex hi.wf hfl)
      ⟨fp, rfl, (hi.wf.nodeFor_withFutex hfl).mpr (.inr ⟨rfl, rfl⟩)⟩ nofun rfl
  | @badWait fp hp =>
    have hu := hi.unreferenced hp
    have hnode : ∀ n, s.kern.page fp ≠ .node n := by simp [hu.1]
    refine hi.step_of (p := .user) (hi.wf.free_unreferenced hu)
      (fun u fp' h => (nodeFor_update_page hnode (by simp)).mpr h) ?_ trivial nofun rfl
    intro t' fp' ht h
    refine (hi.unreferenced h).update_page ?_ hnode (by simp)
    rintro rfl
    exact ht (hi.bad_inj t' t fp' h hp)
  | @enqLock q timeout slot hp | @enqState q timeout slot hp | @enqChan q timeout slot hp
  | @enqTimeout q timeout slot hp =>
    rw [hp] at hok
    refine hi.move rfl rfl ?_ nofun
    cases slot <;> exact hok
  | @enqPush q timeout slot hp =>
    rw [hp] at hok
    cases slot with
    | futex u v =>
      obtain ⟨fp, rfl, hn⟩ := hok
      exact hi.pushFutex hn rfl rfl nofun fun k h => ⟨fp, rfl, h⟩
    | cond =>
      obtain ⟨c, rfl⟩ := hok
      exact hi.move rfl rfl ⟨c, rfl⟩ nofun
    | chan => exact hok.elim
  | @enqSched q timeout slot hp =>
    rw [hp] at hok
    refine hi.move rfl rfl ?_ nofun
    cases slot with
    | futex u v =>
      obtain ⟨fp, -, hn⟩ := hok
      exact hn.hasNode
    | cond => trivial
    | chan => trivial
  | wakeTest hp | wakePop hp | wakeCheck hp | wakeLock hp | wakeBody hp | wakeNext hp =>
    rw [hp] at hok
    exact hi.move rfl rfl hok nofun

theorem TableInv.enter (c : Call) : TableInv (enter s t c) := by
  cases c with
  | futexWait | futexWake | threadSleep | exit => exact hi.move rfl rfl trivial nofun
  | condWait c => exact hi.move rfl rfl ⟨c, rfl⟩ nofun
  | condSignal c => exact hi.move rfl rfl ⟨⟨c, rfl⟩, .inl rfl⟩ nofun
  | condBroadcast c => exact hi.move rfl rfl ⟨⟨c, rfl⟩, .inr rfl⟩ nofun
  | setTid clear => exact hi.frame rfl rfl

omit [DecidableEq T] in
theorem TableInv.resumePc (killed : Bool) :
    PcOk s.kern (resumePc killed (s.pc t)) ∧
      ∀ fp, Wait.resumePc killed (s.pc t) = .badWait fp → s.pc t = .badWait fp := by
  have hok := hi.pcOk t
  cases hp : s.pc t with
  | asleep slot =>
    cases slot <;> cases killed <;> simp [Wait.resumePc, PcOk]
  | _ =>
    rw [hp] at hok
    exact ⟨hok, fun fp h => h⟩

/-- **The table invariant survives every action that meets `GetAbsent`.** -/
theorem TableInv.act {a : Act T} (hg : GetAbsent s a)
    (hs : act s a = some s') : TableInv s' := by
  cases act_inv hs with
  | call => exact hi.enter _
  | step _ hs => exact hi.threadStep hg hs
  | yield | spawn | store | tick | timeout | wakeChan => exact hi.frame rfl rfl
  | @dispatch t =>
    obtain ⟨hok, hbad⟩ := hi.resumePc (t := t) (s.killed t)
    refine hi.step_of hi.wf (fun _ _ h => h) (fun t' fp _ h => hi.unreferenced h) hok ?_ rfl
    exact fun t' fp ht h h' => ht (hi.bad_inj t' t fp h' (hbad fp h))
  | @signal t kill =>
    rcases threadSendSignal_cases s t kill with ⟨-, h⟩ | ⟨-, h⟩ | ⟨-, h⟩ <;>
      exact hi.frame (by rw [h]) (by rw [h])

end

end

end XVapor.Wait
