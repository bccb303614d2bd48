import XVapor.ExitCounts

/-!
# The Zombie is Reaped

What the exits and the waits hand over. A zombie keeps the status of its exit until it is reaped,
which happens once (`Logs`). A thread that sleeps in a wait has looked at all children, and has
been woken by every exit since, because the wakeup and the change of state are made with
`wait_lock` held (`Wakes`).

## Main results

* `handshake_of_reach`: the exit and the wait, when the last thread is the only one.
* `exitsInOrder_of_reach`: several exits, when the last thread is the only one.
-/

namespace XVapor.ExitWait

open Function
open Files (ProcState)
open scoped Sample

variable {K T : Type} [DecidableEq T] {c : Conf K T} {C C' : Core K T} {t u : T} {k q : K}
  {r : Role K T}

/-! ### Exits and reaped children -/

/-- **What has been handed over.** -/
structure Logs (C : Core K T) : Prop where
  reaping : ∀ t q v, C.role t = .reaping q v →
    v.1 = C.pid q ∧ ∀ y, v.2 = some y → y = C.xstate q
  pidLt : ∀ k, C.state k ≠ .unused → C.pid k < C.nextPid
  pidInj : ∀ k k', C.state k ≠ .unused → C.state k' ≠ .unused → C.pid k = C.pid k' → k = k'
  exitLt : ∀ e ∈ C.exits, e.1 < C.nextPid
  exitNodup : (C.exits.map Prod.fst).Nodup
  used : ∀ k, C.state k = .used → C.pid k ∉ C.exits.map Prod.fst
  zombie : ∀ k, C.state k = .zombie →
    (∃ status, (C.pid k, status) ∈ C.exits ∧ C.xstate k = status <<< 8) ∧
      C.pid k ∉ C.reaps.map Prod.fst
  reapNodup : (C.reaps.map Prod.fst).Nodup
  reap : ∀ v ∈ C.reaps, ∃ status, (v.1, status) ∈ C.exits ∧ ∀ y, v.2 = some y → y = status <<< 8
  exit : ∀ e ∈ C.exits, e.1 ∈ C.reaps.map Prod.fst ∨ ∃ k, C.state k = .zombie ∧ C.pid k = e.1

theorem Logs.go (hl : Logs C) (hr : ∀ q v, r = .reaping q v →
    v.1 = C.pid q ∧ ∀ y, v.2 = some y → y = C.xstate q) : Logs (C.go t r) := by
  refine { hl with reaping := fun u q v hu => ?_ }
  obtain rfl | hut := eq_or_ne u t
  · exact hr q v (by simpa [Core.go] using hu)
  · exact hl.reaping u q v (by simpa [Core.go, hut] using hu)

variable [DecidableEq K]

omit [DecidableEq T] in
/-- **A process becomes a zombie**: its exit is new. -/
theorem Logs.zombie_step (hl : Logs C) (hused : C.state k = .used)
    (hnone : ∀ u v, C.role u ≠ .reaping k v) (status : BitVec 32) :
    Logs ({ C with
      xstate := update C.xstate k (status <<< 8)
      state := update C.state k .zombie
      exits := C.exits ++ [(C.pid k, status)] } : Core K T) := by
  have hmono : ∀ e, e ∈ C.exits → e ∈ C.exits ++ [(C.pid k, status)] :=
    fun e he => List.mem_append_left _ he
  have hused' : C.state k ≠ .unused := by
    rw [hused]
    nofun
  have hstate : ∀ k', update C.state k .zombie k' ≠ .unused → C.state k' ≠ .unused := by
    intro k' hk'
    obtain rfl | hkk := eq_or_ne k' k
    · exact hused'
    · rwa [update_of_ne hkk] at hk'
  have hnew : C.pid k ∉ C.reaps.map Prod.fst := by
    rw [List.mem_map]
    rintro ⟨v, hv, heq⟩
    obtain ⟨status', hmem, -⟩ := hl.reap v hv
    exact hl.used k hused (List.mem_map.2 ⟨_, hmem, heq⟩)
  constructor <;> dsimp only
  case reaping =>
    intro u q v hu
    have hqk : q ≠ k := by
      rintro rfl
      exact hnone u v hu
    simpa [hqk] using hl.reaping u q v hu
  case pidLt => exact fun k' hk' => hl.pidLt k' (hstate k' hk')
  case pidInj => exact fun k1 k2 h1 h2 => hl.pidInj k1 k2 (hstate k1 h1) (hstate k2 h2)
  case exitLt =>
    intro e he
    obtain he | he := List.mem_append.1 he
    · exact hl.exitLt e he
    · rw [List.mem_singleton.1 he]
      exact hl.pidLt k hused'
  case exitNodup =>
    rw [List.map_append, List.map_singleton, ← List.concat_eq_append]
    exact hl.exitNodup.concat (hl.used k hused)
  case used =>
    intro k' hk' hmem
    have hkk : k' ≠ k := by
      rintro rfl
      simp at hk'
    rw [update_of_ne hkk] at hk'
    rw [List.map_append, List.mem_append, List.map_singleton, List.mem_singleton] at hmem
    obtain hmem | heq := hmem
    · exact hl.used k' hk' hmem
    · exact hkk (hl.pidInj k' k (by rw [hk']; nofun) hused' heq)
  case zombie =>
    intro k' hk'
    obtain rfl | hkk := eq_or_ne k' k
    · exact ⟨⟨status, by simp, by simp⟩, hnew⟩
    · rw [update_of_ne hkk] at hk'
      obtain ⟨⟨status', hmem, heq⟩, hno⟩ := hl.zombie k' hk'
      exact ⟨⟨status', hmono _ hmem, by simpa [hkk] using heq⟩, hno⟩
  case reapNodup => exact hl.reapNodup
  case reap =>
    intro v hv
    obtain ⟨status', hmem, heq⟩ := hl.reap v hv
    exact ⟨status', hmono _ hmem, heq⟩
  case exit =>
    intro e he
    obtain he | he := List.mem_append.1 he
    · refine (hl.exit e he).imp_right fun ⟨k', hz, heq⟩ => ⟨k', ?_, heq⟩
      have hkk : k' ≠ k := ne_of_values hz hused nofun
      rwa [update_of_ne hkk]
    · rw [List.mem_singleton.1 he]
      exact .inr ⟨k, by simp, rfl⟩

/-- **A zombie is reaped**, for the first time. -/
theorem Logs.reset (hl : Logs C) {v : Found} (ht : C.role t = .reaping q v)
    (hz : C.state q = .zombie) (hone : ∀ u v', C.role u = .reaping q v' → u = t) :
    Logs ({ C with
      pid := update C.pid q 0
      xstate := update C.xstate q 0
      state := update C.state q .unused
      reaps := C.reaps ++ [v] }.go t .out) := by
  obtain ⟨hpid, hstored⟩ := hl.reaping t q v ht
  obtain ⟨⟨status, hmem, hx⟩, hno⟩ := hl.zombie q hz
  have hstate : ∀ k x, update C.state q .unused k = x → x ≠ .unused →
      k ≠ q ∧ C.state k = x := by
    intro k x hk hne
    have hkq : k ≠ q := by
      rintro rfl
      rw [update_self] at hk
      exact hne hk.symm
    exact ⟨hkq, by rwa [update_of_ne hkq] at hk⟩
  constructor <;> simp only [Core.go]
  case reaping =>
    intro u q' v' hu
    have hut : u ≠ t := by
      rintro rfl
      simp at hu
    rw [update_of_ne hut] at hu
    have hqq : q' ≠ q := by
      rintro rfl
      exact hut (hone u v' hu)
    simpa [hqq] using hl.reaping u q' v' hu
  case pidLt =>
    intro k hk
    obtain ⟨hkq, hk'⟩ := hstate k _ rfl hk
    rw [update_of_ne hkq]
    exact hl.pidLt k (hk' ▸ hk)
  case pidInj =>
    intro k k' hk hk' heq
    obtain ⟨hkq, hk1⟩ := hstate k _ rfl hk
    obtain ⟨hkq', hk1'⟩ := hstate k' _ rfl hk'
    rw [update_of_ne hkq, update_of_ne hkq'] at heq
    exact hl.pidInj k k' (hk1 ▸ hk) (hk1' ▸ hk') heq
  case exitLt => exact hl.exitLt
  case exitNodup => exact hl.exitNodup
  case used =>
    intro k hk
    obtain ⟨hkq, hk'⟩ := hstate k _ hk (by simp)
    rw [update_of_ne hkq]
    exact hl.used k hk'
  case zombie =>
    intro k hk
    obtain ⟨hkq, hk'⟩ := hstate k _ hk (by simp)
    rw [update_of_ne hkq, update_of_ne hkq]
    obtain ⟨hexit, hnew⟩ := hl.zombie k hk'
    refine ⟨hexit, ?_⟩
    rw [List.map_append, List.map_singleton, List.mem_append, List.mem_singleton, hpid]
    rintro (h | h)
    · exact hnew h
    · exact hkq (hl.pidInj k q (by simp [hk']) (by simp [hz]) h)
  case reapNodup =>
    rw [List.map_append, List.map_singleton, hpid, ← List.concat_eq_append]
    exact hl.reapNodup.concat hno
  case reap =>
    intro v' hv'
    obtain hv' | hv' := List.mem_append.1 hv'
    · exact hl.reap v' hv'
    · rw [List.mem_singleton.1 hv']
      exact ⟨status, hpid ▸ hmem, fun y hy => (hstored y hy).trans hx⟩
  case exit =>
    intro e he
    rw [List.map_append, List.map_singleton, List.mem_append, List.mem_singleton, hpid]
    obtain h | ⟨k, hk, heq⟩ := hl.exit e he
    · exact .inl (.inl h)
    · obtain rfl | hkq := eq_or_ne k q
      · exact .inl (.inr heq.symm)
      · exact .inr ⟨k, by rwa [update_of_ne hkq], by rwa [update_of_ne hkq]⟩

omit [DecidableEq T] in
theorem Logs.init (hl : Logs C) (hunused : C.state k = .unused)
    (hnone : ∀ u v, C.role u ≠ .reaping k v) :
    Logs ({ C with
      pid := update C.pid k C.nextPid
      nextPid := C.nextPid + 1
      state := update C.state k .used } : Core K T) := by
  have hz : ∀ k', update C.state k .used k' = .zombie → k' ≠ k := by
    rintro k' hk' rfl
    simp at hk'
  constructor <;> dsimp only
  case reaping =>
    intro u q v hu
    have hqk : q ≠ k := by
      rintro rfl
      exact hnone u v hu
    simpa [hqk] using hl.reaping u q v hu
  case pidLt =>
    intro k' hk'
    obtain rfl | hkk := eq_or_ne k' k
    · simp
    · have hlt := hl.pidLt k' (by simpa [hkk] using hk')
      simpa [hkk] using Nat.lt_succ_of_lt hlt
  case pidInj =>
    intro k1 k2 h1 h2 heq
    by_cases hk1 : k1 = k <;> by_cases hk2 : k2 = k
    · rw [hk1, hk2]
    · have hlt := hl.pidLt k2 (by simpa [hk2] using h2)
      simp [hk1, hk2] at heq
      omega
    · have hlt := hl.pidLt k1 (by simpa [hk1] using h1)
      simp [hk1, hk2] at heq
      omega
    · exact hl.pidInj k1 k2 (by simpa [hk1] using h1) (by simpa [hk2] using h2)
        (by simpa [hk1, hk2] using heq)
  case exitLt => exact fun e he => Nat.lt_succ_of_lt (hl.exitLt e he)
  case exitNodup => exact hl.exitNodup
  case used =>
    intro k' hk'
    obtain rfl | hkk := eq_or_ne k' k
    · rw [update_self, List.mem_map]
      rintro ⟨e, he, heq⟩
      exact absurd (hl.exitLt e he) (by omega)
    · rw [update_of_ne hkk] at hk' ⊢
      exact hl.used k' hk'
  case zombie =>
    intro k' hk'
    have hkk := hz k' hk'
    rw [update_of_ne hkk] at hk' ⊢
    exact hl.zombie k' hk'
  case reapNodup => exact hl.reapNodup
  case reap => exact hl.reap
  case exit =>
    intro e he
    refine (hl.exit e he).imp_right fun ⟨k', hk', heq⟩ => ⟨k', ?_⟩
    have hkk : k' ≠ k := ne_of_values hk' hunused nofun
    rw [update_of_ne hkk, update_of_ne hkk]
    exact ⟨hk', heq⟩

theorem Logs.effect (hl : Logs C) (hg : Groups C) (hh : Hands C) (h : Effect c C C') :
    Logs C' := by
  cases h with
  | keep => exact hl
  | look t g _ | skip t g q l _ _ | doze t g _ _ | quit t g l d _ | rewoken t k _
  | rewake t k w ts _ _ _ | reparented t k _ | wake t k w ts _ _ | off t _ => exact hl.go nofun
  | find t g q l _ _ =>
    refine hl.go fun q' v heq => ?_
    obtain ⟨rfl, rfl⟩ := Role.reaping.inj heq
    refine ⟨rfl, fun y hy => ?_⟩
    cases ha : g.addr with
    | false => simp [ha] at hy
    | true => simpa [ha, eq_comm] using hy
  | countLast t k _ _ _ _ =>
    exact { hl.go (t := t) (r := .leaving k true .early) nofun with }
  | count t k _ _ _ => exact { hl.go (t := t) (r := .leaving k false .after) nofun with }
  | reparent t k q _ _ =>
    exact { hl.go (t := t) (r := .leaving k true (.rewaking c.tcbPool)) nofun with }
  | zombie t k status ht _ hnone =>
    have hused : C.state k = .used := hg.used_of_early ht rfl
    exact (hl.zombie_step hused hnone status).go (t := t) (r := .leaving k true .after) nofun
  | unlink t k b _ =>
    exact { hl.go (t := t) (r := .leaving k b .unlinked) (fun _ _ h => nomatch h) with }
  | free t k b _ => exact { hl.go (t := t) (r := .gone true) nofun with }
  | reset t q v ht hone _ => exact { hl.reset ht (hg.reaping t q v ht) hone with }
  | pop t k _ _ => exact { hl.go (t := t) (r := .popped k) nofun with }
  | init t k ht =>
    have hunused := hh.popped t k ht
    have hnone : ∀ u v, C.role u ≠ .reaping k v := by
      intro u v hu
      rw [hg.reaping u k v hu] at hunused
      cases hunused
    exact { (hl.init hunused hnone).go (t := t) (r := .making k) nofun with }
  | alloc t k u _ _ => exact { hl.go (t := t) (r := .taking k u) nofun with }
  | join t k u _ _ =>
    have h := (hl.go (t := u) (r := .fresh) nofun).go (t := t) (r := .made k u) nofun
    exact { h with }
  | adopt t k u _ => exact { hl.go (t := t) (r := .made k u) nofun with }
  | run t k u _ => exact (hl.go (t := u) (r := .out) nofun).go (t := t) (r := .out) nofun

/-! ### Wakeups -/

/-- **Nobody sleeps on a zombie**: a thread that waits has seen no zombie among the children it has
looked at, unless it is about to be woken by `reparent`; and when a process is about to become a
zombie, the threads that wait for it are still to be woken or awake. -/
structure Wakes (c : Conf K T) (C : Core K T) : Prop where
  watch : ∀ w g l d, C.role w = .watching g l d → ∀ k, k ∉ l → C.parent k = C.proc w →
    g.sees (C.pid k) = true → C.state k = .zombie →
    ∃ t k' ts, C.role t = .leaving k' true (.rewaking ts) ∧ w ∈ ts ∧ C.proc w = some c.initproc
  pending : ∀ t k ts, C.role t = .leaving k true (.pending ts) →
    ∀ w g l, C.role w = .watching g l true → C.proc w = C.parent k → w ∈ ts

/-- The thread is about to be woken by `reparent`. -/
def Rewoken (c : Conf K T) (C : Core K T) (w : T) : Prop :=
  ∃ t k ts, C.role t = .leaving k true (.rewaking ts) ∧ w ∈ ts ∧ C.proc w = some c.initproc

section

omit [DecidableEq K]

theorem Rewoken.go {w : T} (h : Rewoken c C w)
    (hold : ∀ k ts, C.role t ≠ .leaving k true (.rewaking ts)) : Rewoken c (C.go t r) w := by
  obtain ⟨t', k, ts, ht', hmem, hinit⟩ := h
  exact ⟨t', k, ts, Core.role_go ht' (hold k ts), hmem, hinit⟩

theorem Wakes.go (hw : Wakes c C) (hold : ∀ k ts, C.role t ≠ .leaving k true (.rewaking ts))
    (hwatch : ∀ g l d, r ≠ .watching g l d)
    (hpend : ∀ k ts, r = .leaving k true (.pending ts) → ∀ w g l, C.role w = .watching g l true →
      C.proc w = C.parent k → w ∈ ts) : Wakes c (C.go t r) := by
  refine ⟨fun w g l d hrole k hk hp hsees hz => ?_, fun t' k ts ht' w g l hrole hp => ?_⟩
  · have hre := hw.watch w g l d (Core.role_of_go hrole (hwatch g l d)) k hk hp hsees hz
    exact Rewoken.go hre hold
  · have hrole' := Core.role_of_go hrole (hwatch g l true)
    by_cases hr : r = .leaving k true (.pending ts)
    · exact hpend k ts hr w g l hrole' hp
    · exact hw.pending t' k ts (Core.role_of_go ht' hr) w g l hrole' hp

theorem Wakes.look (hw : Wakes c C) (hold : ∀ k ts, C.role t ≠ .leaving k true (.rewaking ts))
    {g : Target} {l : List K} {d : Bool}
    (hseen : ∀ k, k ∉ l → C.parent k = C.proc t → g.sees (C.pid k) = true → C.state k = .zombie →
      Rewoken c C t)
    (hdoze : d = true → ∀ u k ts, C.role u ≠ .leaving k true (.pending ts)) :
    Wakes c (C.go t (.watching g l d)) := by
  refine ⟨fun w g' l' d' hrole k hk hp hsees hz => ?_, fun t' k ts ht' w g' l' hrole hp => ?_⟩
  · have hre : Rewoken c C w := by
      obtain rfl | hwt := eq_or_ne w t
      · obtain ⟨rfl, rfl, rfl⟩ : g = g' ∧ l = l' ∧ d = d' := by simpa [Core.go] using hrole
        exact hseen k hk hp hsees hz
      · exact hw.watch w g' l' d' (by simpa [Core.go, hwt] using hrole) k hk hp hsees hz
    exact hre.go hold
  · have ht0 := Core.role_of_go ht' (by simp)
    obtain rfl | hwt := eq_or_ne w t
    · obtain ⟨-, -, rfl⟩ : g = g' ∧ l = l' ∧ d = true := by simpa [Core.go] using hrole
      exact absurd ht0 (hdoze rfl t' k ts)
    · exact hw.pending t' k ts ht0 w g' l' (by simpa [Core.go, hwt] using hrole) hp

end

variable {ts : List T}

section

variable (hw : Wakes c C)
include hw

omit [DecidableEq K] in
theorem Wakes.rewake (ts' : List T)
    (ht : C.role t = .leaving k true (.rewaking ts)) (hr : r = .leaving k true (.rewaking ts') ∨
      ts' = [] ∧ r = .leaving k true .early)
    (hdone : ∀ w, w ∈ ts → w ∉ ts' → C.proc w = some c.initproc →
      ∀ g l d, C.role w ≠ .watching g l d) : Wakes c (C.go t r) := by
  have hwatch : ∀ g l d, r ≠ .watching g l d := by
    obtain rfl | ⟨-, rfl⟩ := hr <;> simp
  refine ⟨fun w g l d hrole k' hk hp hsees hz => ?_, fun t' k' us ht' w g l hrole hp => ?_⟩
  · have hrole' := Core.role_of_go hrole (hwatch g l d)
    obtain ⟨t', k'', us, ht', hmem, hinit⟩ := hw.watch w g l d hrole' k' hk hp hsees hz
    obtain rfl | htt := eq_or_ne t' t
    · rw [ht] at ht'
      obtain ⟨rfl, -, hus⟩ := Role.leaving.inj ht'
      obtain rfl := Stage.rewaking.inj hus
      have hmem' : w ∈ ts' := by
        by_contra hno
        exact hdone w hmem hno hinit g l d hrole'
      obtain hr | ⟨rfl, -⟩ := hr
      · exact ⟨t', k, ts', by simp [Core.go, hr], hmem', hinit⟩
      · cases hmem'
    · exact ⟨t', k'', us, by simpa [Core.go, htt] using ht', hmem, hinit⟩
  · refine hw.pending t' k' us (Core.role_of_go ht' ?_) w g l
      (Core.role_of_go hrole (hwatch g l true)) hp
    obtain rfl | ⟨-, rfl⟩ := hr <;> simp

omit [DecidableEq K] in
theorem Wakes.wake {w0 : T}
    (ht : C.role t = .leaving k true (.pending (w0 :: ts)))
    (hdone : ∀ g l, C.role w0 = .watching g l true → C.proc w0 ≠ C.parent k) :
    Wakes c (C.go t (.leaving k true (.pending ts))) := by
  refine hw.go (by simp [ht]) (by simp) fun k' us heq w g l hrole hp => ?_
  obtain ⟨rfl, rfl⟩ : k = k' ∧ ts = us := by simpa using heq
  obtain rfl | hmem := List.mem_cons.1 (hw.pending t k _ ht w g l hrole hp)
  · exact absurd hp (hdone g l hrole)
  · exact hmem

theorem Wakes.reparent (htcbs : ∀ t, t ∈ c.tcbPool)
    (ht : C.role t = .leaving k true .early)
    (hno : ∀ u k ts, C.role u ≠ .leaving k true (.pending ts)) :
    Wakes c ({ C with parent := update C.parent q (some c.initproc) }.go t
      (.leaving k true (.rewaking c.tcbPool))) := by
  refine ⟨fun w g l d hrole k' hk hp hsees hz => ?_, fun t' k' us ht' w g l hrole hp => ?_⟩
  · obtain rfl | hkq := eq_or_ne k' q
    · exact ⟨t, k, c.tcbPool, by simp [Core.go], htcbs w, by simpa [Core.go, eq_comm] using hp⟩
    · have hre := hw.watch w g l d (Core.role_of_go hrole (by simp)) k' hk
        (by simpa [Core.go, hkq] using hp) hsees hz
      exact Rewoken.go hre (by simp [ht])
  · exact absurd (Core.role_of_go ht' (by simp)) (hno t' k' us)

/-- **The process becomes a zombie, and nobody sleeps on it.** -/
theorem Wakes.zombie (ht : C.role t = .leaving k true (.pending []))
    (hall : ∀ u g l, C.role u ≠ .watching g l false) :
    Wakes c ({ C with state := update C.state k .zombie }.go t
      (.leaving k true .after)) := by
  refine ⟨fun w g l d hrole k' hk hp hsees hz => ?_, fun t' k' us ht' w g l hrole hp => ?_⟩
  · have hrole' : C.role w = .watching g l d := Core.role_of_go hrole (by simp)
    obtain _ | _ := d
    · exact absurd hrole' (hall w g l)
    obtain rfl | hkk := eq_or_ne k' k
    · exact absurd (hw.pending t k' [] ht w g l hrole' hp.symm) List.not_mem_nil
    · have hre := hw.watch w g l true hrole' k' hk hp hsees (by simpa [Core.go, hkk] using hz)
      exact Rewoken.go hre (by simp [ht])
  · exact hw.pending t' k' us (Core.role_of_go ht' (by simp)) w g l (Core.role_of_go hrole (by simp)) hp

omit [DecidableEq T] [DecidableEq K] in
theorem Wakes.procs (state : K → ProcState) (parent : K → Option K) (pid : K → ℕ)
    (hsame : ∀ k', k' ≠ k → state k' = C.state k' ∧ parent k' = C.parent k' ∧ pid k' = C.pid k')
    (hz : state k ≠ .zombie) (hno : ∀ t ts, C.role t ≠ .leaving k true (.pending ts)) :
    Wakes c ({ C with state, parent, pid } : Core K T) := by
  refine ⟨fun w g l d hrole k' hk hp hsees hz' => ?_, fun t' k' us ht' w g l hrole hp => ?_⟩
  · have hkk : k' ≠ k := by
      rintro rfl
      exact hz hz'
    obtain ⟨hs, hpar, hpid⟩ := hsame k' hkk
    exact hw.watch w g l d hrole k' hk (hpar ▸ hp) (hpid ▸ hsees) (hs ▸ hz')
  · have hkk : k' ≠ k := by
      rintro rfl
      exact hno t' us ht'
    exact hw.pending t' k' us ht' w g l hrole (hp.trans (hsame k' hkk).2.1)

omit [DecidableEq K] in
theorem Wakes.proc (ht : ∀ g l d, C.role t ≠ .watching g l d) (p : Option K) :
    Wakes c ({ C with proc := update C.proc t p } : Core K T) := by
  have hsame : ∀ w g l d, C.role w = .watching g l d → update C.proc t p w = C.proc w := by
    intro w g l d hrole
    refine update_of_ne ?_ _ _
    rintro rfl
    exact ht g l d hrole
  refine ⟨fun w g l d hrole k hk hp hsees hz => ?_, fun t' k ts ht' w g l hrole hp => ?_⟩
  · have heq := hsame w g l d hrole
    dsimp only at hp ⊢
    rw [heq] at hp ⊢
    exact hw.watch w g l d hrole k hk hp hsees hz
  · exact hw.pending t' k ts ht' w g l hrole ((hsame w g l true hrole).symm.trans hp)

/-- Whether the thread is in the loop of `reparent` that wakes. -/
def Role.rewakes : Role K T → Bool
  | .leaving _ last (.rewaking _) => last
  | _ => false

/-- Whether the thread waits for a child, or has a parent to wake. -/
def Role.waits : Role K T → Bool
  | .watching _ _ _ => true
  | .leaving _ last (.pending _) => last
  | _ => false

theorem Wakes.effect (hg : Groups C) (hh : Hands C)
    (hprocs : ∀ k, k ∈ c.procTable) (htcbs : ∀ t, t ∈ c.tcbPool) (h : Effect c C C') :
    Wakes c C' := by
  -- a thread that wakes nobody goes on to wake nobody
  have hgo : ∀ {t : T} {r r0 : Role K T}, C.role t = r0 → r0.rewakes = false →
      r.waits = false → Wakes c (C.go t r) := by
    rintro t r r0 rfl hold hr
    refine hw.go (fun k ts h => ?_) (fun g l d h => ?_) fun k ts h => ?_
    · simp [h, Role.rewakes] at hold
    all_goals simp [h, Role.waits] at hr
  cases h with
  | keep => exact hw
  | look t g ht =>
    exact hw.look (by simp [ht]) (fun k hk => absurd (hprocs k) hk) (by simp)
  | skip t g q l ht hq =>
    refine hw.look (by simp [ht]) (fun k hk hp hsees hz => ?_) (by simp)
    obtain rfl | hkq := eq_or_ne k q
    · exact absurd hz (hq hp hsees)
    · exact hw.watch t g (q :: l) false ht k (by simp [hkq, hk]) hp hsees hz
  | doze t g ht hno =>
    exact hw.look (by simp [ht]) (hw.watch t g [] false ht) fun _ => hno
  | quit t g l d ht | find t g q l ht _ | off t ht => exact hgo ht rfl rfl
  | countLast t k ht _ _ _ =>
    exact { hgo (r := .leaving k true .early) ht rfl rfl with }
  | count t k ht _ _ =>
    exact { hgo (r := .leaving k false .after) ht rfl rfl with }
  | reparent t k q ht hno => exact hw.reparent htcbs ht hno
  | rewoken t k ht =>
    exact hw.rewake [] ht (.inr ⟨rfl, rfl⟩) fun w hw => by cases hw
  | rewake t k w ts ht hall hdone =>
    refine hw.rewake ts ht (.inl rfl) fun w' hw' hno hinit g l d hrole => ?_
    obtain rfl | hmem := List.mem_cons.1 hw'
    · cases d with
      | false => exact hall w' g l hrole
      | true => exact hdone g l hrole hinit
    · exact hno hmem
  | reparented t k ht =>
    refine hw.go (by simp [ht]) (by simp) fun k' ts heq w _ _ _ _ => ?_
    obtain ⟨-, -, hts⟩ := Role.leaving.inj heq
    obtain rfl := Stage.pending.inj hts
    exact htcbs w
  | wake t k w ts ht hdone => exact hw.wake ht hdone
  | zombie t k status ht hall _ => exact { hw.zombie ht hall with }
  | unlink t k b ht => exact { hgo (r := .leaving k b .unlinked) ht rfl rfl with }
  | free t k b ht =>
    have h := (hgo (r := .gone true) ht rfl rfl).proc (t := t)
      (by simp [Core.go]) none
    exact { h with }
  | reset t q v ht _ hnone =>
    have hno : ∀ u ts, (C.go t .out).role u ≠ .leaving q true (.pending ts) := by
      exact fun u ts hu => hnone u (hg.leaving u q true _ (Core.role_of_go hu (by simp)))
    have h := (hgo (r := .out) ht rfl rfl).procs (k := q)
      (update C.state q .unused) (update C.parent q none)
      (update C.pid q 0) (fun k hk => by simp [Core.go, hk]) (by simp) hno
    exact { h with }
  | pop t k ht hk => exact { hgo (r := .popped k) ht rfl rfl with }
  | init t k ht =>
    have hnone := (hh.maker t k (by rw [ht]; rfl)).2
    have hno : ∀ u ts, (C.go t (.making k)).role u ≠ .leaving k true (.pending ts) := by
      exact fun u ts hu => hnone u (hg.leaving u k true _ (Core.role_of_go hu (by simp)))
    have h := (hgo (r := .making k) ht rfl rfl).procs (k := k)
      (update C.state k .used) C.parent (update C.pid k C.nextPid) (fun k' hk => by simp [Core.go, hk])
      (by simp) hno
    exact { h with }
  | alloc t k u ht hu => exact { hgo (r := .taking k u) ht rfl rfl with }
  | join t k u ht hu =>
    have htu : t ≠ u := ne_of_values ht hu (by simp)
    have ht' : (C.go u .fresh).role t = .taking k u := (update_of_ne htu _ _).trans ht
    have hfresh : Wakes c (C.go u .fresh) := hgo hu rfl rfl
    have hmade : Wakes c ((C.go u .fresh).go t (.made k u)) :=
      hfresh.go (by simp [ht']) (by simp) (by simp)
    have hrole : ((C.go u .fresh).go t (.made k u)).role u = .fresh := by
      simp [Core.go, htu.symm]
    exact { hmade.proc (t := u) (by simp [hrole]) (some k) with }
  | adopt t k u ht =>
    -- the new process has a thread that has not started, so it is no zombie and nobody leaves it
    obtain ⟨hfresh, hp⟩ := hh.made t k u ht
    have hused : C.state k = .used := (hg.state u k hp).resolve_right (by simp [hfresh])
    have hno : ∀ t' ts, (C.go t (.made k u)).role t' ≠ .leaving k true (.pending ts) := by
      intro t' ts ht'
      have ht0 := Core.role_of_go ht' (by simp)
      obtain rfl := hg.last t' k _ ht0 u hp
      rw [hfresh] at ht0
      cases ht0
    exact { (hgo (r := .made k u) ht rfl rfl).procs (k := k) C.state
      (update C.parent k (C.proc t)) C.pid (fun k' hk => by simp [Core.go, hk])
      (by simp [hused]) hno with }
  | run t k u ht =>
    have hfresh := (hh.made t k u ht).1
    have htu : t ≠ u := ne_of_values ht hfresh (by simp)
    have ht' : (C.go u .out).role t = .made k u := (update_of_ne htu _ _).trans ht
    have hout : Wakes c (C.go u .out) := hgo hfresh rfl rfl
    exact hout.go (by simp [ht']) (by simp) (by simp)

end

/-! ### Runs -/

variable [Fintype T] {s s' : St K T}

/-- Everything that holds between steps. -/
structure Inv (c : Conf K T) (s : St K T) : Prop where
  procTable : ∀ k, k ∈ c.procTable
  tcbPool : ∀ t, t ∈ c.tcbPool
  locks : Locks s
  groups : Groups s.core
  hands : Hands s.core
  counts : Counts s.core
  logs : Logs s.core
  wakes : Wakes c s.core

omit [DecidableEq T] in
theorem Boot.role (h : Boot c s) (t : T) :
    s.core.role t = if s.proc t = none then .gone false else .out := by
  change (s.pc t).role = _
  rw [h.pc t]
  split <;> rfl

omit [DecidableEq T] in
theorem Boot.inv (h : Boot c s) : Inv c s := by
  have hout : ∀ t, s.core.role t = .gone false ∧ s.proc t = none ∨
      s.core.role t = .out ∧ s.proc t ≠ none := by
    intro t
    rw [h.role t]
    split
    next hn => exact .inl ⟨rfl, hn⟩
    next hn => exact .inr ⟨rfl, hn⟩
  have hrole : ∀ {t r}, s.core.role t = r → r = .gone false ∨ r = .out := by
    rintro t _ rfl
    exact (hout t).imp And.left And.left
  have hpc : ∀ t, s.pc t = .unused ∨ s.pc t = .user := by
    intro t
    rw [h.pc t]
    split
    · exact .inl rfl
    · exact .inr rfl
  have hplain : ∀ t, (s.core.role t).maker = none ∧ (s.core.role t).hand = none ∧
      s.core.seat t = s.proc t := by
    intro t
    change _ ∧ _ ∧ (s.core.role t).seat (s.proc t) = s.proc t
    obtain ⟨hr, -⟩ | ⟨hr, -⟩ := hout t <;> · rw [hr]; exact ⟨rfl, rfl, rfl⟩
  refine ⟨h.procTable, h.tcbPool, ?_, ?_, ?_, ?_, ?_, ?_⟩
  · constructor <;> intro t l ht <;> obtain hp | hp := hpc t <;>
      simp [hp, Pc.holdsWait, Pc.holdsLock, Pc.holdsLast, Pc.holdsTcb] at ht
  · have hno : ∀ t k b stage, s.core.role t ≠ .leaving k b stage :=
      fun t k b stage hl => by simpa using hrole hl
    constructor
    case gone =>
      intro t
      change s.proc t = none ↔ _
      obtain ⟨hr, hn⟩ | ⟨hr, hn⟩ := hout t <;> simp [hr, hn, Role.isGone]
    case leaving => exact fun t k b stage hl => absurd hl (hno t k b stage)
    case linked =>
      intro t k hk
      change s.proc t = some k
      rw [← h.linked t]
      exact hk
    case last | dead => exact fun t k stage hl => absurd hl (hno t k true stage)
    case state => exact fun t k hk => .inl (h.proc t k hk)
    case unlinked => exact fun t k b hl => absurd hl (hno t k b _)
    case freed => exact fun t ht => by simpa using hrole ht
    case unfreed => exact fun t _ => h.frees t
    case reaping => exact fun t q v ht => by simpa using hrole ht
  · constructor
    case unusedProc => exact fun k hk => (h.unusedProc k).1 hk
    case popped | making => exact fun t k hr => by simpa using hrole hr
    case taking | taken | made => exact fun t k u hr => by simpa using hrole hr
    case maker => exact fun t k hm => by rw [(hplain t).1] at hm; cases hm
    case maker_inj => exact fun t t' k hm => by rw [(hplain t).1] at hm; cases hm
    case unusedTcb =>
      intro t ht
      obtain ⟨hr, -⟩ | ⟨-, hn⟩ := hout t
      · rw [hr]
        rfl
      · exact absurd ((h.unusedTcb t).1 ht) hn
    case hand_inj => exact fun t t' u hm => by rw [(hplain t).2.1] at hm; cases hm
  · have hseat : s.core.seat = s.proc := funext fun t => (hplain t).2.2
    constructor
    case cnt =>
      intro k _
      rw [hseat]
      exact h.threadCnt k
    case exits =>
      intro k _
      refine .inl ⟨h.procExits k, fun t ht => ?_⟩
      obtain ⟨hr, -⟩ | ⟨hr, -⟩ := hout t <;> simp [hr, Role.lastOf] at ht
    case zombie => exact fun k hk => absurd hk (h.state k)
    case alive =>
      intro k hk _
      obtain ⟨t, ht⟩ := h.threads k hk
      left
      change 0 < s.threadCnt k
      rw [h.threadCnt k]
      exact_mod_cast one_le_tally (q := (· = some k)) ht
  · have hexits : s.core.exits = [] := h.exits
    have hreaps : s.core.reaps = [] := h.reaps
    constructor
    case reaping => exact fun t q v ht => by simpa using hrole ht
    case pidLt => exact h.pidLt
    case pidInj => exact h.pidInj
    case zombie => exact fun k hk => absurd hk (h.state k)
    all_goals simp [hexits, hreaps]
  · exact ⟨fun w g l d hr => by simpa using hrole hr,
      fun t k ts hr => by simpa using hrole hr⟩

theorem Inv.step {a : Act K T} (h : Inv c s) (hok : Orderly s a) (hs : act c s a = some s') :
    Inv c s' := by
  obtain ⟨hlocks, C1, h₁, h2⟩ := act_effect h.locks h.groups h.hands hok hs
  have hg1 := h.groups.effect h.hands h₁
  have hh1 := h.hands.effect h.groups h₁
  exact ⟨h.procTable, h.tcbPool, hlocks, hg1.effect hh1 h2, hh1.effect hg1 h2,
    (h.counts.effect h.groups h.hands h₁).effect hg1 hh1 h2,
    (h.logs.effect h.groups h.hands h₁).effect hg1 hh1 h2,
    (h.wakes.effect h.groups h.hands h.procTable h.tcbPool h₁).effect hg1 hh1 h.procTable
      h.tcbPool h2⟩

theorem inv_of_reach (h : (machine c).Reach Orderly s) : Inv c s :=
  h.invariant (fun _ hs => Boot.inv hs) fun _ _ _ hi hok hs => hi.step hok hs

/-- **What the exit and the wait hand over.** -/
structure Handshake (s : St K T) : Prop where
  /-- The page table is released after `free_thread` of the last thread. -/
  table : ∀ a q v, s.pc a = .freeTable q v → s.procExits q = 1 ∧ ∀ t, s.proc t ≠ some q
  /-- A thread is made anew when the CPU is off its stack. -/
  stack : ∀ a k t, s.pc a = .tcbInit k t → s.pc t = .unused
  /-- No exit is reaped twice, and none is lost. -/
  once : (s.exits.map Prod.fst).Nodup ∧ (s.reaps.map Prod.fst).Nodup
  reaped : ∀ e ∈ s.exits, e.1 ∈ s.reaps.map Prod.fst ∨ ∃ k, s.state k = .zombie ∧ s.pid k = e.1
  zombie : ∀ k, s.state k = .zombie → s.pid k ∈ s.exits.map Prod.fst ∧
    s.pid k ∉ s.reaps.map Prod.fst
  /-- A call returns the pid of an exit, and stores its status. -/
  status : ∀ v ∈ s.reaps, ∃ status, (v.1, status) ∈ s.exits ∧ ∀ y, v.2 = some y → y = status <<< 8
  /-- When a child is about to become a zombie, no thread of the parent sleeps in a wait. -/
  woken : ∀ t k status, s.pc t = .zombie k status → ∀ w g, s.pc w = .asleep g →
    s.proc w ≠ s.parent k
  /-- No thread sleeps on a zombie, if `reparent` is not about to wake it. -/
  awake : ∀ w g k, s.pc w = .asleep g → s.parent k = s.proc w → g.sees (s.pid k) = true →
    s.state k = .zombie → ∃ t k' status l ts, s.pc t = .rewake k' status l ts ∧ w ∈ ts

/-- **The exit and the wait**, when a thread that counts down from one is the only one left. -/
theorem handshake_of_reach (h : (machine c).Reach Orderly s) : Handshake s := by
  have hi := inv_of_reach h
  constructor
  case table =>
    intro a q v ha
    have hrole : s.core.role a = .reaping q v := congrArg Pc.role ha
    exact ⟨hi.counts.zombie q (hi.groups.reaping a q v hrole),
      no_proc_of_reaping hi.locks hi.groups hrole (by rw [ha]; rfl)⟩
  case stack =>
    intro a k t ha
    have hrole : s.core.role a = .taking k t := congrArg Pc.role ha
    exact pc_unused_of_taking hi.locks hi.hands hrole (by rw [ha]; rfl)
  case once => exact ⟨hi.logs.exitNodup, hi.logs.reapNodup⟩
  case reaped => exact hi.logs.exit
  case zombie =>
    intro k hk
    obtain ⟨⟨status, hmem, -⟩, hno⟩ := hi.logs.zombie k hk
    exact ⟨List.mem_map.2 ⟨_, hmem, rfl⟩, hno⟩
  case status => exact hi.logs.reap
  case woken =>
    intro t k status ht w g hw hp
    have hmem := hi.wakes.pending t k [] (congrArg Pc.role ht) w g [] (congrArg Pc.role hw) hp
    cases hmem
  case awake =>
    intro w g k hw hp hsees hz
    obtain ⟨t, k', ts, ht, hmem, -⟩ :=
      hi.wakes.watch w g [] true (congrArg Pc.role hw) k List.not_mem_nil hp hsees hz
    obtain ⟨status, l, hpc⟩ := pc_rewake_of_role ht
    exact ⟨t, k', status, l, ts, hpc, hmem⟩

/-- **Several threads exit in order.** -/
structure ExitsInOrder (s : St K T) : Prop where
  /-- At most one thread runs `proc_exit`, and one does when all have been counted down. -/
  one : ∀ k, s.state k ≠ .unused → s.procExits k ≤ 1
  all : ∀ k, (∃ t, s.proc t = some k) → (∀ t, s.core.seat t ≠ some k) → s.procExits k = 1
  /-- `free_thread` is called once for each. -/
  unfreed : ∀ t, s.proc t ≠ none → s.frees t = 0
  freed : ∀ t, (s.pc t).role = .gone true → s.frees t = 1
  /-- `freeproc` begins after the last access to the process. -/
  after : ∀ a q v, s.pc a = .freeTable q v ∨ s.pc a = .reset q v →
    ∀ t, s.proc t ≠ some q ∧ s.linked t ≠ some q ∧ s.pc t ≠ .unlast q

/-- **Several exits**, when a thread that counts down from one is the only one left. -/
theorem exitsInOrder_of_reach (h : (machine c).Reach Orderly s) : ExitsInOrder s := by
  have hi := inv_of_reach h
  constructor
  case one =>
    intro k hk
    cases hst : s.state k with
    | unused => exact absurd hst hk
    | used =>
      obtain ⟨h0, -⟩ | ⟨h1, -⟩ := hi.counts.exits k hst
      · exact h0.le.trans (Nat.zero_le 1)
      · exact h1.le
    | zombie => exact (hi.counts.zombie k hst).le
  case all =>
    rintro k ⟨t, ht⟩ hseat
    obtain hused | ⟨hz, -⟩ := hi.groups.state t k ht
    · obtain ⟨h0, -⟩ | ⟨h1, -⟩ := hi.counts.exits k hused
      · have hcnt := hi.counts.cnt k hused
        rw [tally_eq_zero.2 hseat] at hcnt
        obtain hpos | ⟨u, hu⟩ := hi.counts.alive k hused h0
        · rw [hcnt] at hpos
          exact absurd hpos (by simp)
        · exact absurd ht ((hi.hands.maker u k hu).2 t)
      · exact h1
    · exact hi.counts.zombie k hz
  case unfreed => exact hi.groups.unfreed
  case freed => exact hi.groups.freed
  case after =>
    intro a q v ha t
    have hrole : s.core.role a = .reaping q v ∧ (s.pc a).holdsLast = some q := by
      obtain ha | ha := ha
      · exact ⟨congrArg Pc.role ha, by rw [ha]; rfl⟩
      · exact ⟨congrArg Pc.role ha, by rw [ha]; rfl⟩
    have hnone := no_proc_of_reaping hi.locks hi.groups hrole.1 hrole.2 t
    refine ⟨hnone, fun hl => hnone (hi.groups.linked t q hl), fun ht => ?_⟩
    obtain rfl := hi.locks.last.excl (show (s.pc t).holdsLast = some q by rw [ht]; rfl) hrole.2
    obtain ha | ha := ha <;> · rw [ha] at ht; cases ht

/-! ### Runs of three threads -/

/-- Two processes and three threads; the first process is the first of the table. -/
def twoProcs : Conf (Fin 2) (Fin 3) := ⟨[0, 1], [0, 1, 2], 0⟩

/-- The first process has one thread, and its child the threads in `l`. -/
def parentAnd (l : List (Fin 3)) : St (Fin 2) (Fin 3) where
  waitLock := none
  lock _ := none
  lastLock _ := none
  tcbLock _ := none
  state _ := .used
  parent k := if k = 1 then some 0 else none
  pid k := k.val + 1
  xstate _ := 0
  unusedProc _ := false
  threadCnt k := if k = 0 then 1 else l.length
  linked t := if t = 0 then some 0 else if t ∈ l then some 1 else none
  proc t := if t = 0 then some 0 else if t ∈ l then some 1 else none
  unusedTcb t := decide (t ≠ 0 ∧ t ∉ l)
  pc t := if t = 0 ∨ t ∈ l then .user else .unused
  nextPid := 3
  exits := []
  reaps := []
  procExits _ := 0
  frees _ := 0

theorem boot_two : Boot twoProcs (parentAnd [1, 2]) := by
  constructor <;> decide

/-- Steps of one thread. -/
def steps (t : Fin 3) (n : ℕ) (b : Bool) : List (Act (Fin 2) (Fin 3)) :=
  List.replicate n (.step t b)

/-- The only thread of the child exits with the status 7 while the parent waits, asleep. -/
def reapRun : List (Act (Fin 2) (Fin 3)) :=
  .wait 0 ⟨none, true, false⟩ :: steps 0 10 false ++ .exit 1 7 :: steps 1 20 true ++
    steps 0 13 true

/-- The child is reaped, with its status. -/
theorem handshake_reaped : ∃ s, (machine twoProcs).exec (parentAnd [1]) reapRun = some s ∧
    s.reaps = [(2, some 0x700)] ∧ Handshake s := by
  obtain ⟨s, hs, hreaps⟩ : ∃ s ∈ (machine twoProcs).exec (parentAnd [1]) reapRun,
      s.reaps = [(2, some 0x700)] := by
    decide +kernel
  have hok : (machine twoProcs).Along Orderly (parentAnd [1]) reapRun := by decide +kernel
  have hboot : Boot twoProcs (parentAnd [1]) := by
    constructor <;> decide
  exact ⟨s, hs, hreaps, handshake_of_reach ((Machine.Reach.init hboot).exec_along hok hs)⟩

/-- Two threads of the child exit, one after the other. -/
def orderRun : List (Act (Fin 2) (Fin 3)) :=
  .exit 1 0 :: steps 1 6 true ++ .exit 2 7 :: steps 2 20 true

/-- The two threads have been freed, and one of them has run `proc_exit`. -/
theorem exitsInOrder_two : ∃ s, (machine twoProcs).exec (parentAnd [1, 2]) orderRun = some s ∧
    s.procExits 1 = 1 ∧ ExitsInOrder s := by
  obtain ⟨s, hs, hexits⟩ : ∃ s ∈ (machine twoProcs).exec (parentAnd [1, 2]) orderRun,
      s.procExits 1 = 1 := by
    decide +kernel
  have hok : (machine twoProcs).Along Orderly (parentAnd [1, 2]) orderRun := by decide +kernel
  exact ⟨s, hs, hexits, exitsInOrder_of_reach ((Machine.Reach.init boot_two).exec_along hok hs)⟩

/-- Two threads of the child exit: the first is counted down and stops, the second is the last;
then the parent reaps the child. -/
def earlyRun : List (Act (Fin 2) (Fin 3)) :=
  .exit 1 0 :: steps 1 1 true ++ .exit 2 7 :: steps 2 20 true ++
    .wait 0 ⟨none, true, false⟩ :: steps 0 6 true

/-- **A thread is freed while it exits.** Thread 1 has been counted down, and has not yet left the
list of its process when the parent reaps it; so the parent calls `free_thread` for it and counts
down its own threads, and thread 1 then calls `free_thread` with `t->p` reset. -/
theorem freeproc_early : ∃ s s', (machine twoProcs).Reach Machine.anyStep s ∧
    s.pc 0 = .freeTable 1 (2, some 0x700) ∧ s.pc 1 = .unlink 1 false ∧ s.proc 1 = some 1 ∧
    ¬ ExitsInOrder s ∧ (machine twoProcs).exec s (steps 0 1 true ++ steps 1 2 true) = some s' ∧
    s'.pc 1 = .freeTcb 1 false ∧ s'.frees 1 = 1 ∧ s'.proc 1 = none ∧ s'.threadCnt 0 = 0 := by
  obtain ⟨s, hs, hpc0, hpc1, hproc, s', hs', hafter⟩ :
      ∃ s ∈ (machine twoProcs).exec (parentAnd [1, 2]) earlyRun,
        s.pc 0 = .freeTable 1 (2, some 0x700) ∧ s.pc 1 = .unlink 1 false ∧ s.proc 1 = some 1 ∧
        ∃ s' ∈ (machine twoProcs).exec s (steps 0 1 true ++ steps 1 2 true),
          s'.pc 1 = .freeTcb 1 false ∧ s'.frees 1 = 1 ∧ s'.proc 1 = none ∧ s'.threadCnt 0 = 0 := by
    decide +kernel
  refine ⟨s, s', Machine.reach_of_exec boot_two hs, hpc0, hpc1, hproc, fun h => ?_, hs', hafter⟩
  exact (h.after 0 1 _ (.inl hpc0) 1).1 hproc

end XVapor.ExitWait
