import XVapor.ExitGroup

/-!
# Counts of Threads and of Exits

`thread_cnt` is the number of the threads of a process that have not left it, and **a process in
use whose last thread leaves has called `proc_exit` once**.
-/

namespace XVapor.ExitWait

open Function
open Files (ProcState)

variable {K T : Type} [DecidableEq T] {c : Conf K T} {C C' : Core K T} {t u : T} {k q : K}
  {r : Role K T}

/-- The process for which a thread is counted. -/
def Role.seat (r : Role K T) (p : Option K) : Option K :=
  match r with
  | .leaving _ _ _ => none
  | _ => p

def Core.seat (C : Core K T) (t : T) : Option K := (C.role t).seat (C.proc t)

/-- The thread is the last of the process, and leaves it. -/
def Role.lastOf (k : K) : Role K T → Prop
  | .leaving k' true _ => k' = k
  | _ => False

/-- **The counts** of the threads of a process in use, and of the calls of `proc_exit`. -/
structure Counts [DecidableEq K] [Fintype T] (C : Core K T) : Prop where
  cnt : ∀ k, C.state k = .used → C.threadCnt k = tally (· = some k) C.seat
  exits : ∀ k, C.state k = .used →
    C.procExits k = 0 ∧ (∀ t, ¬ (C.role t).lastOf k) ∨
      C.procExits k = 1 ∧ ∃ t, (C.role t).lastOf k
  zombie : ∀ k, C.state k = .zombie → C.procExits k = 1
  alive : ∀ k, C.state k = .used → C.procExits k = 0 →
    0 < C.threadCnt k ∨ ∃ t, (C.role t).maker = some k

theorem Core.seat_update (proc : T → Option K) (t : T) (r : Role K T) (p : Option K) :
    ({ C.go t r with proc := update proc t p } : Core K T).seat =
      update ({ C with proc } : Core K T).seat t (r.seat p) := by
  funext u
  obtain rfl | hu := eq_or_ne u t
  · simp [Core.seat, Core.go]
  · simp [Core.seat, Core.go, hu]

theorem Core.seat_go (t : T) (r : Role K T) :
    (C.go t r).seat = update C.seat t (r.seat (C.proc t)) := by
  have h := Core.seat_update (C := C) C.proc t r (C.proc t)
  rwa [update_eq_self] at h

section

variable {role : T → Role K T}

theorem lastOf_update (h : r.lastOf k ↔ (role t).lastOf k) (u : T) :
    (update role t r u).lastOf k ↔ (role u).lastOf k := by
  obtain rfl | hu := eq_or_ne u t
  · rw [update_self, h]
  · rw [update_of_ne hu]

theorem maker_update (h : (role t).maker = some k → r.maker = some k)
    (hu : (role u).maker = some k) : (update role t r u).maker = some k := by
  obtain rfl | hut := eq_or_ne u t
  · rw [update_self, h hu]
  · rwa [update_of_ne hut]

end

variable [DecidableEq K] [Fintype T]

/-- A thread that keeps its seat, and goes on making the process it makes. -/
theorem Counts.go {r0 : Role K T} (hc : Counts C) (ht : C.role t = r0)
    (hseat : r.seat (C.proc t) = r0.seat (C.proc t)) (hlast : ∀ k, r.lastOf k ↔ r0.lastOf k)
    (hmaker : ∀ k, r0.maker = some k → r.maker = some k) : Counts (C.go t r) := by
  subst ht
  refine ⟨fun k hk => ?_, fun k hk => ?_, hc.zombie, fun k hk h0 => ?_⟩
  · rw [Core.seat_go, hseat, ← Core.seat, update_eq_self]
    exact hc.cnt k hk
  · simpa only [Core.go, lastOf_update (hlast k)] using hc.exits k hk
  · exact (hc.alive k hk h0).imp_right (Exists.imp fun u hu => maker_update (hmaker k) hu)

omit [DecidableEq T] [DecidableEq K] [Fintype T] in
theorem Groups.leaving_of_lastOf (hg : Groups C) (h : (C.role t).lastOf k) :
    C.proc t = some k ∧ ∃ stage, C.role t = .leaving k true stage := by
  cases hr : C.role t with
  | leaving k' b stage =>
    obtain _ | _ := b
    · simp [hr, Role.lastOf] at h
    obtain rfl : k' = k := by simpa [hr, Role.lastOf] using h
    exact ⟨hg.leaving t k' true stage hr, stage, rfl⟩
  | _ => simp [hr, Role.lastOf] at h

theorem cnt_leave (hseat : C.seat t = some k) {k' : K} {b : Bool} {stage : Stage T}
    (hcnt : C.threadCnt k' = tally (· = some k') C.seat) :
    update C.threadCnt k (C.threadCnt k - 1) k' =
      tally (· = some k') (C.go t (.leaving k b stage)).seat := by
  rw [Core.seat_go, tally_update, hseat, ← hcnt]
  obtain rfl | hkk := eq_or_ne k' k
  · simp [Role.seat]
  · simp [Role.seat, hkk, Ne.symm hkk]

section

variable (hc : Counts C)
include hc

/-- **The last thread is counted down**, and calls `proc_exit`; nobody has called it before. -/
theorem Counts.countLast (hg : Groups C) (ht : C.role t = .out)
    (hp : C.proc t = some k) :
    Counts ({ C with
      threadCnt := update C.threadCnt k (C.threadCnt k - 1)
      procExits := update C.procExits k (C.procExits k + 1) }.go t
        (.leaving k true .early)) := by
  have hused : C.state k = .used := (hg.state t k hp).resolve_right (by simp [ht])
  have hno : ∀ u, ¬ (C.role u).lastOf k := by
    intro u hu
    obtain ⟨-, stage, hr⟩ := hg.leaving_of_lastOf hu
    obtain rfl := hg.last u k stage hr t hp
    rw [ht] at hr
    cases hr
  have hzero : C.procExits k = 0 := by
    obtain ⟨h0, -⟩ | ⟨-, u, hu⟩ := hc.exits k hused
    · exact h0
    · exact absurd hu (hno u)
  have hother : ∀ k', k' ≠ k → ∀ u, (update C.role t (.leaving k true .early) u).lastOf k' ↔
      (C.role u).lastOf k' := fun k' hk => lastOf_update (by simp [ht, Role.lastOf, hk.symm])
  refine ⟨fun k' hk' => ?_, fun k' hk' => ?_, fun k' hk' => ?_, fun k' hk' h0 => ?_⟩
  · exact cnt_leave (by simp [Core.seat, ht, Role.seat, hp]) (hc.cnt k' hk')
  · obtain rfl | hkk := eq_or_ne k' k
    · exact .inr ⟨by simp [Core.go, hzero], t, by simp [Core.go, Role.lastOf]⟩
    · simpa only [Core.go, hother k' hkk, update_of_ne hkk] using hc.exits k' hk'
  · have hkk : k' ≠ k := by
      rintro rfl
      simp [Core.go, hused] at hk'
    simpa [Core.go, hkk] using hc.zombie k' hk'
  · have hkk : k' ≠ k := by
      rintro rfl
      simp [Core.go] at h0
    simp only [Core.go, update_of_ne hkk] at h0 ⊢
    exact (hc.alive k' hk' h0).imp_right
      (Exists.imp fun u hu => maker_update (by simp [ht, Role.maker]) hu)

theorem Counts.count (ht : C.role t = .out) (hp : C.proc t = some k)
    (hcnt : C.threadCnt k ≠ 1) :
    Counts ({ C with threadCnt := update C.threadCnt k (C.threadCnt k - 1) }.go t
      (.leaving k false .after)) := by
  have hseat : C.seat t = some k := by simp [Core.seat, ht, Role.seat, hp]
  have hrole : ∀ k' u, (update C.role t (.leaving k false .after) u).lastOf k' ↔
      (C.role u).lastOf k' := fun k' => lastOf_update (by simp [ht, Role.lastOf])
  refine ⟨fun k' hk' => cnt_leave hseat (hc.cnt k' hk'), fun k' hk' => ?_, hc.zombie,
    fun k' hk' h0 => ?_⟩
  · simpa only [Core.go, hrole] using hc.exits k' hk'
  · obtain hpos | ⟨u, hu⟩ := hc.alive k' hk' h0
    · left
      obtain rfl | hkk := eq_or_ne k' k
      · simp only [Core.go, update_self]
        omega
      · simpa [Core.go, hkk] using hpos
    · exact .inr ⟨u, maker_update (by simp [ht, Role.maker]) hu⟩

theorem Counts.zombie_step (hg : Groups C)
    (ht : C.role t = .leaving k true (.pending [])) :
    Counts ({ C with state := update C.state k .zombie }.go t
      (.leaving k true .after)) := by
  have hused := hg.used_of_early ht rfl
  have hone : C.procExits k = 1 := by
    obtain ⟨-, hno⟩ | ⟨h1, -⟩ := hc.exits k hused
    · exact absurd (show (C.role t).lastOf k by rw [ht]; rfl) (hno t)
    · exact h1
  have hc' : Counts (C.go t (.leaving k true .after)) := hc.go ht rfl (fun _ => .rfl) fun _ => id
  have hne : ∀ k', update C.state k .zombie k' = .used → k' ≠ k := by
    rintro k' hk' rfl
    simp at hk'
  refine ⟨fun k' hk' => ?_, fun k' hk' => ?_, fun k' hk' => ?_, fun k' hk' h0 => ?_⟩
  · refine hc'.cnt k' ?_
    simpa [Core.go, hne k' hk'] using hk'
  · refine hc'.exits k' ?_
    simpa [Core.go, hne k' hk'] using hk'
  · obtain rfl | hkk := eq_or_ne k' k
    · exact hone
    · exact hc'.zombie k' (by simpa [Core.go, hkk] using hk')
  · refine hc'.alive k' ?_ h0
    simpa [Core.go, hne k' hk'] using hk'

theorem Counts.free (hg : Groups C) {b : Bool}
    (ht : C.role t = .leaving k b .unlinked) :
    Counts ({ C with proc := update C.proc t none }.go t (.gone true)) := by
  have hseat : ({ C with proc := update C.proc t none }.go t (.gone true)).seat = C.seat := by
    have h := Core.seat_update (C := C) C.proc t (.gone true) none
    have hnone : Role.seat (T := T) (.gone true) none = C.seat t := by
      simp [Core.seat, ht, Role.seat]
    rw [hnone, update_eq_self] at h
    exact h
  have hlast : ∀ k', C.state k' = .used → ∀ u, (update C.role t (.gone true) u).lastOf k' ↔
      (C.role u).lastOf k' := by
    refine fun k' hk' => lastOf_update ⟨nofun, fun hl => ?_⟩
    obtain ⟨-, stage, hr⟩ := hg.leaving_of_lastOf hl
    have hr' := hr
    rw [ht] at hr'
    obtain ⟨-, -, rfl⟩ := Role.leaving.inj hr'
    rw [hg.dead t k' _ hr rfl] at hk'
    cases hk'
  refine ⟨fun k' hk' => ?_, fun k' hk' => ?_, hc.zombie, fun k' hk' h0 => ?_⟩
  · rw [hseat]
    exact hc.cnt k' hk'
  · simpa only [Core.go, hlast k' hk'] using hc.exits k' hk'
  · exact (hc.alive k' hk' h0).imp_right
      (Exists.imp fun u hu => maker_update (by simp [ht, Role.maker]) hu)

omit [DecidableEq T] in
theorem Counts.reset :
    Counts ({ C with state := update C.state q .unused } : Core K T) := by
  have hne : ∀ k x, update C.state q .unused k = x → x ≠ .unused → C.state k = x := by
    intro k x hk hx
    have hkq : k ≠ q := by
      rintro rfl
      simp at hk
      exact hx hk.symm
    rwa [update_of_ne hkq] at hk
  exact ⟨fun k hk => hc.cnt k (hne k _ hk nofun), fun k hk => hc.exits k (hne k _ hk nofun),
    fun k hk => hc.zombie k (hne k _ hk nofun), fun k hk => hc.alive k (hne k _ hk nofun)⟩

theorem Counts.init (hg : Groups C) (hh : Hands C) (ht : C.role t = .popped k) :
    Counts ({ C with
      state := update C.state k .used
      threadCnt := update C.threadCnt k 0
      procExits := update C.procExits k 0 }.go t (.making k)) := by
  have hnone := (hh.maker t k (by rw [ht]; rfl)).2
  have hc' : Counts (C.go t (.making k)) := hc.go ht rfl (fun _ => .rfl) fun _ => id
  have hseat : ∀ u, (C.go t (.making k)).seat u ≠ some k := by
    intro u hu
    have hsub : (C.go t (.making k)).seat u = none ∨ (C.go t (.making k)).seat u = C.proc u := by
      unfold Core.seat Role.seat
      split
      · exact .inl rfl
      · exact .inr rfl
    obtain h | h := hsub
    · rw [h] at hu
      cases hu
    · exact hnone u (h ▸ hu)
  refine ⟨fun k' hk' => ?_, fun k' hk' => ?_, fun k' hk' => ?_, fun k' hk' h0 => ?_⟩
  · obtain rfl | hkk := eq_or_ne k' k
    · change update C.threadCnt k' 0 k' = (tally (· = some k') (C.go t (.making k')).seat : ℤ)
      rw [update_self, tally_eq_zero.2 hseat]
      rfl
    · have hcnt := hc'.cnt k' (by simpa [Core.go, hkk] using hk')
      change update C.threadCnt k 0 k' = _
      rw [update_of_ne hkk]
      exact hcnt
  · obtain rfl | hkk := eq_or_ne k' k
    · refine .inl ⟨by simp [Core.go], fun u hu => ?_⟩
      have hut : u ≠ t := by
        rintro rfl
        simp [Core.go, Role.lastOf] at hu
      have hu' : (C.role u).lastOf k' := by simpa [Core.go, hut] using hu
      exact hnone u (hg.leaving_of_lastOf hu').1
    · have hexits := hc'.exits k' (by simpa [Core.go, hkk] using hk')
      simpa only [Core.go, update_of_ne hkk] using hexits
  · have hkk : k' ≠ k := by
      rintro rfl
      simp [Core.go] at hk'
    have hz := hc'.zombie k' (by simpa [Core.go, hkk] using hk')
    simpa [Core.go, hkk] using hz
  · obtain rfl | hkk := eq_or_ne k' k
    · exact .inr ⟨t, by simp [Core.go, Role.maker]⟩
    · have halive := hc'.alive k' (by simpa [Core.go, hkk] using hk')
        (by simpa [Core.go, hkk] using h0)
      simpa only [Core.go, update_of_ne hkk] using halive

theorem Counts.join (ht : C.role t = .taking k u) (hu : C.role u = .gone false)
    (hp : C.proc u = none) :
    Counts (({ C with
      proc := update C.proc u (some k)
      threadCnt := update C.threadCnt k (C.threadCnt k + 1) }.go u .fresh).go t
        (.made k u)) := by
  have htu : t ≠ u := ne_of_values ht hu nofun
  have hseat : (({ C with proc := update C.proc u (some k) }.go u .fresh).go t
      (.made k u)).seat = update C.seat u (some k) := by
    funext v
    obtain rfl | hvt := eq_or_ne v t
    · simp [Core.seat, Core.go, htu, ht, Role.seat]
    · obtain rfl | hvu := eq_or_ne v u
      · simp [Core.seat, Core.go, hvt, Role.seat]
      · simp [Core.seat, Core.go, hvt, hvu]
  have hseatu : C.seat u = none := by simp [Core.seat, hu, Role.seat, hp]
  have hlast : ∀ k' v, (update (update C.role u .fresh) t (.made k u) v).lastOf k' ↔
      (C.role v).lastOf k' := fun k' v =>
    (lastOf_update (by simp [htu, ht, Role.lastOf]) v).trans
      (lastOf_update (by simp [hu, Role.lastOf]) v)
  refine ⟨fun k' hk' => ?_, fun k' hk' => ?_, hc.zombie, fun k' hk' h0 => ?_⟩
  · change update C.threadCnt k (C.threadCnt k + 1) k' = (tally (· = some k')
      (({ C with proc := update C.proc u (some k) }.go u .fresh).go t (.made k u)).seat : ℤ)
    rw [hseat, tally_update, hseatu, ← hc.cnt k' hk']
    obtain rfl | hkk := eq_or_ne k' k
    · simp
    · simp [hkk, Ne.symm hkk]
  · simpa only [Core.go, hlast] using hc.exits k' hk'
  · obtain rfl | hkk := eq_or_ne k' k
    · left
      have hnonneg := hc.cnt k' hk'
      simp only [Core.go, update_self]
      omega
    obtain hpos | ⟨v, hv⟩ := hc.alive k' hk' h0
    · left
      simpa [Core.go, hkk] using hpos
    exact .inr ⟨v, maker_update (by simp [Core.go, htu, ht, Role.maker, Ne.symm hkk])
      (maker_update (by simp [hu, Role.maker]) hv)⟩

theorem Counts.effect (hg : Groups C) (hh : Hands C) (h : Effect c C C') :
    Counts C' := by
  cases h with
  | keep => exact hc
  | look t g ht | skip t g q l ht _ | doze t g ht _ | quit t g l d ht | find t g q l ht _
  | rewoken t k ht | rewake t k w ts ht _ _ | reparented t k ht | wake t k w ts ht _ | off t ht =>
    exact hc.go ht rfl (fun _ => .rfl) (fun _ => id)
  | countLast t k ht hp _ _ => exact hc.countLast hg ht hp
  | count t k ht hp hcnt => exact hc.count ht hp hcnt
  | reparent t k q ht _ =>
    exact { hc.go (r := .leaving k true (.rewaking c.tcbPool)) ht rfl (fun _ => .rfl)
      (fun _ => id) with }
  | zombie t k status ht _ _ => exact { hc.zombie_step hg ht with }
  | unlink t k b ht =>
    have hlast : ∀ k', (Role.leaving k b .unlinked : Role K T).lastOf k' ↔
        (Role.leaving k b .after : Role K T).lastOf k' := by
      cases b <;> exact fun _ => .rfl
    exact { hc.go (r := .leaving k b .unlinked) ht rfl hlast (fun _ => id) with }
  | free t k b ht => exact { hc.free hg ht with }
  | reset t q v ht _ _ =>
    have h := (hc.go (r := .out) ht rfl (fun _ => .rfl) (fun _ => id)).reset (q := q)
    exact { h with }
  | pop t k ht hk => exact { hc.go (r := .popped k) ht rfl (fun _ => .rfl) nofun with }
  | init t k ht => exact { hc.init hg hh ht with }
  | alloc t k u ht hu =>
    exact { hc.go (r := .taking k u) ht rfl (fun _ => .rfl) (fun _ => id) with }
  | join t k u ht hu =>
    exact { hc.join ht hu ((hg.gone u).2 (by rw [hu]; rfl)) with }
  | adopt t k u ht => exact { hc.go (r := .made k u) ht rfl (fun _ => .rfl) (fun _ => id) with }
  | run t k u ht =>
    have hfresh := (hh.made t k u ht).1
    have htu : t ≠ u := ne_of_values ht hfresh nofun
    have ht' : (C.go u .out).role t = .made k u := (update_of_ne htu _ _).trans ht
    have hu : Counts (C.go u .out) := hc.go hfresh rfl (fun _ => .rfl) nofun
    exact hu.go ht' rfl (fun _ => .rfl) nofun

end

end XVapor.ExitWait
