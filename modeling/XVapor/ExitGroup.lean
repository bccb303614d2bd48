import XVapor.ExitEffect

/-!
# Exits in Order

If a thread that counts down from one is the only one left in its process, then the effects keep
the groups of threads and what is being allocated as they should be: the last thread is alone in
its process from its count to its `free_thread`, and a zombie has no other thread.

An effect changes the role of one thread, and the effects that change two are taken apart: a
thread puts down what it makes, and takes it up again.
-/

namespace XVapor.ExitWait

open Function
open Files (ProcState)

variable {K T : Type} {c : Conf K T} {C C' : Core K T} {t u : T} {k q : K}
  {r : Role K T}

/-! ### Groups -/

/-- A role in which a thread belongs to a process and does not leave it. -/
def Role.inside : Role K T → Bool
  | .gone _ | .leaving _ _ _ => false
  | _ => true

theorem Role.isGone_of_inside (h : r.inside = true) : r.isGone = false := by
  cases r <;> simp_all [Role.inside, Role.isGone]

/-- What `Groups` says about one thread: its role, its process, the list it is on, and how often
it has been freed. -/
structure Member (st : K → ProcState) (r : Role K T) (p l : Option K) (frees : ℕ) : Prop where
  gone : p = none ↔ r.isGone = true
  leaving : ∀ k b stage, r = .leaving k b stage → p = some k
  linked : ∀ k, l = some k → p = some k
  state : ∀ k, p = some k → st k = .used ∨
    st k = .zombie ∧ ∃ stage, stage.dead = true ∧ r = .leaving k true stage
  dead : ∀ k stage, r = .leaving k true stage → stage.dead = true → st k = .zombie
  unlinked : ∀ k b, r = .leaving k b .unlinked → l = none
  freed : r = .gone true → frees = 1
  unfreed : p ≠ none → frees = 0
  reaping : ∀ q v, r = .reaping q v → st q = .zombie

section Member

variable {st st' : K → ProcState} {r r' : Role K T} {p l : Option K} {n : ℕ}

/-- What the invariant says of one thread. -/
theorem Groups.member (hg : Groups C) (t : T) :
    Member C.state (C.role t) (C.proc t) (C.linked t) (C.frees t) :=
  ⟨hg.gone t, hg.leaving t, hg.linked t, hg.state t, hg.dead t, hg.unlinked t, hg.freed t,
    hg.unfreed t, hg.reaping t⟩

/-- The invariant is one for each thread, and one for the last thread. -/
theorem Groups.of_member (h : ∀ t, Member C.state (C.role t) (C.proc t) (C.linked t) (C.frees t))
    (hlast : ∀ t k stage, C.role t = .leaving k true stage → ∀ u, C.proc u = some k → u = t) :
    Groups C :=
  ⟨fun t => (h t).gone, fun t => (h t).leaving, fun t => (h t).linked, hlast,
    fun t => (h t).state, fun t => (h t).dead, fun t => (h t).unlinked, fun t => (h t).freed,
    fun t => (h t).unfreed, fun t => (h t).reaping⟩

theorem Member.congr (h : Member st r p l n) (hp : ∀ k, p = some k → st' k = st k)
    (hr : ∀ q v, r = .reaping q v → st' q = st q) : Member st' r p l n where
  __ := h
  state k hk := by
    rw [hp k hk]
    exact h.state k hk
  dead k stage hk hdead := by
    rw [hp k (h.leaving k true stage hk)]
    exact h.dead k stage hk hdead
  reaping q v hq := by
    rw [hr q v hq]
    exact h.reaping q v hq

theorem Member.inside (h : Member st r p l n) (hr : r.inside = true) (hr' : r'.inside = true)
    (hz : ∀ q v, r' = .reaping q v → st q = .zombie) : Member st r' p l n where
  gone := by rw [h.gone, Role.isGone_of_inside hr, Role.isGone_of_inside hr']
  leaving k b stage heq := by
    rw [heq] at hr'
    cases hr'
  linked := h.linked
  state k hk := by
    refine .inl ((h.state k hk).resolve_right ?_)
    rintro ⟨-, stage, -, heq⟩
    rw [heq] at hr
    cases hr
  dead k stage heq := by
    rw [heq] at hr'
    cases hr'
  unlinked k b heq := by
    rw [heq] at hr'
    cases hr'
  freed heq := by
    rw [heq] at hr'
    cases hr'
  unfreed := h.unfreed
  reaping := hz

theorem Member.leave (h : Member st r (some k) l n) {l' : Option K} {b : Bool}
    {stage : Stage T} (hl : l' = l ∨ l' = none) (hunlinked : stage = .unlinked → l' = none)
    (hs : st' k = .used ∧ (b && stage.dead) = false ∨
      st' k = .zombie ∧ (b && stage.dead) = true) :
    Member st' (.leaving k b stage) (some k) l' n where
  gone := by simp [Role.isGone]
  leaving k' b' stage' heq := by rw [(Role.leaving.inj heq).1]
  linked k' hk' := by
    obtain rfl | rfl := hl
    · exact h.linked k' hk'
    · cases hk'
  state k' hk' := by
    cases hk'
    obtain ⟨hused, -⟩ | ⟨hz, hd⟩ := hs
    · exact .inl hused
    · obtain ⟨rfl, hdead⟩ := Bool.and_eq_true_iff.1 hd
      exact .inr ⟨hz, stage, hdead, rfl⟩
  dead k' stage' heq hdead := by
    obtain ⟨rfl, rfl, rfl⟩ := Role.leaving.inj heq
    obtain ⟨-, hd⟩ | ⟨hz, -⟩ := hs
    · rw [hdead] at hd
      cases hd
    · exact hz
  unlinked k' b' heq := hunlinked (Role.leaving.inj heq).2.2
  freed := nofun
  unfreed := h.unfreed
  reaping := nofun

theorem Member.left {b : Bool} (hn : b = true → n = 1) :
    Member (T := T) st (.gone b) none none n where
  gone := by simp [Role.isGone]
  leaving := nofun
  linked := nofun
  state := nofun
  dead := nofun
  unlinked := nofun
  freed heq := hn (Role.gone.inj heq)
  unfreed hne := absurd rfl hne
  reaping := nofun

theorem Member.joined (hused : st k = .used) :
    Member (T := T) st .fresh (some k) (some k) 0 where
  gone := by simp [Role.isGone]
  leaving := nofun
  linked _ := id
  state k' hk' := by
    cases hk'
    exact .inl hused
  dead := nofun
  unlinked := nofun
  freed := nofun
  unfreed _ := rfl
  reaping := nofun

end Member

variable [DecidableEq T]

section

variable (hg : Groups C)
include hg

/-- **One thread changes.** The others keep what they have, and the states of the processes they
belong to or reap. -/
theorem Groups.change (t : T) (r : Role K T) (p l : Option K) (n : ℕ)
    (state : K → ProcState)
    (hstate : ∀ u, u ≠ t → ∀ k, C.proc u = some k ∨ (∃ v, C.role u = .reaping k v) →
      state k = C.state k) (ht : Member state r p l n)
    (hlast : ∀ k stage, r = .leaving k true stage → ∀ u, C.proc u = some k → u = t)
    (hother : ∀ u k stage, C.role u = .leaving k true stage → p = some k → u = t) :
    Groups ({ C with
      state := state
      proc := update C.proc t p
      linked := update C.linked t l
      frees := update C.frees t n }.go t r) := by
  refine .of_member (fun u => ?_) fun u k stage hr v hv => ?_
  · obtain rfl | hu := eq_or_ne u t
    · simpa only [Core.go, update_self] using ht
    · simp only [Core.go, update_of_ne hu]
      exact (hg.member u).congr (fun k hk => hstate u hu k (.inl hk))
        fun q v hq => hstate u hu q (.inr ⟨v, hq⟩)
  · simp only [Core.go, update_apply] at hr hv
    split_ifs at hr hv with hu hvt hvt
    · exact hvt.trans hu.symm
    · rw [hu]
      exact hlast k stage hr v hv
    · rw [hvt]
      exact (hother u k stage hr hv).symm
    · exact hg.last u k stage hr v hv

/-- A step that changes states of processes and the role of a thread. -/
theorem Groups.setState {st : K → ProcState}
    (hstate : ∀ u, u ≠ t → ∀ k, C.proc u = some k ∨ (∃ v, C.role u = .reaping k v) →
      st k = C.state k) (ht : Member st r (C.proc t) (C.linked t) (C.frees t))
    (hlast : ∀ k stage, r = .leaving k true stage → ∀ u, C.proc u = some k → u = t) :
    Groups ({ C with state := st }.go t r) := by
  have h := hg.change t r _ _ _ st hstate ht hlast
    fun u k stage hr hp => (hg.last u k stage hr t hp).symm
  simpa only [update_eq_self] using h

/-- A step that changes the role of a thread. -/
theorem Groups.go (ht : Member C.state r (C.proc t) (C.linked t) (C.frees t))
    (hlast : ∀ k stage, r = .leaving k true stage → ∀ u, C.proc u = some k → u = t) :
    Groups (C.go t r) :=
  hg.setState (fun _ _ _ _ => rfl) ht hlast

theorem Groups.inside (ht : (C.role t).inside = true) (hr : r.inside = true)
    (hz : ∀ q v, r = .reaping q v → C.state q = .zombie) : Groups (C.go t r) := by
  refine hg.go ((hg.member t).inside ht hr hz) fun k stage heq => ?_
  rw [heq] at hr
  cases hr

/-- `thread_exit` counts the thread down. -/
theorem Groups.count (ht : C.role t = .out) (hp : C.proc t = some k) (b : Bool)
    (stage : Stage T) (hs : stage ≠ .unlinked) (hs' : b = true → stage.dead = false)
    (hlast : b = true → ∀ u, C.proc u = some k → u = t) : Groups (C.go t (.leaving k b stage)) := by
  have hm := hg.member t
  have hused : C.state k = .used := (hm.state k hp).resolve_right (by simp [ht])
  rw [hp] at hm
  refine hg.go ?_ ?_
  · rw [hp]
    refine hm.leave (.inl rfl) (fun h => absurd h hs) (.inl ⟨hused, ?_⟩)
    cases b with
    | true => exact hs' rfl
    | false => rfl
  · rintro k' stage' heq u hu
    obtain ⟨rfl, hb, -⟩ := Role.leaving.inj heq
    exact hlast hb u hu

omit [DecidableEq T] in
theorem Groups.used_of_early {stage : Stage T}
    (ht : C.role t = .leaving k true stage) (hs : stage.dead = false) : C.state k = .used := by
  refine (hg.state t k (hg.leaving t k true _ ht)).resolve_right ?_
  rintro ⟨-, stage', hdead, hr⟩
  rw [ht] at hr
  obtain ⟨-, -, rfl⟩ := Role.leaving.inj hr
  rw [hs] at hdead
  cases hdead

theorem Groups.stage {stage : Stage T} (stage' : Stage T)
    (ht : C.role t = .leaving k true stage) (hs : stage.dead = false) (hs' : stage'.dead = false) :
    Groups (C.go t (.leaving k true stage')) := by
  have hp := hg.leaving t k true stage ht
  have hm := hg.member t
  rw [hp] at hm
  refine hg.go ?_ ?_
  · rw [hp]
    refine hm.leave (.inl rfl) (fun h => ?_) (.inl ⟨hg.used_of_early ht hs, hs'⟩)
    rw [h] at hs'
    cases hs'
  · rintro k' stage1 heq
    obtain ⟨rfl, -, -⟩ := Role.leaving.inj heq
    exact hg.last t k stage ht

/-- The process becomes a zombie. -/
theorem Groups.zombie [DecidableEq K]
    (ht : C.role t = .leaving k true (.pending [])) :
    Groups ({ C with state := update C.state k .zombie }.go t
      (.leaving k true .after)) := by
  have hp := hg.leaving t k true _ ht
  have hused := hg.used_of_early ht rfl
  have halone := hg.last t k _ ht
  have hm := hg.member t
  rw [hp] at hm
  refine hg.setState (fun u hu q hq => ?_) ?_ fun k' stage heq => ?_
  · refine update_of_ne ?_ _ _
    rintro rfl
    obtain hq | ⟨v, hq⟩ := hq
    · exact hu (halone u hq)
    · rw [hg.reaping u q v hq] at hused
      cases hused
  · rw [hp]
    exact hm.leave (.inl rfl) nofun (.inr ⟨update_self _ _ _, rfl⟩)
  · obtain ⟨rfl, -, -⟩ := Role.leaving.inj heq
    exact halone

end

variable {b : Bool}

section

variable (hg : Groups C)
include hg

/-- The thread leaves the list of its process. -/
theorem Groups.unlink (ht : C.role t = .leaving k b .after) :
    Groups ({ C with linked := update C.linked t none }.go t
      (.leaving k b .unlinked)) := by
  have hp := hg.leaving t k b _ ht
  have hm := hg.member t
  rw [hp] at hm
  have hstate : C.state k = .used ∧ b = false ∨ C.state k = .zombie ∧ b = true := by
    cases b with
    | true => exact .inr ⟨hg.dead t k _ ht rfl, rfl⟩
    | false => exact .inl ⟨(hm.state k rfl).resolve_right (by simp [ht]), rfl⟩
  have h := hg.change t (.leaving k b .unlinked) (some k) none (C.frees t) C.state
    (fun _ _ _ _ => rfl) (hm.leave (.inr rfl) (fun _ => rfl) (by simpa [Stage.dead] using hstate))
    (fun k' stage heq => ?_) fun u k' stage hr hk => ?_
  · rw [← hp, update_eq_self, update_eq_self] at h
    exact h
  · obtain ⟨rfl, rfl, -⟩ := Role.leaving.inj heq
    exact hg.last t k _ ht
  · exact (hg.last u k' stage hr t (hp.trans hk)).symm

/-- `free_thread`. -/
theorem Groups.free (ht : C.role t = .leaving k b .unlinked) :
    Groups ({ C with
      proc := update C.proc t none
      frees := update C.frees t (C.frees t + 1) }.go t (.gone true)) := by
  have hzero : C.frees t = 0 := hg.unfreed t (by rw [hg.leaving t k b _ ht]; nofun)
  have hnone := hg.unlinked t k b ht
  have h := hg.change t (.gone true) none none (C.frees t + 1) C.state (fun _ _ _ _ => rfl)
    (.left fun _ => by rw [hzero]) nofun nofun
  have hlinked : update C.linked t none = C.linked := by
    rw [← hnone, update_eq_self]
  rw [hlinked] at h
  exact h

theorem Groups.off (ht : C.role t = .gone true) :
    Groups (C.go t (.gone false)) := by
  have hp : C.proc t = none := (hg.gone t).2 (by rw [ht]; rfl)
  have hl : C.linked t = none := by
    refine Option.eq_none_iff_forall_ne_some.2 fun k hk => ?_
    rw [hg.linked t k hk] at hp
    cases hp
  refine hg.go ?_ nofun
  rw [hp, hl]
  exact .left nofun

/-- A zombie that is reaped has no thread and no other reaper. -/
theorem Groups.reset [DecidableEq K] {v : Found} (ht : C.role t = .reaping q v)
    (hone : ∀ u v', C.role u = .reaping q v' → u = t) (hnone : ∀ u, C.proc u ≠ some q) :
    Groups ({ C with state := update C.state q .unused }.go t .out) := by
  have hne : ∀ k, C.proc t = some k → update C.state q .unused k = C.state k := by
    rintro k hk
    refine update_of_ne ?_ _ _
    rintro rfl
    exact hnone t hk
  refine hg.setState (fun u hu k hk => ?_) ?_ nofun
  · refine update_of_ne ?_ _ _
    rintro rfl
    obtain hk | ⟨v', hk⟩ := hk
    · exact hnone u hk
    · exact hu (hone u v' hk)
  · have hm : Member C.state .out (C.proc t) (C.linked t) (C.frees t) :=
      (hg.member t).inside (by rw [ht]; rfl) rfl nofun
    exact hm.congr hne nofun

theorem Groups.init [DecidableEq K] (hh : Hands C) (ht : C.role t = .popped k) :
    Groups ({ C with state := update C.state k .used }.go t (.making k)) := by
  have hunused := hh.popped t k ht
  have hnone := (hh.maker t k (by rw [ht]; rfl)).2
  have hne : ∀ u k', C.proc u = some k' ∨ (∃ v, C.role u = .reaping k' v) →
      update C.state k .used k' = C.state k' := by
    rintro u k' hk'
    refine update_of_ne ?_ _ _
    rintro rfl
    obtain hk' | ⟨v, hk'⟩ := hk'
    · exact hnone u hk'
    · rw [hg.reaping u k' v hk'] at hunused
      cases hunused
  refine hg.setState (fun u _ => hne u) ?_ nofun
  have hm : Member C.state (.making k) (C.proc t) (C.linked t) (C.frees t) :=
    (hg.member t).inside (by rw [ht]; rfl) rfl nofun
  exact hm.congr (fun k' hk' => hne t k' (.inl hk')) nofun

/-- A new thread joins its process. -/
theorem Groups.join (hh : Hands C) (ht : C.role t = .taking k u) :
    Groups (({ C with
      proc := update C.proc u (some k)
      linked := update C.linked u (some k)
      frees := update C.frees u 0 }.go u .fresh).go t (.made k u)) := by
  have hused := hh.taking t k u ht
  have hnone := (hh.maker t k (by rw [ht]; rfl)).2
  have hgone := (hh.taken t k u ht).2
  have htu : t ≠ u := by
    rintro rfl
    rw [ht] at hgone
    cases hgone
  have h := hg.change u .fresh (some k) (some k) 0 C.state (fun _ _ _ _ => rfl)
    (.joined hused) nofun fun w k' stage hr hp => by
      cases hp
      exact absurd (hg.leaving w k true stage hr) (hnone w)
  have hrole : update C.role u .fresh t = .taking k u :=
    (update_of_ne htu _ _).trans ht
  refine h.inside ?_ rfl nofun
  simp only [Core.go, hrole]
  rfl

end

/-! ### Hands -/

/-- A role of a thread that belongs to a process, with nothing in hand. -/
def Role.idle : Role K T → Bool
  | .out | .watching _ _ _ | .reaping _ _ | .leaving _ _ _ => true
  | _ => false

omit [DecidableEq T] in
theorem Role.idle_spec (h : r.idle = true) :
    r.maker = none ∧ r.hand = none ∧ r ≠ .fresh ∧ r.isGone = false := by
  cases r <;> simp_all [Role.idle, Role.maker, Role.hand, Role.isGone]

section

variable (hh : Hands C)
include hh

omit [DecidableEq T] in
theorem Hands.ne_zombie (ht : (C.role t).maker = some k) :
    C.state k ≠ .zombie := by
  intro hz
  cases hr : C.role t with
  | popped k' =>
    obtain rfl : k' = k := by simpa [hr, Role.maker] using ht
    rw [hh.popped t k' hr] at hz
    cases hz
  | making k' =>
    obtain rfl : k' = k := by simpa [hr, Role.maker] using ht
    rw [hh.making t k' hr] at hz
    cases hz
  | taking k' u =>
    obtain rfl : k' = k := by simpa [hr, Role.maker] using ht
    rw [hh.taking t k' u hr] at hz
    cases hz
  | _ => simp [hr, Role.maker] at ht

omit [DecidableEq T] in
theorem Hands.setState [DecidableEq K] (st : ProcState)
    (hno : ∀ u, (C.role u).maker ≠ some k) (hq : C.unusedProc k = true → st = .unused) :
    Hands ({ C with state := update C.state k st } : Core K T) := by
  have hsame : ∀ u k', (C.role u).maker = some k' →
      update C.state k st k' = C.state k' := by
    intro u k' hu
    refine update_of_ne ?_ _ _
    rintro rfl
    exact hno u hu
  refine { hh with
    unusedProc := fun k' hk' => ?_
    popped := fun t k' ht => (hsame t k' (by rw [ht]; rfl)).trans (hh.popped t k' ht)
    making := fun t k' ht => (hsame t k' (by rw [ht]; rfl)).trans (hh.making t k' ht)
    taking := fun t k' u ht => (hsame t k' (by rw [ht]; rfl)).trans (hh.taking t k' u ht) }
  obtain rfl | hkk := eq_or_ne k' k
  · exact (update_self _ _ _).trans (hq hk')
  · exact (update_of_ne hkk _ _).trans (hh.unusedProc k' hk')

omit [DecidableEq T] in
theorem Hands.setUnusedProc [DecidableEq K] (b : Bool)
    (hb : b = true → C.state q = .unused ∧ ∀ u, (C.role u).maker ≠ some q) :
    Hands ({ C with unusedProc := update C.unusedProc q b } : Core K T) := by
  refine { hh with
    unusedProc := fun k hk => ?_
    maker := fun t k hk => ⟨?_, (hh.maker t k hk).2⟩ }
  · obtain rfl | hkq := eq_or_ne k q
    · exact (hb (by simpa using hk)).1
    · exact hh.unusedProc k (by simpa [hkq] using hk)
  · obtain rfl | hkq := eq_or_ne k q
    · by_contra hne
      exact (hb (by simpa using hne)).2 t hk
    · simpa [hkq] using (hh.maker t k hk).1

theorem Hands.queueTcb (ht : (C.role t).isGone = true)
    (hno : ∀ t' k, C.role t' ≠ .taking k t) :
    Hands ({ C with
      proc := update C.proc t none
      unusedTcb := update C.unusedTcb t true } : Core K T) := by
  refine { hh with
    maker := fun t' k hk => ⟨(hh.maker t' k hk).1, fun u hu => ?_⟩
    unusedTcb := fun u hu => ?_
    taken := fun t' k u hr => ⟨?_, (hh.taken t' k u hr).2⟩
    made := fun t' k u hr => ⟨(hh.made t' k u hr).1, ?_⟩ }
  · have hut : u ≠ t := by
      rintro rfl
      simp at hu
    exact (hh.maker t' k hk).2 u (by simpa [hut] using hu)
  · obtain rfl | hut := eq_or_ne u t
    · exact ht
    · exact hh.unusedTcb u (by simpa [hut] using hu)
  · have hut : u ≠ t := by
      rintro rfl
      exact hno t' k hr
    simpa [hut] using (hh.taken t' k u hr).1
  · obtain ⟨hfresh, hp⟩ := hh.made t' k u hr
    have hut : u ≠ t := by
      rintro rfl
      rw [hfresh] at ht
      cases ht
    simpa [hut] using hp

theorem Hands.unqueueTcb (u : T) :
    Hands ({ C with unusedTcb := update C.unusedTcb u false } : Core K T) := by
  refine { hh with
    unusedTcb := fun w hw => ?_
    taken := fun t' k w hr => ⟨?_, (hh.taken t' k w hr).2⟩ }
  · have hwu : w ≠ u := by
      rintro rfl
      simp at hw
    exact hh.unusedTcb w (by simpa [hwu] using hw)
  · obtain rfl | hwu := eq_or_ne w u
    · exact update_self _ _ _
    · simpa [hwu] using (hh.taken t' k w hr).1

theorem Hands.setProc (hu : C.role u ≠ .fresh)
    (hno : ∀ t, (C.role t).maker ≠ some k) :
    Hands ({ C with proc := update C.proc u (some k) } : Core K T) := by
  refine { hh with
    maker := fun t k' hk => ⟨(hh.maker t k' hk).1, fun w hw => ?_⟩
    made := fun t k' w hr => ⟨(hh.made t k' w hr).1, ?_⟩ }
  · obtain rfl | hwu := eq_or_ne w u
    · obtain rfl : k = k' := by simpa using hw
      exact hno t hk
    · exact (hh.maker t k' hk).2 w (by simpa [hwu] using hw)
  · obtain ⟨hfresh, hp⟩ := hh.made t k' w hr
    have hwu : w ≠ u := by
      rintro rfl
      exact hu hfresh
    simpa [hwu] using hp

/-- Nobody relies on the role that a thread gives up for the role `r`. -/
def Unneeded (C : Core K T) (t : T) (r : Role K T) : Prop :=
  (r.isGone = false → C.unusedTcb t = false ∧ ∀ t' k, C.role t' ≠ .taking k t) ∧
    ∀ t' k, t' ≠ t → C.role t' ≠ .made k t

omit [DecidableEq T] in
theorem Hands.not_taken (ht : (C.role t).isGone = false) :
    C.unusedTcb t = false ∧ ∀ t' k, C.role t' ≠ .taking k t := by
  constructor
  · by_contra hu
    rw [hh.unusedTcb t (by simpa using hu)] at ht
    cases ht
  · intro t' k h
    rw [(hh.taken t' k t h).2] at ht
    cases ht

omit [DecidableEq T] in
theorem Hands.unneeded {r0 : Role K T} (ht : C.role t = r0) (hn : r0.isGone = false)
    (hf : r0 ≠ .fresh) : Unneeded C t r := by
  subst ht
  exact ⟨fun _ => hh.not_taken hn, fun t' k _ h => hf (hh.made t' k t h).1⟩

/-- **One thread changes its role.** What it makes and what it has in hand is its own, and nobody
relies on the role it had. -/
theorem Hands.go (hpopped : ∀ k, r = .popped k → C.state k = .unused)
    (hmaking : ∀ k, r = .making k → C.state k = .used) (htaking : ∀ k u, r = .taking k u →
      C.state k = .used ∧ C.unusedTcb u = false ∧ u ≠ t ∧ (C.role u).isGone = true)
    (hmade : ∀ k u, r = .made k u → u ≠ t ∧ C.role u = .fresh ∧ C.proc u = some k)
    (hmaker : ∀ k, r.maker = some k → C.unusedProc k = false ∧ (∀ u, C.proc u ≠ some k) ∧
      ∀ u, (C.role u).maker = some k → u = t)
    (hhand : ∀ u, r.hand = some u → ∀ t', (C.role t').hand = some u → t' = t)
    (hrest : Unneeded C t r) : Hands (C.go t r) := by
  refine ⟨hh.unusedProc, fun t' k ht => ?_, fun t' k ht => ?_, fun t' k u ht => ?_,
    fun t' k ht => ?_, fun t1 t2 k h1 h2 => ?_, fun u hu => ?_, fun t' k u ht => ?_,
    fun t' k u ht => ?_, fun t1 t2 u h1 h2 => ?_⟩
  all_goals simp only [Core.go, update_apply] at *
  · split_ifs at ht
    · exact hpopped k ht
    · exact hh.popped t' k ht
  · split_ifs at ht
    · exact hmaking k ht
    · exact hh.making t' k ht
  · split_ifs at ht
    · exact (htaking k u ht).1
    · exact hh.taking t' k u ht
  · split_ifs at ht
    · exact ⟨(hmaker k ht).1, (hmaker k ht).2.1⟩
    · exact hh.maker t' k ht
  · split_ifs at h1 h2 with ht1 ht2 ht2
    · exact ht1.trans ht2.symm
    · exact ht1.trans ((hmaker k h1).2.2 t2 h2).symm
    · exact ((hmaker k h2).2.2 t1 h1).trans ht2.symm
    · exact hh.maker_inj t1 t2 k h1 h2
  · split_ifs with hut
    · subst hut
      by_contra hr
      rw [(hrest.1 (by simpa using hr)).1] at hu
      cases hu
    · exact hh.unusedTcb u hu
  · split_ifs at ht
    · obtain ⟨-, hu, hne, hrole⟩ := htaking k u ht
      exact ⟨hu, by rwa [if_neg hne]⟩
    obtain ⟨hu, hrole⟩ := hh.taken t' k u ht
    refine ⟨hu, ?_⟩
    split_ifs with hut
    · subst hut
      by_contra hr
      exact (hrest.1 (by simpa using hr)).2 t' k ht
    · exact hrole
  · split_ifs at ht with htt
    · obtain ⟨hne, hrole, hp⟩ := hmade k u ht
      exact ⟨by rwa [if_neg hne], hp⟩
    have hut : u ≠ t := by
      rintro rfl
      exact hrest.2 t' k htt ht
    rw [if_neg hut]
    exact hh.made t' k u ht
  · split_ifs at h1 h2 with ht1 ht2 ht2
    · exact ht1.trans ht2.symm
    · exact ht1.trans (hhand u h1 t2 h2).symm
    · exact (hhand u h2 t1 h1).trans ht2.symm
    · exact hh.hand_inj t1 t2 u h1 h2

theorem Hands.drop (hm : r.maker = none) (hd : r.hand = none)
    (hrest : Unneeded C t r) : Hands (C.go t r) := by
  refine hh.go (fun k h => ?_) (fun k h => ?_) (fun k u h => ?_) (fun k u h => ?_)
    (fun k h => ?_) (fun u h => ?_) hrest
  · rw [h] at hm
    cases hm
  · rw [h] at hm
    cases hm
  · rw [h] at hm
    cases hm
  · rw [h] at hd
    cases hd
  · rw [hm] at h
    cases h
  · rw [hd] at h
    cases h

/-- Threads that make nothing do not matter. -/
theorem Hands.idle (ht : (C.role t).idle = true) (hr : r.idle = true) :
    Hands (C.go t r) := by
  obtain ⟨-, -, hf, hn⟩ := Role.idle_spec ht
  obtain ⟨hm, hd, -, -⟩ := Role.idle_spec hr
  exact hh.drop hm hd (hh.unneeded rfl hn hf)

theorem Hands.zombie [DecidableEq K] (hp : C.proc t = some k)
    (hused : C.state k = .used) (ht : (C.role t).idle = true) (hr : r.idle = true) :
    Hands ({ C with state := update C.state k .zombie }.go t r) := by
  have hstate := hh.setState (k := k) .zombie (fun u hu => (hh.maker u k hu).2 t hp) fun hq => by
    rw [hh.unusedProc k hq] at hused
    cases hused
  exact hstate.idle ht hr

theorem Hands.free [DecidableEq K] (ht : C.role t = .leaving k b .unlinked) :
    Hands ({ C with
      proc := update C.proc t none
      unusedTcb := update C.unusedTcb t true }.go t (.gone true)) := by
  have hgo : Hands (C.go t (.gone true)) := hh.drop rfl rfl (hh.unneeded ht rfl (by simp))
  refine hgo.queueTcb (by simp [Core.go, Role.isGone]) fun t' k' hr => ?_
  exact (hh.not_taken (by rw [ht]; rfl)).2 t' k' (Core.role_of_go hr (by simp))

theorem Hands.off (ht : C.role t = .gone true) : Hands (C.go t (.gone false)) := by
  refine hh.drop rfl rfl ⟨nofun, fun t' k _ h => ?_⟩
  rw [(hh.made t' k t h).1] at ht
  cases ht

/-- `freeproc` resets the entry. -/
theorem Hands.reset [DecidableEq K] (hz : C.state q = .zombie)
    (ht : (C.role t).idle = true) :
    Hands ({ C with
      state := update C.state q .unused
      unusedProc := update C.unusedProc q true }.go t .out) := by
  have hno : ∀ u, (C.role u).maker ≠ some q := fun u hu => hh.ne_zombie hu hz
  have hstate := hh.setState .unused hno fun _ => rfl
  have hqueue := hstate.setUnusedProc (q := q) true fun _ => ⟨update_self _ _ _, hno⟩
  exact hqueue.idle ht rfl

/-- `allocproc` takes an entry off its queue. -/
theorem Hands.pop [DecidableEq K] (hg : Groups C) (ht : C.role t = .out)
    (hk : C.unusedProc k = true) :
    Hands ({ C with unusedProc := update C.unusedProc k false }.go t (.popped k)) := by
  have hunused := hh.unusedProc k hk
  have hnone : ∀ u, C.proc u ≠ some k := by
    intro u hu
    obtain hused | ⟨hz, -⟩ := hg.state u k hu
    · rw [hunused] at hused
      cases hused
    · rw [hunused] at hz
      cases hz
  have hno : ∀ u, (C.role u).maker ≠ some k := by
    intro u hu
    rw [(hh.maker u k hu).1] at hk
    cases hk
  refine (hh.setUnusedProc (q := k) false nofun).go ?_ nofun nofun nofun ?_ nofun
    (hh.unneeded ht rfl nofun)
  · rintro k' ⟨⟩
    exact hunused
  · rintro k' ⟨⟩
    exact ⟨update_self _ _ _, hnone, fun u hu => absurd hu (hno u)⟩

theorem Hands.put_down (ht : (C.role t).maker = some k) :
    Hands (C.go t .out) ∧ ∀ u, ((C.go t .out).role u).maker ≠ some k := by
  have hn : (C.role t).isGone = false ∧ C.role t ≠ .fresh := by
    cases hr : C.role t <;> simp_all [Role.maker, Role.isGone]
  refine ⟨hh.drop rfl rfl (hh.unneeded rfl hn.1 hn.2), fun u hu => ?_⟩
  obtain rfl | hut := eq_or_ne u t
  · simp [Core.go, Role.maker] at hu
  · exact hut (hh.maker_inj u t k (by simpa [Core.go, hut] using hu) ht)

end

@[simp]
theorem Core.go_go (C : Core K T) (t : T) (r r' : Role K T) : (C.go t r).go t r' = C.go t r' := by
  simp [Core.go]

theorem Core.go_comm {C : Core K T} (h : t ≠ u) (r r' : Role K T) :
    (C.go t r).go u r' = (C.go u r').go t r := by
  simp only [Core.go, update_comm h]

section

variable (hh : Hands C)
include hh

theorem Hands.init [DecidableEq K] (ht : C.role t = .popped k) :
    Hands ({ C with state := update C.state k .used }.go t (.making k)) := by
  obtain ⟨hqueue, hnone⟩ := hh.maker t k (by rw [ht]; rfl)
  obtain ⟨hdown, hno⟩ := hh.put_down (t := t) (k := k) (by rw [ht]; rfl)
  have hstate : Hands ({ C with state := update C.state k .used }.go t .out) :=
    hdown.setState .used hno fun hq => by
      rw [show C.unusedProc k = true from hq] at hqueue
      cases hqueue
  have hout : ({ C with state := update C.state k .used }.go t .out).role t = .out :=
    update_self _ _ _
  have h := hstate.go (t := t) (r := .making k) nofun ?_ nofun nofun ?_ nofun
    (hstate.unneeded hout rfl nofun)
  · rwa [Core.go_go] at h
  · rintro k' ⟨⟩
    exact update_self _ _ _
  · rintro k' ⟨⟩
    exact ⟨hqueue, hnone, fun u hu => absurd hu (hno u)⟩

/-- `alloc_thread` takes a tcb off its queue. -/
theorem Hands.alloc (ht : C.role t = .making k) (hu : C.unusedTcb u = true) :
    Hands ({ C with unusedTcb := update C.unusedTcb u false }.go t (.taking k u)) := by
  have hgone := hh.unusedTcb u hu
  have hmine : (C.role t).maker = some k := by
    rw [ht]
    rfl
  have hno : ∀ t', (C.role t').hand ≠ some u := by
    intro t' ht'
    cases hr : C.role t' with
    | taking k' u' =>
      obtain rfl : u' = u := by simpa [hr, Role.hand] using ht'
      rw [(hh.taken t' k' u' hr).1] at hu
      cases hu
    | made k' u' =>
      obtain rfl : u' = u := by simpa [hr, Role.hand] using ht'
      rw [(hh.made t' k' u' hr).1] at hgone
      cases hgone
    | _ => simp [hr, Role.hand] at ht'
  have hqueue := hh.unqueueTcb u
  refine hqueue.go nofun nofun ?_ nofun ?_ ?_ (hqueue.unneeded ht rfl nofun)
  · rintro k' u' ⟨⟩
    refine ⟨hh.making t k ht, update_self _ _ _, ?_, hgone⟩
    rintro rfl
    rw [ht] at hgone
    cases hgone
  · rintro k' ⟨⟩
    exact ⟨(hh.maker t k hmine).1, (hh.maker t k hmine).2,
      fun t' ht' => hh.maker_inj t' t k ht' hmine⟩
  · rintro u' ⟨⟩ t' ht'
    exact absurd ht' (hno t')

theorem Hands.hand_down (ht : (C.role t).hand = some u) (t' : T) :
    ((C.go t .out).role t').hand ≠ some u := by
  intro h
  obtain rfl | htt := eq_or_ne t' t
  · simp [Core.go, Role.hand] at h
  · exact htt (hh.hand_inj t' t u (by simpa [Core.go, htt] using h) ht)

theorem Hands.join (ht : C.role t = .taking k u) (hu : C.role u = .gone false) :
    Hands (({ C with proc := update C.proc u (some k) }.go u .fresh).go t
      (.made k u)) := by
  have htu : t ≠ u := ne_of_values ht hu nofun
  -- `t` puts the process and the thread down, and takes both up again when `u` is fresh
  obtain ⟨hdown, hno⟩ := hh.put_down (t := t) (k := k) (by rw [ht]; rfl)
  have hhand := hh.hand_down (t := t) (u := u) (by rw [ht]; rfl)
  have hu' : (C.go t .out).role u = .gone false := (update_of_ne htu.symm _ _).trans hu
  have hproc := hdown.setProc (u := u) (k := k) (by rw [hu']; nofun) hno
  have hfresh : Hands (({ C with proc := update C.proc u (some k) }.go t .out).go u
      .fresh) :=
    hproc.drop rfl rfl
      ⟨fun _ => ⟨(hh.taken t k u ht).1, fun t' k' h => hhand t' (by rw [h]; rfl)⟩,
        fun t' k' _ h => hhand t' (by rw [h]; rfl)⟩
  rw [Core.go_comm htu] at hfresh
  have hout : (({ C with proc := update C.proc u (some k) }.go u .fresh).go t
      .out).role t = .out := update_self _ _ _
  have h := hfresh.go (t := t) (r := .made k u) nofun nofun nofun ?_ nofun ?_
    (hfresh.unneeded hout rfl nofun)
  · rwa [Core.go_go] at h
  · rintro k' u' ⟨⟩
    exact ⟨htu.symm, by simp [Core.go, htu.symm], by simp [Core.go]⟩
  · rintro u' ⟨⟩ t' h
    by_cases htt : t' = t
    · exact htt
    · obtain rfl | hut := eq_or_ne t' u
      · simp [Core.go, htt, Role.hand] at h
      · exact absurd (by simpa [Core.go, htt, hut] using h) (hhand t')

theorem Hands.run (ht : C.role t = .made k u) :
    Hands ((C.go u .out).go t .out) := by
  have hfresh := (hh.made t k u ht).1
  have htu : t ≠ u := ne_of_values ht hfresh nofun
  have hhand := hh.hand_down (t := t) (u := u) (by rw [ht]; rfl)
  have hdown : Hands (C.go t .out) := hh.drop rfl rfl (hh.unneeded ht rfl nofun)
  have hu : (C.go t .out).role u = .fresh := (update_of_ne htu.symm _ _).trans hfresh
  rw [← Core.go_comm htu]
  exact hdown.drop rfl rfl ⟨fun _ => hdown.not_taken (by rw [hu]; rfl),
    fun t' k' _ h => hhand t' (by rw [h]; rfl)⟩

end

/-! ### Effects -/

variable [DecidableEq K]

/-- **Every effect keeps the groups right.** -/
theorem Groups.effect (hg : Groups C) (hh : Hands C) (h : Effect c C C') : Groups C' := by
  cases h with
  | keep => exact hg
  | look t g ht | skip t g q l ht _ | doze t g ht _ | quit t g l d ht =>
    exact hg.inside (by rw [ht]; rfl) rfl nofun
  | find t g q l ht hz =>
    refine hg.inside (by rw [ht]; rfl) rfl fun q' v heq => ?_
    obtain ⟨rfl, -⟩ := Role.reaping.inj heq
    exact hz
  | countLast t k ht hp _ hlast =>
    exact { hg.count ht hp true .early nofun (fun _ => rfl) fun _ => hlast with }
  | count t k ht hp _ =>
    exact { hg.count ht hp false .after nofun nofun nofun with }
  | reparent t k q ht _ =>
    exact { hg.stage (.rewaking c.tcbPool) ht rfl rfl with }
  | rewoken t k ht | rewake t k w ts ht _ _ | reparented t k ht | wake t k w ts ht _ =>
    exact hg.stage _ ht rfl rfl
  | zombie t k status ht _ _ => exact { hg.zombie ht with }
  | unlink t k b ht => exact hg.unlink ht
  | free t k b ht => exact { hg.free ht with }
  | off t ht => exact hg.off ht
  | reset t q v ht hone hnone => exact { hg.reset ht hone hnone with }
  | pop t k ht hk =>
    exact { hg.inside (r := .popped k) (by rw [ht]; rfl) rfl nofun with }
  | init t k ht => exact { hg.init hh ht with }
  | alloc t k u ht hu =>
    exact { hg.inside (r := .taking k u) (by rw [ht]; rfl) rfl nofun with }
  | join t k u ht hu => exact { hg.join hh ht with }
  | adopt t k u ht =>
    exact { hg.inside (r := .made k u) (by rw [ht]; rfl) rfl nofun with }
  | run t k u ht =>
    have h := hg.inside (t := u) (r := .out) (by rw [(hh.made t k u ht).1]; rfl) rfl nofun
    refine h.inside ?_ rfl nofun
    obtain rfl | htu := eq_or_ne t u
    · simp [Core.go, Role.inside]
    · simp [Core.go, htu, ht, Role.inside]

/-- **Every effect keeps what is being made in one hand.** -/
theorem Hands.effect (hg : Groups C) (hh : Hands C) (h : Effect c C C') : Hands C' := by
  cases h with
  | keep => exact hh
  | look t g ht | skip t g q l ht _ | doze t g ht _ | quit t g l d ht | find t g q l ht _
  | rewoken t k ht | rewake t k w ts ht _ _ | reparented t k ht | wake t k w ts ht _ =>
    exact hh.idle (by rw [ht]; rfl) rfl
  | countLast t k ht _ _ _ =>
    exact { hh.idle (r := .leaving k true .early) (by rw [ht]; rfl) rfl with }
  | count t k ht _ _ =>
    exact { hh.idle (r := .leaving k false .after) (by rw [ht]; rfl) rfl with }
  | reparent t k q ht _ =>
    exact { hh.idle (r := .leaving k true (.rewaking c.tcbPool)) (by rw [ht]; rfl) rfl with }
  | zombie t k status ht _ _ =>
    have hp := hg.leaving t k true _ ht
    have hused := hg.used_of_early ht rfl
    exact { hh.zombie (r := .leaving k true .after) hp hused (by rw [ht]; rfl) rfl with }
  | unlink t k b ht =>
    exact { hh.idle (r := .leaving k b .unlinked) (by rw [ht]; rfl) rfl with }
  | free t k b ht => exact { hh.free ht with }
  | off t ht => exact hh.off ht
  | reset t q v ht _ _ => exact { hh.reset (hg.reaping t q v ht) (by rw [ht]; rfl) with }
  | pop t k ht hk => exact hh.pop hg ht hk
  | init t k ht => exact { hh.init ht with }
  | alloc t k u ht hu => exact hh.alloc ht hu
  | join t k u ht hu => exact { hh.join ht hu with }
  | adopt t k u ht =>
    have hsame : C.go t (.made k u) = C := by
      rw [← ht]
      exact congrArg (fun r => ({ C with role := r } : Core K T)) (update_eq_self t _)
    rw [← hsame] at hh
    exact { hh with }
  | run t k u ht => exact hh.run ht

end XVapor.ExitWait
