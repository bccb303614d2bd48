import XVapor.Monitor

/-!
# Sleeplocks

`kernel/atomic/sleeplock.c` builds a lock that can be held across a sleep: the word `locked`
behind the spinlock `lk->lk`. `acquiresleep` sleeps on the channel `lk` while the word is set;
`releasesleep` clears it and wakes the channel. The two calls are the code of a monitor, so
`thread_sleep` and `thread_wakeup_chan` run step by step, against each other and against
wakeups of sleepers by signals.

A release is made by the holder. A holder may call `acquiresleep` again, and then sleeps for
good.

## Main results

* `sleeplock_excl_and_awake`: **mutual exclusion, and no lost wakeup**.
-/

namespace XVapor

open scoped Sample

/-- `struct sleeplock`. The field `owner` is not in the source: the thread that set `locked`. -/
structure Sleeplock (T : Type) where
  locked : Bool
  pid : ℕ
  owner : Option T

/-- Where a thread is in `acquiresleep` and `releasesleep`, while it holds or waits for the inner
spinlock. `acquiresleep` is at the head of its loop; `held` says that the thread already has
the sleeplock. -/
inductive SleeplockPc
  | acquiresleep (held : Bool)
  | releasesleep
  | released
  deriving DecidableEq, Repr

/-- The two calls. -/
inductive SleeplockCall
  | acquiresleep
  | releasesleep
  deriving DecidableEq, Repr

variable {T : Type}

/-- The code of a sleeplock. Outside, a thread knows whether it is between the return of
`acquiresleep` and its call of `releasesleep`; only then does it call `releasesleep`. -/
def sleeplock (pool : Pool T) (pid : T → ℕ) :
    Monitor T Unit (Sleeplock T) SleeplockPc Bool SleeplockCall Unit where
  pool := pool
  -- `initsleeplock`
  initial lk := lk = ⟨false, 0, none⟩
  idle := false
  start
    | _, held, .acquiresleep => some (.acquiresleep held)
    | _, true, .releasesleep => some .releasesleep
    | _, false, .releasesleep => none
  code
    | t, lk, .acquiresleep held, _ =>
      if lk.locked then some (lk, .sleep () (.acquiresleep held))
      else some (⟨true, pid t, some t⟩, .leave true)
    | _, _, .releasesleep, _ => some (⟨false, 0, none⟩, .wake () .released)
    | _, lk, .released, _ => some (lk, .leave false)

/-- The thread has the sleeplock at this place. -/
def SleeplockPc.held : SleeplockPc → Bool
  | acquiresleep held => held
  | releasesleep => true
  | released => false

/-- The thread is **between the return of `acquiresleep` and its call of `releasesleep`**. -/
def between : Stage T Unit SleeplockPc Bool → Bool
  | .out held => held
  | .acq (.acquiresleep held) | .inn (.acquiresleep held) | .lockSelf _ (.acquiresleep held)
  | .drop _ (.acquiresleep held) | .mark _ (.acquiresleep held) | .switch _ (.acquiresleep held)
  | .asleep _ (.acquiresleep held) | .tidy (.acquiresleep held)
  | .scan _ _ (.acquiresleep held) => held
  | _ => false

/-- The word says whether there is an owner, and every thread knows whether it is the one. -/
def sleeplockOutline : Outline T (Sleeplock T) SleeplockPc Bool where
  shared lk := lk.locked = lk.owner.isSome
  outside t lk held := held = true ↔ lk.owner = some t
  waiting t lk l := l.held = true ↔ lk.owner = some t
  inside t lk l := l.held = true ↔ lk.owner = some t

variable {pool : Pool T} {pid : T → ℕ}

theorem sleeplock_code {t : T} {lk lk' : Sleeplock T} {l : SleeplockPc} {e : Unit}
    {a : Next Unit SleeplockPc Bool} (h : (sleeplock pool pid).code t lk l e = some (lk', a)) :
    (∃ held, l = .acquiresleep held ∧ lk.locked = true ∧ lk' = lk ∧
      a = .sleep () (.acquiresleep held)) ∨
    (∃ held, l = .acquiresleep held ∧ lk.locked = false ∧ lk' = ⟨true, pid t, some t⟩ ∧
      a = .leave true) ∨ (l = .releasesleep ∧ lk' = ⟨false, 0, none⟩ ∧ a = .wake () .released) ∨
    (l = .released ∧ lk' = lk ∧ a = .leave false) := by
  cases l with
  | acquiresleep held =>
    cases hlk : lk.locked with
    | true =>
      simp only [sleeplock, hlk, if_true] at h
      cases h
      exact .inl ⟨held, rfl, rfl, rfl, rfl⟩
    | false =>
      simp only [sleeplock, hlk, Bool.false_eq_true, if_false] at h
      cases h
      exact .inr (.inl ⟨held, rfl, rfl, rfl, rfl⟩)
  | releasesleep =>
    cases h
    exact .inr (.inr (.inl ⟨rfl, rfl, rfl⟩))
  | released =>
    cases h
    exact .inr (.inr (.inr ⟨rfl, rfl, rfl⟩))

theorem sleeplockOutline_valid :
    sleeplockOutline.Valid (sleeplock pool pid) fun _ _ _ _ => True where
  init := by
    rintro lk rfl
    simp [sleeplockOutline, sleeplock]
  start := by
    rintro t lk held k l - hout hl
    cases k with
    | acquiresleep =>
      obtain rfl : SleeplockPc.acquiresleep held = l := Option.some.inj hl
      exact hout
    | releasesleep =>
      obtain _ | _ := held
      · cases hl
      obtain rfl : SleeplockPc.releasesleep = l := Option.some.inj hl
      exact hout
  enter _ := id
  own := by
    rintro t lk l e lk' a hsh hin - hc
    obtain ⟨held, rfl, -, rfl, rfl⟩ | ⟨held, rfl, -, rfl, rfl⟩ | ⟨rfl, rfl, rfl⟩ |
      ⟨rfl, rfl, rfl⟩ := sleeplock_code hc
    · exact ⟨hsh, hin⟩
    · simp [sleeplockOutline, Outline.after]
    · simp [sleeplockOutline, Outline.after, SleeplockPc.held]
    · exact ⟨hsh, hin⟩
  frame := by
    rintro t lk l e lk' a u hsh hin - hc hu
    -- the owner changes from nobody to `t`, or from `t` to nobody
    have howner : lk.owner = some u ↔ lk'.owner = some u := by
      obtain ⟨held, rfl, -, rfl, rfl⟩ | ⟨held, rfl, hlk, rfl, rfl⟩ | ⟨rfl, rfl, rfl⟩ |
        ⟨rfl, rfl, rfl⟩ := sleeplock_code hc
      · rfl
      · have hnone : lk.owner = none := by
          have hsome : lk.locked = lk.owner.isSome := hsh
          rw [hlk] at hsome
          exact Option.not_isSome_iff_eq_none.1 (by simp [← hsome])
        simp [hnone, hu.symm]
      · have ht : lk.owner = some t := hin.1 rfl
        simp [ht, hu.symm]
      · rfl
    exact ⟨fun l' hl' => hl'.trans howner, fun o ho => ho.trans howner⟩

/-- A sleeper waits for `locked` to be cleared, and **whoever clears it wakes the channel**. -/
theorem sleeplock_wakes : Wakes (sleeplock pool pid) sleeplockOutline (fun _ _ _ _ => True)
    (fun _ lk => lk.locked = true) (fun _ _ => False) where
  keep := by
    rintro t lk l e lk' a c hsh hin - hc (hb | ho)
    · obtain ⟨held, rfl, -, rfl, rfl⟩ | ⟨held, rfl, -, rfl, rfl⟩ | ⟨rfl, rfl, rfl⟩ |
        ⟨rfl, rfl, rfl⟩ := sleeplock_code hc
      · exact hb
      · exact rfl
      · exact .inl rfl
      · exact hb
    · exact ho.elim
  sleep := by
    rintro t lk l e lk' c l' hsh hin - hc
    obtain ⟨held, rfl, hlk, rfl, -⟩ | ⟨held, rfl, -, rfl, ha⟩ | ⟨rfl, rfl, ha⟩ |
      ⟨rfl, rfl, ha⟩ := sleeplock_code hc
    · exact hlk
    all_goals cases ha

theorem owner_of_between {t : T} {lk : Sleeplock T} {p : Stage T Unit SleeplockPc Bool}
    (h : sleeplockOutline.asserts t lk p) (hp : between p = true) : lk.owner = some t := by
  unfold between at hp
  split at hp <;> first | exact h.1 hp | cases hp

/-- **Sleeplocks exclude, and lose no wakeup.** In every run, whatever wakes the sleepers: at
most one thread is between the return of `acquiresleep` and its call of `releasesleep`; and
when `locked` is 0 and the inner spinlock is free, no thread sleeps on the sleeplock. -/
theorem sleeplock_excl_and_awake [DecidableEq T]
    {s : MonState T Unit (Sleeplock T) SleeplockPc Bool}
    (h : (sleeplock pool pid).machine.Reach Machine.anyStep s) :
    (∀ t u, between (s.stage t) = true → between (s.stage u) = true → t = u) ∧
    (s.data.locked = false → s.lock = none →
      ∀ t, ¬ (s.state t = .sleeping ∧ s.chan t = some ())) := by
  have hg := Monitor.reach_guard h
  have hA := sleeplockOutline_valid.holds hg
  refine ⟨fun t u ht hu => ?_, ?_⟩
  · have hown := owner_of_between (hA.thread t) ht
    exact Option.some.inj (hown.symm.trans (owner_of_between (hA.thread u) hu))
  · rintro hlk hl t ⟨hst, hch⟩
    have hb := sleeplock_wakes.blocked_of_sleeping sleeplockOutline_valid hg hl hst hch
    rw [hlk] at hb
    cases hb

/-- Thread 0 has the sleeplock, threads 1 and 2 fall asleep on it, a signal wakes thread 2 and it
sleeps again; then thread 0 releases and wakes both. -/
def handOver : List (MonAct (Fin 3) SleeplockCall Unit) :=
  let sleepOn (t : Fin 3) : List (MonAct (Fin 3) SleeplockCall Unit) :=
    [.advance t, .run t (), .advance t, .advance t, .advance t, .advance t]
  [.call 0 .acquiresleep, .advance 0, .run 0 (), .call 1 .acquiresleep] ++ sleepOn 1 ++
    [.call 2 .acquiresleep] ++ sleepOn 2 ++ [.disturb 2 true, .advance 2, .advance 2] ++
    sleepOn 2 ++ [.call 0 .releasesleep, .advance 0, .run 0 (), .advance 0, .advance 0,
    .advance 0, .advance 0, .run 0 ()]

/-- After the release the sleeplock is free, and the two threads that slept are runnable. -/
theorem sleeplock_handOver : ∃ s, (sleeplock (.fin 3) fun _ => 1).machine.exec
      ((sleeplock (.fin 3) fun _ => 1).quiet ⟨false, 0, none⟩) handOver = some s ∧
    s.data.locked = false ∧ s.lock = none ∧ s.state 1 = .runnable ∧ s.state 2 = .runnable ∧
    ∀ t, ¬ (s.state t = .sleeping ∧ s.chan t = some ()) := by
  obtain ⟨s, hs, hlk, hl, h1, h2⟩ : ∃ s ∈ (sleeplock (.fin 3) fun _ => 1).machine.exec
      ((sleeplock (.fin 3) fun _ => 1).quiet ⟨false, 0, none⟩) handOver,
      s.data.locked = false ∧ s.lock = none ∧ s.state 1 = .runnable ∧ s.state 2 = .runnable := by
    decide +kernel
  have hsafe := sleeplock_excl_and_awake (Machine.reach_of_exec (Monitor.init_quiet rfl) hs)
  exact ⟨s, hs, hlk, hl, h1, h2, hsafe.2 hlk hl⟩

end XVapor
