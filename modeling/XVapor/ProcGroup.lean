import XVapor.FileTable

/-!
# Process groups

`sys_getpgid` and `sys_setpgid` (`sysproc.c`) use a pid as an index of the table `proc`, and
`sys_setpgid` acquires the lock of the process twice.

## Main results

* `contract_iff`: the calls are right if and only if there is no such process and its slot is free.
-/

namespace XVapor.ProcGroup

open Files (NPROC ProcId ProcState)
open Function (update)

def NPROCID : ℤ := 65536
def NPROC_GROUP : ℤ := 64

/-- The fields of a `struct proc` that the calls use. `held`: this CPU holds its lock. -/
structure Proc where
  state : ProcState
  pid : ℤ
  pgid : ℤ
  held : Bool
  deriving DecidableEq

abbrev Table := ProcId → Proc

inductive Fault
  | acquire
  | release
  -- the state of a process behind the end of `proc` is read
  | outside
  deriving DecidableEq

/-- Another CPU is waited for. -/
def acquire (s : Table) (p : ProcId) : Except Fault Table :=
  if (s p).held then .error .acquire else .ok (update s p { s p with held := true })

def release (s : Table) (p : ProcId) : Except Fault Table :=
  if (s p).held then .ok (update s p { s p with held := false }) else .error .release

/-- Where `proc[pid]` is read. -/
def slot (pid : ℤ) : Except Fault ProcId :=
  if h : pid.toNat < NPROC then .ok ⟨pid.toNat, h⟩ else .error .outside

def target (me : ProcId) (pid : ℤ) : Except Fault ProcId :=
  if pid = 0 then .ok me else slot pid

def sysGetpgid (s : Table) (pid : ℤ) : Except Fault (ℤ × Table) :=
  if pid < 0 ∨ NPROC ≤ pid then .ok (-1, s) else do
    let p ← slot pid
    if (s p).state = .unused then .ok (-1, s) else do
      let s ← acquire s p
      let pgid := (s p).pgid
      let s ← release s p
      .ok (pgid, s)

def sysSetpgid (s : Table) (me : ProcId) (pid pgid : ℤ) : Except Fault (ℤ × Table) :=
  if pid < 0 ∨ NPROCID ≤ pid then .ok (-1, s) else
  if pgid < 0 ∨ NPROC_GROUP ≤ pgid then .ok (-1, s) else do
    let p ← target me pid
    if (s p).state = .unused then .ok (-1, s) else do
      let s ← acquire s p
      let pgid := if pgid = 0 then (s p).pid else pgid
      let s ← acquire s p
      let s ← release (update s p { s p with pgid := pgid }) p
      .ok (0, s)

variable {s : Table} {me p : ProcId} {q g : ℤ}

/-- The process that `q` names for the caller `me`. -/
def Names (s : Table) (me : ProcId) (q : ℤ) (p : ProcId) : Prop :=
  if q = 0 then p = me else (s p).state = .used ∧ (s p).pid = q

instance : Decidable (Names s me q p) := inferInstanceAs (Decidable (ite ..))

structure Contract (s : Table) (me : ProcId) (q g : ℤ) : Prop where
  sets : ∀ p, Names s me q p → ∃ s', sysSetpgid s me q g = .ok (0, s') ∧
    (∀ r, (s' r).held = false) ∧ (∀ r, r ≠ p → s' r = s r) ∧
    sysGetpgid s' q = .ok (if g = 0 then (s p).pid else g, s')
  refuses : (∀ p, ¬ Names s me q p) →
    sysSetpgid s me q g = .ok (-1, s) ∧ sysGetpgid s q = .ok (-1, s)

/-- `sys_setpgid` returns only if it fails, and then at an unused slot. -/
theorem sysSetpgid_eq_ok {r : ℤ} {s' : Table} (hg : 0 ≤ g ∧ g < NPROC_GROUP) :
    sysSetpgid s me q g = .ok (r, s') ↔ (-1 = r ∧ s = s') ∧
      (q < 0 ∨ NPROCID ≤ q ∨ ∃ p, target me q = .ok p ∧ (s p).state = .unused) := by
  by_cases hq : q < 0 ∨ NPROCID ≤ q
  · simp [sysSetpgid, hq, ← or_assoc]
  rw [sysSetpgid, if_neg hq, if_neg (by omega), bind_eq_ok, ← or_assoc, or_iff_right hq,
    ← exists_and_left]
  refine exists_congr fun p => ?_
  by_cases hunused : (s p).state = .unused
  · simp [hunused, and_comm]
  · -- the second `acquire` finds what the first has done
    cases hheld : (s p).held <;> simp [acquire, hheld, hunused, bind, Except.bind]

/-- **The calls work if and only if** nothing is to be done, and the slot that is looked at is
unused. -/
theorem contract_iff (hg : 0 ≤ g ∧ g < NPROC_GROUP) : Contract s me q g ↔
    (∀ p, ¬ Names s me q p) ∧
      (q < 0 ∨ NPROCID ≤ q ∨ ∃ p, target me q = .ok p ∧ (s p).state = .unused) := by
  constructor
  · intro h
    have hno : ∀ p, ¬ Names s me q p := by
      intro p hp
      obtain ⟨s', hset, -⟩ := h.sets p hp
      cases ((sysSetpgid_eq_ok hg).1 hset).1.1
    exact ⟨hno, ((sysSetpgid_eq_ok hg).1 (h.refuses hno).1).2⟩
  · rintro ⟨hno, hq⟩
    refine ⟨fun p hp => absurd hp (hno p), fun _ => ⟨(sysSetpgid_eq_ok hg).2 ⟨⟨rfl, rfl⟩, hq⟩, ?_⟩⟩
    rcases hq with hq | hq | ⟨p, hp, hunused⟩
    · exact if_pos (.inl hq)
    · exact if_pos (.inr (Int.le_trans (by decide) hq))
    · rw [target, if_neg (by rintro rfl; exact hno me rfl)] at hp
      simp [sysGetpgid, hp, ok_bind, hunused]

/-- The first process has pid 1, in slot 0. -/
def oneProc : Table := fun p => if p.1 = 0 then ⟨.used, 1, 1, false⟩ else ⟨.unused, 0, 0, false⟩

/-- No process has the pid 5. -/
theorem contract_refused : Contract oneProc Files.initproc 5 0 :=
  (contract_iff (by decide)).2 ⟨by decide, by decide⟩

/-- The process cannot set its own group, and is not found under its pid. -/
theorem setpgid_panics : Names oneProc Files.initproc 1 Files.initproc ∧
    sysSetpgid oneProc Files.initproc 0 0 = .error .acquire ∧ sysGetpgid oneProc 1 = .ok (-1, oneProc) :=
  ⟨by decide, rfl, rfl⟩

end XVapor.ProcGroup
