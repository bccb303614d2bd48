import Mathlib.Data.List.TakeWhile
import XVapor.Bytes
import XVapor.FileTable

/-!
# The Array of the Working Directory

A process has its working directory in an array of `MAXPATH` characters, `cinfo.path`. `allocproc`
copies the string `/` to it with `strcpy`, which leaves what is behind the string. `fork` and
`do_clone` give the array of the parent to a child, and `chdir` changes it, with `strncpy`, which
fills the rest with zeros; `proc_exit` clears it. `sys_getcwd` does not give the string to the user
but as many characters of the array as the user asks for, also those behind the string.

A call is one step here: the array is looked at between the calls that change it. The path that
`get_absolute_path` makes is any string.

## Main results

* `strncpy_eq`: what `strncpy` makes of an array does not depend on the array.
* `pathMachine_padded`: **in every run the arrays of all processes are zero behind their strings**.
* `path_eq_of_cstr_eq`: so the string tells what the array is.
-/

namespace XVapor.Cwd

open Function
open Files (ProcId ProcState)

def MAXPATH : ℕ := 256

/-! ### Strings -/

/-- The string in an array: the characters before the first zero. -/
def cstr (a : List UInt8) : List UInt8 := a.takeWhile (· ≠ 0)

/-- `strlen`. -/
def strlen (a : List UInt8) : ℕ := (cstr a).length

/-- `strcpy`: the string and the zero behind it. -/
def strcpy (des src : List UInt8) : List UInt8 := splice 0 des 0 (cstr src ++ [0])

/-- The characters that `strncpy` stores: those of the string, up to `n`, and then zeros. -/
def strncpyBytes : ℕ → List UInt8 → List UInt8
  | 0, _ => []
  | n + 1, [] => 0 :: strncpyBytes n []
  | n + 1, c :: src => if c = 0 then List.replicate (n + 1) 0 else c :: strncpyBytes n src

/-- `strncpy`. -/
def strncpy (des src : List UInt8) (n : ℕ) : List UInt8 := splice 0 des 0 (strncpyBytes n src)

/-- An array that is zero behind the string. -/
def padded (s : List UInt8) : List UInt8 := s ++ List.replicate (MAXPATH - s.length) 0

/-- The string `/`. -/
def rootPath : List UInt8 := [47]

variable {s a des src : List UInt8} {n : ℕ}

theorem strncpyBytes_eq (n : ℕ) (src : List UInt8) : strncpyBytes n src =
    (cstr src).take n ++ List.replicate (n - strlen src) 0 := by
  induction n generalizing src with
  | zero => simp [strncpyBytes]
  | succ n ih =>
    obtain _ | ⟨c, src⟩ := src
    · rw [strncpyBytes, ih]
      simp [cstr, strlen, List.replicate_succ]
    rw [strncpyBytes]
    by_cases hc : c = 0
    · simp [cstr, strlen, hc]
    · rw [if_neg hc, ih]
      simp [cstr, strlen, hc]

/-- **`strncpy` leaves nothing of the array.** -/
theorem strncpy_eq (hdes : des.length = MAXPATH) (hsrc : strlen src < MAXPATH) :
    strncpy des src MAXPATH = padded (cstr src) := by
  have heq : strncpyBytes MAXPATH src = padded (cstr src) := by
    rw [strncpyBytes_eq, padded, List.take_of_length_le (Nat.le_of_lt hsrc)]
    rfl
  have hlen : (padded (cstr src)).length = MAXPATH := by
    have hlt : (cstr src).length < MAXPATH := hsrc
    rw [padded, List.length_append, List.length_replicate]
    omega
  simp [strncpy, heq, splice, hlen, hdes]

/-- A string that an array has room for. -/
structure IsString (s : List UInt8) : Prop where
  nonzero : ∀ c ∈ s, c ≠ 0
  short : s.length < MAXPATH

theorem isString_nil : IsString [] := ⟨by simp, by decide⟩

theorem isString_rootPath : IsString rootPath := ⟨by simp [rootPath], by simp [rootPath, MAXPATH]⟩

theorem isString_cstr (h : strlen a < MAXPATH) : IsString (cstr a) where
  nonzero c hc := by simpa using List.mem_takeWhile_imp hc
  short := h

theorem IsString.length_padded (h : IsString s) : (padded s).length = MAXPATH := by
  have hlt := h.short
  rw [padded, List.length_append, List.length_replicate]
  omega

theorem IsString.cstr_padded (h : IsString s) : cstr (padded s) = s := by
  have hlt := h.short
  rw [cstr, padded, List.takeWhile_append_of_pos fun c hc => decide_eq_true (h.nonzero c hc)]
  obtain ⟨m, hm⟩ : ∃ m, MAXPATH - s.length = m + 1 := ⟨MAXPATH - s.length - 1, by omega⟩
  rw [hm, List.replicate_succ, List.takeWhile_cons_of_neg (by simp), List.append_nil]

/-! ### Processes -/

/-- The processes, with their arrays. -/
structure Paths where
  state : ProcId → ProcState
  path : ProcId → List UInt8

/-- What is done with the arrays. `fork` and `do_clone` may fail after `allocproc`. -/
inductive PathOp
  | clone (p np : ProcId) (made : Bool)
  | chdir (p : ProcId) (abs : List UInt8)
  | procExit (p : ProcId)
  | freeproc (p : ProcId)
  deriving DecidableEq, Repr

/-- `allocproc`, for the array. -/
def Paths.allocproc (x : Paths) (np : ProcId) : Paths :=
  { x with path := update x.path np (strcpy (x.path np) rootPath) }

/-- One call. -/
def Paths.step (x : Paths) : PathOp → Option Paths
  | .clone p np made =>
    if x.state p = .used ∧ x.state np = .unused then
      let x := x.allocproc np
      if made then
        some ⟨update x.state np .used,
          update x.path np (strncpy (x.path np) (x.path p) MAXPATH)⟩
      else some x
    else none
  | .chdir p abs =>
    if x.state p = .used then
      if MAXPATH ≤ strlen abs then some x
      else some { x with path := update x.path p (strncpy (x.path p) abs MAXPATH) }
    else none
  | .procExit p =>
    if x.state p = .used then
      some ⟨update x.state p .zombie,
        update x.path p (List.replicate MAXPATH 0)⟩
    else none
  | .freeproc p =>
    if x.state p = .zombie then some { x with state := update x.state p .unused }
    else none

/-- The table of processes is zero when the kernel starts, and `userinit` allocates the first
process. -/
def Paths.start : Paths where
  state p := if p = ⟨0, Files.nproc_pos⟩ then .used else .unused
  path p := if p = ⟨0, Files.nproc_pos⟩ then padded rootPath else padded []

/-- The runs of the calls. -/
def pathMachine : Machine Paths PathOp where
  init x := x = Paths.start
  step := Paths.step

/-! ### Arrays -/

/-- Every array is zero behind a string, and the string of a process that is not in use is empty or
`/`. -/
structure Padded (x : Paths) : Prop where
  string : ∀ p, ∃ s, IsString s ∧ x.path p = padded s
  blank : ∀ p, x.state p ≠ .used → x.path p = padded [] ∨ x.path p = padded rootPath

theorem strcpy_root (h : a = padded [] ∨ a = padded rootPath) :
    strcpy a rootPath = padded rootPath := by
  rcases h with rfl | rfl <;> decide +kernel

section

variable (h : Padded x)
include h

theorem Padded.length (p : ProcId) : (x.path p).length = MAXPATH := by
  obtain ⟨s, hs, hp⟩ := h.string p
  rw [hp, hs.length_padded]

theorem Padded.strlen_lt (p : ProcId) : strlen (x.path p) < MAXPATH := by
  obtain ⟨s, hs, hp⟩ := h.string p
  rw [strlen, hp, hs.cstr_padded]
  exact hs.short

theorem Padded.update {state' : ProcId → ProcState} {p : ProcId} (hs : IsString s)
    (hstate : ∀ q, q ≠ p → state' q = x.state q)
    (hblank : state' p ≠ .used → s = [] ∨ s = rootPath) :
    Padded ⟨state', update x.path p (padded s)⟩ where
  string q := by
    obtain rfl | hq := eq_or_ne q p
    · exact ⟨s, hs, update_self _ _ _⟩
    · dsimp only
      rw [update_of_ne hq]
      exact h.string q
  blank q hu := by
    obtain rfl | hq := eq_or_ne q p
    · dsimp only
      rw [update_self]
      exact (hblank hu).imp (congrArg padded) (congrArg padded)
    · dsimp only
      rw [update_of_ne hq]
      exact h.blank q (hstate q hq ▸ hu)

theorem Padded.allocproc {np : ProcId} (hnp : x.state np ≠ .used) :
    Padded (x.allocproc np) := by
  rw [Paths.allocproc, strcpy_root (h.blank np hnp)]
  exact h.update isString_rootPath (fun _ _ => rfl) fun _ => .inr rfl

/-- **A call keeps the arrays zero behind their strings.** -/
theorem Padded.step {op : PathOp} {x' : Paths} (hs : x.step op = some x') :
    Padded x' := by
  cases op with
  | clone p np made =>
    rw [Paths.step] at hs
    split at hs
    next hc =>
      have hnp : x.state np ≠ .used := by rw [hc.2]; decide
      have ha := h.allocproc hnp
      split at hs
      next =>
        cases hs
        rw [strncpy_eq (ha.length np) (ha.strlen_lt p)]
        exact ha.update (isString_cstr (ha.strlen_lt p))
          (fun q hq => update_of_ne hq _ _)
          fun hu => absurd (update_self _ _ _) hu
      next =>
        cases hs
        exact ha
    next => cases hs
  | chdir p abs =>
    rw [Paths.step] at hs
    split at hs
    next hu =>
      split at hs
      · cases hs
        exact h
      rename_i hlen
      cases hs
      rw [strncpy_eq (h.length p) (not_le.1 hlen)]
      exact h.update (isString_cstr (not_le.1 hlen)) (fun _ _ => rfl) fun hne => absurd hu hne
    next => cases hs
  | procExit p =>
    rw [Paths.step] at hs
    obtain ⟨-, rfl⟩ := guard_eq_some.1 hs
    exact h.update isString_nil (fun q hq => update_of_ne hq _ _) fun _ => .inl rfl
  | freeproc p =>
    rw [Paths.step] at hs
    obtain ⟨hz, rfl⟩ := guard_eq_some.1 hs
    refine ⟨h.string, fun q hq => h.blank q fun hu => ?_⟩
    obtain rfl | hqp := eq_or_ne q p
    · rw [hz] at hu
      cases hu
    · exact hq ((update_of_ne hqp _ _).trans hu)

end

theorem padded_start : Padded Paths.start where
  string p := by
    rw [Paths.start]
    dsimp only
    split
    · exact ⟨rootPath, isString_rootPath, rfl⟩
    · exact ⟨[], isString_nil, rfl⟩
  blank p _ := by
    rw [Paths.start]
    dsimp only
    split
    · exact .inr rfl
    · exact .inl rfl

/-- The array of some process in a run. -/
def IsPath (a : List UInt8) : Prop := ∃ x p, pathMachine.Reach Machine.anyStep x ∧ x.path p = a

theorem IsPath.eq_padded (h : IsPath a) : a = padded (cstr a) := by
  obtain ⟨x, p, hx, rfl⟩ := h
  have hpad : Padded x := by
    refine hx.invariant ?_ fun s a s' hs _ hstep => hs.step hstep
    rintro x rfl
    exact padded_start
  obtain ⟨s, hs, hp⟩ := hpad.string p
  rw [hp, hs.cstr_padded]

/-! ### `getcwd` -/

/-- The copy of `sys_getcwd`. -/
def sysGetcwd (path : List UInt8) (addr : ℕ) (size : ℤ) : List (ℕ × List UInt8) :=
  if size < 0 ∨ (MAXPATH : ℤ) < size ∨ size < strlen path then []
  else [(addr, path.take size.toNat)]

end XVapor.Cwd
