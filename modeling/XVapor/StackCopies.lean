import XVapor.ImageErasure
import XVapor.Protection

/-!
# The Stack of a New Program, as Copies

`execve` fills the stack of the new program with one `copyout` after the other: the strings of the
environment, the strings of the arguments, the auxiliary vector, the arrays of pointers, and the
number of arguments. It stops at the first that fails. Here the copies are a list, each with its
address and its bytes; which of them are made, and where, depends on the page table and not on
memory, and not on the bytes of the auxiliary vector.
-/

namespace XVapor.Vm

open Space

variable {S S' : Space} {dst rounds n : ℕ} {d d' : List UInt8}

/-! ### Copies that store the same -/

theorem Reaches.of_le {i j : ℕ} (h : Reaches S dst i) (hj : j ≤ i) : Reaches S dst j :=
  fun l hl => h l (hl.trans hj)

theorem copyoutStores_tbl (h : S.tbl = S'.tbl) (dst : ℕ) (d : List UInt8) :
    copyoutStores S dst d = copyoutStores S' dst d := by
  obtain ⟨m, T⟩ := S
  obtain ⟨m', T'⟩ := S'
  obtain rfl : T = T' := h
  exact storesLoop_mem m m' T _ _ _

theorem storesLoop_fst (hlen : d.length = d'.length) :
    (storesLoop S rounds dst d).1 = (storesLoop S rounds dst d').1 := by
  induction rounds generalizing dst d d' with
  | zero => rfl
  | succ rounds ih =>
    rw [storesLoop, storesLoop]
    by_cases hnil : d = []
    · have hnil' : d' = [] := List.eq_nil_of_length_eq_zero (by rw [← hlen, hnil]; rfl)
      rw [if_pos hnil, if_pos hnil']
    have hnil' : d' ≠ [] := fun h => hnil (List.eq_nil_of_length_eq_zero (by rw [hlen, h]; rfl))
    rw [if_neg hnil, if_neg hnil']
    obtain _ | f := walkaddr S (vpn dst)
    · rfl
    rw [hlen]
    exact ih (by rw [List.length_drop, List.length_drop, hlen])

theorem take_eq_take_iff :
    d.take n = d'.take n ↔ ∀ i < n, d[i]? = d'[i]? := by
  constructor
  · intro h i hi
    rw [← List.getElem?_take_of_lt hi, h, List.getElem?_take_of_lt hi]
  · intro h
    refine List.ext_getElem? fun i => ?_
    by_cases hi : i < n
    · rw [List.getElem?_take_of_lt hi, List.getElem?_take_of_lt hi, h i hi]
    · rw [List.getElem?_eq_none (by simp; omega), List.getElem?_eq_none (by simp; omega)]

theorem storesLoop_same_iff (hd : d.length ≤ rounds) (hlen : d.length = d'.length) :
    (storesLoop S rounds dst d).2 = (storesLoop S rounds dst d').2 ↔
      ∀ i < d.length, Reaches S dst i → d[i]? = d'[i]? := by
  induction rounds generalizing dst d d' with
  | zero => simp [storesLoop, Nat.le_zero.1 hd]
  | succ rounds ih =>
    rw [storesLoop, storesLoop]
    by_cases hnil : d = []
    · have hnil' : d' = [] := List.eq_nil_of_length_eq_zero (by rw [← hlen, hnil]; rfl)
      simp [hnil, hnil']
    have hnil' : d' ≠ [] := fun h => hnil (List.eq_nil_of_length_eq_zero (by rw [hlen, h]; rfl))
    rw [if_neg hnil, if_neg hnil']
    have hpos : 0 < d.length := List.length_pos_iff.2 hnil
    have hround := round_pos dst hpos
    rcases hf : walkaddr S (vpn dst) with _ | f
    · simp only [true_iff]
      intro i _ hreach
      have h0 := hreach 0 (Nat.zero_le _)
      simp [hf] at h0
    rw [← hlen]
    rw [List.cons.injEq, ih (by rw [List.length_drop]; omega)
      (by rw [List.length_drop, List.length_drop, hlen]), forall_reaches_iff hf hpos,
      List.length_drop]
    refine and_congr ?_ (forall₂_congr fun i _ => forall_congr' fun _ => ?_)
    · rw [Store.mk.injEq, take_eq_take_iff]
      simp
    · rw [List.getElem?_drop, List.getElem?_drop]

/-- **Two copies of the same length store the same** if and only if they agree on the bytes that
are reached. -/
theorem copyoutStores_same_iff (hlen : d.length = d'.length) :
    (copyoutStores S dst d).2 = (copyoutStores S dst d').2 ↔
      ∀ i < d.length, Reaches S dst i → d[i]? = d'[i]? := by
  rw [copyoutStores, copyoutStores, ← hlen]
  exact storesLoop_same_iff (Nat.le_refl _) hlen

theorem copyoutStores_fst (hlen : d.length = d'.length) :
    (copyoutStores S dst d).1 = (copyoutStores S dst d').1 := by
  rw [copyoutStores, copyoutStores, ← hlen]
  exact storesLoop_fst hlen

/-! ### Traces -/

/-- The copies that a function makes, and its value, if none of them fails. -/
structure Trace (β : Type) where
  copies : List (ℕ × List UInt8)
  result : Option β

/-- A function that returns. -/
def Trace.ret {β : Type} (b : β) : Trace β := ⟨[], some b⟩

/-- A function that fails. -/
def Trace.fail {β : Type} : Trace β := ⟨[], none⟩

/-- A function that goes on after another, unless that fails. -/
def Trace.bind {β γ : Type} (t : Trace β) (f : β → Trace γ) : Trace γ :=
  match t.result with
  | none => ⟨t.copies, none⟩
  | some b => ⟨t.copies ++ (f b).copies, (f b).result⟩

/-- One `copyout`. -/
def copy (S : Space) (dst : ℕ) (d : List UInt8) : Trace Unit :=
  ⟨[(dst, d)], if (copyoutStores S dst d).1 then some () else none⟩

/-- `push`. -/
def pushCopy (S : Space) (sp : ℕ) (d : List UInt8) : Trace ℕ :=
  let sp := u64 (sp - d.length)
  (copy S sp d).bind fun _ => .ret sp

/-- `pushWords`. -/
def wordCopies (S : Space) (stackbase sp : ℕ) (ws : List ℕ) : Trace ℕ :=
  if u64 (sp - 8 * ws.length) < stackbase then .fail else pushCopy S sp (ws.flatMap wordBytes)

/-- `pushStrings`. -/
def stringCopies (S : Space) (limit stackbase : ℕ) :
    List (List UInt8) → ℕ → List ℕ → Trace (ℕ × List ℕ)
  | [], sp, ptrs => .ret (sp, ptrs)
  | s :: ss, sp, ptrs =>
    if limit ≤ ptrs.length then .fail
    else
      let sp := u64 (sp - (s.length + 1))
      let sp := sp - sp % 16
      if sp < stackbase then .fail
      else (copy S sp (s ++ [0])).bind fun _ => stringCopies S limit stackbase ss sp (ptrs ++ [sp])

/-- The strings of the environment and of the arguments, with their addresses. -/
def stackStrings (S : Space) (top stackbase : ℕ) (argv envp : List (List UInt8)) :
    Trace (ℕ × List ℕ × List ℕ) :=
  (stringCopies S MAXENV stackbase envp (u64 (top - 16)) []).bind fun x =>
    (stringCopies S MAXARG stackbase argv x.1 []).bind fun y => .ret (u64 (y.1 - 16), x.2, y.2)

/-- The arrays of pointers. -/
def stackArrays (S : Space) (stackbase sp : ℕ) (estack ustack : List ℕ) : Trace ℕ :=
  (wordCopies S stackbase sp (estack ++ [0])).bind fun sp =>
    wordCopies S stackbase sp (ustack ++ [0])

/-- `fillStack`, for an auxiliary vector of bytes. -/
def stackCopies (S : Space) (top stackbase : ℕ) (aux : ℕ → List UInt8)
    (argv envp : List (List UInt8)) : Trace ℕ :=
  (stackStrings S top stackbase argv envp).bind fun x =>
    (pushCopy S x.1 (aux x.1)).bind fun sp => stackArrays S stackbase sp x.2.1 x.2.2

/-! ### One trace after another -/

variable {β γ : Type} {t : Trace β}

theorem Trace.bind_none (h : t.result = none) (f : β → Trace γ) :
    t.bind f = ⟨t.copies, none⟩ := by
  rw [Trace.bind, h]

theorem Trace.bind_some {b : β} (h : t.result = some b) (f : β → Trace γ) :
    t.bind f = ⟨t.copies ++ (f b).copies, (f b).result⟩ := by
  rw [Trace.bind, h]

theorem Trace.bind_assoc {δ : Type} (t : Trace β) (f : β → Trace γ) (g : γ → Trace δ) :
    (t.bind f).bind g = t.bind fun b => (f b).bind g := by
  rcases hr : t.result with _ | b
  · rw [Trace.bind_none hr, Trace.bind_none hr, Trace.bind_none rfl]
  rw [Trace.bind_some hr, Trace.bind_some hr]
  cases hf : (f b).result with
  | none => rw [Trace.bind_none rfl, Trace.bind_none hf]
  | some c => rw [Trace.bind_some rfl, Trace.bind_some hf, List.append_assoc]

/-! ### The auxiliary vector among the copies -/

/-- The whole stack, with the number of arguments. That is copied after the trap frame has been
mapped, at a page that is not for the user. -/
def initialStack (S : Space) (top stackbase : ℕ) (aux : ℕ → List UInt8)
    (argv envp : List (List UInt8)) : Trace ℕ :=
  (stackCopies S top stackbase aux argv envp).bind fun sp =>
    wordCopies S stackbase sp [argv.length]

/-- What some copies store. -/
def storesOf (S : Space) (copies : List (ℕ × List UInt8)) : List Store :=
  copies.flatMap fun c => (copyoutStores S c.1 c.2).2

theorem storesOf_append (S : Space) (l l' : List (ℕ × List UInt8)) :
    storesOf S (l ++ l') = storesOf S l ++ storesOf S l' := List.flatMap_append

theorem storesOf_tbl (h : S.tbl = S'.tbl) (copies : List (ℕ × List UInt8)) :
    storesOf S copies = storesOf S' copies :=
  List.flatMap_congr fun c _ => congrArg Prod.snd (copyoutStores_tbl h c.1 c.2)

theorem storesOf_bind_same_iff {f : ℕ → Trace β} (sp : ℕ) (hlen : d.length = d'.length) :
    storesOf S ((pushCopy S sp d).bind f).copies = storesOf S ((pushCopy S sp d').bind f).copies ↔
      (copyoutStores S (u64 (sp - d.length)) d).2 = (copyoutStores S (u64 (sp - d.length)) d').2 := by
  have hcopies : ∀ d : List UInt8, ((pushCopy S sp d).bind f).copies =
      (u64 (sp - d.length), d) ::
        if (copyoutStores S (u64 (sp - d.length)) d).1 then (f (u64 (sp - d.length))).copies
        else [] := by
    intro d
    rw [pushCopy, Trace.bind_assoc]
    cases hflag : (copyoutStores S (u64 (sp - d.length)) d).1 with
    | false => rw [Trace.bind_none (by rw [copy, hflag]; rfl)]; rfl
    | true => rw [Trace.bind_some (b := ()) (by rw [copy, hflag]; rfl)]; rfl
  rw [hcopies, hcopies, ← hlen, copyoutStores_fst hlen, storesOf, storesOf, List.flatMap_cons,
    List.flatMap_cons, List.append_left_inj]

/-- Where the auxiliary vector is copied to, if the strings have been: the stack pointer before it,
and the address. -/
def auxAt (S : Space) (top stackbase len : ℕ) (argv envp : List (List UInt8)) : Option (ℕ × ℕ) :=
  (stackStrings S top stackbase argv envp).result.map fun x => (x.1, u64 (x.1 - len))

/-! ### The copies depend on the table -/

section

variable (h : S.tbl = S'.tbl)
include h

theorem copy_tbl : copy S = copy S' := by
  funext dst d
  rw [copy, copy, copyoutStores_tbl h]

theorem pushCopy_tbl : pushCopy S = pushCopy S' := by
  funext sp d
  rw [pushCopy, pushCopy, copy_tbl h]

theorem wordCopies_tbl : wordCopies S = wordCopies S' := by
  funext stackbase sp ws
  rw [wordCopies, wordCopies, pushCopy_tbl h]

theorem stringCopies_tbl : stringCopies S = stringCopies S' := by
  funext limit stackbase ss
  induction ss with
  | nil => rfl
  | cons s ss ih =>
    funext sp ptrs
    rw [stringCopies, stringCopies, copy_tbl h, ih]

theorem initialStack_tbl : initialStack S = initialStack S' := by
  have hstrings : stackStrings S = stackStrings S' := by
    funext top stackbase argv envp
    rw [stackStrings, stackStrings, stringCopies_tbl h]
  have harrays : stackArrays S = stackArrays S' := by
    funext stackbase sp estack ustack
    rw [stackArrays, stackArrays, wordCopies_tbl h]
  funext top stackbase aux argv envp
  rw [initialStack, initialStack, stackCopies, stackCopies, hstrings, pushCopy_tbl h, harrays,
    wordCopies_tbl h]

end

/-- **The stacks for two auxiliary vectors** of the same length are the same if and only if the
copies of the two vectors are. -/
theorem initialStack_same_iff {aux aux' : ℕ → List UInt8} {len : ℕ} {top stackbase : ℕ}
    {argv envp : List (List UInt8)} (h : ∀ sp, (aux sp).length = len)
    (h' : ∀ sp, (aux' sp).length = len) :
    storesOf S (initialStack S top stackbase aux argv envp).copies =
        storesOf S (initialStack S top stackbase aux' argv envp).copies ↔
      ∀ sp a, auxAt S top stackbase len argv envp = some (sp, a) →
        (copyoutStores S a (aux sp)).2 = (copyoutStores S a (aux' sp)).2 := by
  rw [initialStack, initialStack, stackCopies, stackCopies, Trace.bind_assoc, Trace.bind_assoc,
    auxAt]
  rcases hr : (stackStrings S top stackbase argv envp).result with _ | x
  · rw [Trace.bind_none hr, Trace.bind_none hr]
    simp
  rw [Trace.bind_some hr, Trace.bind_some hr, storesOf_append, storesOf_append,
    List.append_right_inj, Trace.bind_assoc, Trace.bind_assoc,
    storesOf_bind_same_iff x.1 ((h x.1).trans (h' x.1).symm), h]
  constructor
  · intro heq sp a ha
    cases ha
    exact heq
  · intro hall
    exact hall x.1 _ rfl

end XVapor.Vm
