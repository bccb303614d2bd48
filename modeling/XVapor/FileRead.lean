import XVapor.Ext4File
import XVapor.Pipe
import Mathlib.Data.List.TakeWhile

/-!
# Reading Files of All Types

`fileread` (`fs/file.c`) with everything behind it: pipes (`ipc/pipe.c`), the console and the null
device (`arch/qemu/console.c`), regular files (`fs/ext4fs.c`) and `/proc/interrupts`
(`fs/procfs.c`). The destination is a buffer of the user or of the kernel.

What a read does to memory does not depend on what is there. So memory is given by what has been
stored: a byte that has been stored, or none, for every address of the user and of the kernel.
`copyout` fails at the first page of the user that is not mapped.

A read of a pipe or of the console may sleep. What the thread finds when it wakes up is an
argument of the model. The size is below `2 ^ 31`, where the `int` of the drivers is the `size_t`
of `fileread`.
-/

namespace XVapor.Read

open Ext4 (PGSIZE EOK ENOMEM EINVAL Ext4File ext4Fread ext4Fseek chunk chunks UserMem)

/-! ### Memory -/

/-- Where a read stores: the pages that are mapped for the user, and the bytes that have been stored
in user memory and in kernel memory. -/
@[ext]
structure Dest where
  mapped : ℕ → Bool
  user : ℕ → Option UInt8
  kernel : ℕ → Option UInt8

/-- `d` at `addr`, over what has been stored before. -/
def overlay (w : ℕ → Option UInt8) (addr : ℕ) (d : List UInt8) (a : ℕ) : Option UInt8 :=
  if addr ≤ a ∧ a < addr + d.length then d[a - addr]? else w a

namespace Dest

variable (D : Dest)

/-- What has been stored in user memory, or in kernel memory. -/
def stored : Bool → ℕ → Option UInt8
  | true => D.user
  | false => D.kernel

/-- Store `d` at `addr`. -/
def store : Bool → ℕ → List UInt8 → Dest
  | true, addr, d => { D with user := overlay D.user addr d }
  | false, addr, d => { D with kernel := overlay D.kernel addr d }

/-- The page of a byte of the user is mapped. -/
def here (a : ℕ) : Bool := D.mapped (a / PGSIZE)

/-- The number of bytes before the first page that is not mapped. -/
def room (dst n : ℕ) : ℕ := ((List.range n).takeWhile fun i => D.here (dst + i)).length

/-- `copyout`. -/
def copyout (dst : ℕ) (d : List UInt8) : Bool × Dest :=
  let k := D.room dst d.length
  (k == d.length, D.store true dst (d.take k))

/-- `either_copyout`. -/
def eitherCopyout (user : Bool) (dst : ℕ) (d : List UInt8) : Bool × Dest :=
  if user then D.copyout dst d else (true, D.store false dst d)

end Dest

/-! ### Rings -/

/-- A buffer of `size` bytes with two counters of 32 bits. -/
structure ByteRing (size : ℕ) where
  buf : ℕ → UInt8
  r : BitVec 32
  w : BitVec 32

namespace ByteRing

variable {size : ℕ} (g : ByteRing size)

/-- The next byte. -/
def head : UInt8 := g.buf (g.r.toNat % size)

/-- The ring without the next byte. -/
def tail : ByteRing size := { g with r := g.r + 1 }

/-- The bytes in the ring. -/
def contents : List UInt8 :=
  (List.range (g.w - g.r).toNat).map fun j => g.buf ((g.r + BitVec.ofNat 32 j).toNat % size)

end ByteRing

/-! ### Pipes -/

/-- The loop of `piperead`, with the rounds that are left. -/
def pipereadLoop (user : Bool) (addr : ℕ) :
    ℕ → ℕ → ByteRing PIPESIZE → Dest → ℕ × ByteRing PIPESIZE × Dest
  | 0, i, g, D => (i, g, D)
  | rounds + 1, i, g, D =>
    if g.r = g.w then (i, g, D)
    else match D.eitherCopyout user (addr + i) [g.head] with
      | (false, D) => (i, g.tail, D)
      | (true, D) => pipereadLoop user addr rounds (i + 1) g.tail D

/-! ### The console -/

/-- `INPUT_BUF_SIZE` -/
def INPUT_BUF_SIZE : ℕ := 128

/-- The input of the console. -/
abbrev Cons := ByteRing INPUT_BUF_SIZE

/-- What a reader of the console finds each time that there is no input: whether its process has been
killed, and the input after it has slept. -/
abbrev Waits := List (Bool × Cons)

/-- How the wait for input ends. -/
inductive Wait
  | input (c : Cons) (waits : Waits)
  | killed (c : Cons)
  | sleeps

/-- The loop of `consoleread` that waits for input. -/
def Cons.wait (c : Cons) : Waits → Wait
  | [] => if c.r = c.w then .sleeps else .input c []
  | (killed, c') :: waits =>
    if c.r = c.w then if killed then .killed c else Cons.wait c' waits
    else .input c ((killed, c') :: waits)

/-- `C('D')` -/
def ctrlD : UInt8 := 4

/-- The loop of `consoleread`, with the rounds that are left, after `i` bytes. There is no result if
it sleeps for ever. -/
def consolereadLoop (user : Bool) (dst : ℕ) :
    ℕ → ℕ → Cons → Waits → Dest → Option (ℤ × Cons × Dest)
  | 0, i, c, _, D => some (i, c, D)
  | rounds + 1, i, c, waits, D =>
    match Cons.wait c waits with
    | .sleeps => none
    | .killed c => some (-1, c, D)
    | .input c waits =>
      if c.head = ctrlD then some (i, if 0 < i then c else c.tail, D)
      else match D.eitherCopyout user (dst + i) [c.head] with
        | (false, D) => some (i, c.tail, D)
        | (true, D) =>
          if c.head = 10 then some (i + 1, c.tail, D)
          else consolereadLoop user dst rounds (i + 1) c.tail waits D

/-- `consoleread`. -/
def consoleread (user : Bool) (dst n : ℕ) (c : Cons) (waits : Waits) (D : Dest) :
    Option (ℤ × Cons × Dest) :=
  consolereadLoop user dst n 0 c waits D

/-- `devnullread`. -/
def devnullread (n : ℕ) : ℤ := n

/-! ### Interrupts -/

/-- `MAXINTR` -/
def MAXINTR : ℕ := 16

/-- `%d` of `sprintf`. -/
def decimal (x : ℤ) : List UInt8 :=
  (if x < 0 then [45] else []) ++ (Nat.toDigits 10 x.natAbs).map fun c => UInt8.ofNat c.toNat

/-- A line of `/proc/interrupts`: `"%d:      %d\n"`. -/
def intrLine (i count : ℕ) : List UInt8 :=
  decimal i ++ [58, 32, 32, 32, 32, 32, 32] ++ decimal (Int.bmod count (2 ^ 32)) ++ [10]

/-- The lines of `/proc/interrupts`. -/
def intrLines (intrcnt : ℕ → ℕ) : List (List UInt8) :=
  ((List.range MAXINTR).filter fun i => intrcnt i != 0).map fun i => intrLine i (intrcnt i)

/-- The last interrupt that has occurred. -/
def lastIntr (intrcnt : ℕ → ℕ) : ℕ :=
  (List.range MAXINTR).foldl (fun la i => if intrcnt i ≠ 0 ∧ la < i then i else la) 0

/-- `sprintf` of the lines to a buffer of the kernel. Each call writes a null byte behind its
line. -/
def sprintfLines (D : Dest) (dst : ℕ) (lines : List (List UInt8)) : Dest :=
  (lines.foldl (fun (p, D) line => (p + line.length, D.store false p (line ++ [0]))) (dst, D)).2

/-- What an operation of the file system returns: `*rcnt` and memory. The status is not looked at by
`fileread`. -/
structure OpRes where
  r : ℤ
  rcnt : ℕ
  dest : Dest

/-- `proc_interrupts_read`, with `*rcnt` zero before. It returns the new `fpos` as well. -/
def procInterruptsRead (intrcnt : ℕ → ℕ) (fpos : ℕ) (D : Dest) (user buffer : Bool) (dst : ℕ) :
    OpRes × ℕ :=
  let text := (intrLines intrcnt).flatten
  if lastIntr intrcnt = fpos then (⟨0, 0, D⟩, 0)
  else if user then
    if buffer = false then (⟨-1, 0, D⟩, fpos)
    else match D.copyout dst text with
      | (false, D) => (⟨-1, 0, D⟩, fpos)
      | (true, D) => (⟨0, text.length, D⟩, lastIntr intrcnt)
  else (⟨0, text.length, sprintfLines D dst (intrLines intrcnt)⟩, lastIntr intrcnt)

/-! ### Regular files -/

/-- The variables of the loop in `ext4_vfread`. -/
structure ReadLoop where
  efp : Ext4File
  dest : Dest
  rcnt : ℕ
  nread : ℕ

/-- One page of a large read; an error is a failed `copyout`. A buffer of the kernel takes each page
at its beginning, and the page is copied to the user all the same. -/
def readChunk (bytes : List UInt8) (user : Bool) (dst size : ℕ) (v : ReadLoop) (i : ℕ) :
    Except ReadLoop ReadLoop :=
  let (got, efp) := ext4Fread bytes v.efp (chunk size i)
  let D := if user then v.dest else v.dest.store false dst got
  let (copied, D) := D.copyout (dst + i) got
  if copied then .ok ⟨efp, D, got.length, v.nread + got.length⟩
  else .error ⟨efp, D, got.length, v.nread⟩

/-- `ext4_vfread`, with `*rcnt` zero before. It returns the new `fpos` and `ext4_file` as well. -/
def ext4Vfread (bytes : List UInt8) (fpos : ℕ) (efp : Ext4File) (D : Dest) (user buffer : Bool)
    (dst : ℕ) (off : ℤ) (size : ℕ) : OpRes × ℕ × Ext4File :=
  if off < 0 ∨ (efp.fsize : ℤ) < off then (⟨EOK, 0, D⟩, fpos, efp)
  else match ext4Fseek efp off with
    | none => (⟨EINVAL, 0, D⟩, fpos, efp)
    | some efp =>
      if user ∧ buffer = false then (⟨ENOMEM, 0, D⟩, fpos, efp)
      else if size ≤ PGSIZE then
        let (got, efp) := ext4Fread bytes efp size
        match D.eitherCopyout user dst got with
        | (true, D) => (⟨EOK, got.length, D⟩, efp.fpos, efp)
        | (false, D) => (⟨-1, got.length, D⟩, fpos, efp)
      else match (chunks size).foldlM (readChunk bytes user dst size) ⟨efp, D, 0, 0⟩ with
        | .error v => (⟨-1, v.rcnt, v.dest⟩, fpos, v.efp)
        | .ok v => (⟨EOK, v.nread, v.dest⟩, v.efp.fpos, v.efp)

/-! ### `fileread` -/

/-- A file that can be read. -/
inductive ReadFile
  /-- `FD_INODE`: a regular file with its position and its `ext4_file` -/
  | inode (bytes : List UInt8) (fpos : ℕ) (efp : Ext4File)
  /-- `FD_PIPE`: the ring when there is something in it or nobody can write to it, or none if the
  process is killed before -/
  | pipe (found : Option (ByteRing PIPESIZE))
  /-- `FD_DEVICE` with the major number `CONSOLE` -/
  | console (c : Cons) (waits : Waits)
  /-- `FD_DEVICE` with the major number `DEVNULL` -/
  | devnull
  /-- `FD_SPEC`: `/proc/interrupts`, with the counters and the position -/
  | interrupts (intrcnt : ℕ → ℕ) (fpos : ℕ)

/-- What `fileread` returns: the count, memory, and the file after it. -/
structure ReadOut where
  r : ℤ
  dest : Dest
  file : ReadFile

/-- `fileread`. `readable` is `IS_READABLE(f->flags)`, and `buffer` says whether there is a page for
the buffer of the kernel. The drivers of the devices are told that the address is of the user. -/
def fileread (readable : Bool) (f : ReadFile) (D : Dest) (user buffer : Bool) (addr n : ℕ)
    (off : ℤ) : Option ReadOut :=
  if readable = false then some ⟨-1, D, f⟩
  else match f with
    | .pipe none => some ⟨-1, D, f⟩
    | .pipe (some g) =>
      let (i, g, D) := pipereadLoop user addr n 0 g D
      some ⟨i, D, .pipe (some g)⟩
    | .console c waits =>
      (consoleread true addr n c waits D).map fun (r, c, D) => ⟨r, D, .console c []⟩
    | .devnull => some ⟨devnullread n, D, f⟩
    | .inode bytes fpos efp =>
      let (res, fpos, efp) := ext4Vfread bytes fpos efp D user buffer addr off n
      some ⟨res.rcnt, res.dest, .inode bytes fpos efp⟩
    | .interrupts intrcnt fpos =>
      let (res, fpos) := procInterruptsRead intrcnt fpos D user buffer addr
      some ⟨res.rcnt, res.dest, .interrupts intrcnt fpos⟩

/-! ### Lemmas on memory -/

section

variable {D : Dest} {user : Bool} {addr dst k n : ℕ} {d e e' : List UInt8}

@[simp]
theorem overlay_nil (w : ℕ → Option UInt8) (addr : ℕ) : overlay w addr [] = w := by
  funext a
  rw [overlay, if_neg (by simp only [List.length_nil]; omega)]

theorem overlay_overlay (w : ℕ → Option UInt8) (h : e.length ≤ e'.length) :
    overlay (overlay w addr (d ++ e)) (addr + d.length) e' = overlay w addr (d ++ e') := by
  funext a
  simp only [overlay, List.length_append]
  by_cases hlow : addr ≤ a
  · by_cases hmid : a < addr + d.length
    · rw [if_neg (by omega), if_pos (by omega), if_pos (by omega),
        List.getElem?_append_left (by omega), List.getElem?_append_left (by omega)]
    by_cases hhigh : a < addr + d.length + e'.length
    · rw [if_pos (by omega), if_pos (by omega), List.getElem?_append_right (by omega)]
      congr 1
      omega
    · rw [if_neg (by omega), if_neg (by omega), if_neg (by omega)]
  · rw [if_neg (by omega), if_neg (by omega), if_neg (by omega)]

namespace Dest

@[simp]
theorem store_nil : D.store user addr [] = D := by
  cases user <;> simp [store]

theorem store_store (h : e.length ≤ e'.length) :
    (D.store user addr (d ++ e)).store user (addr + d.length) e' = D.store user addr (d ++ e') := by
  cases user <;> simp only [store, overlay_overlay _ h]

theorem store_append : D.store user addr (d ++ e) =
    (D.store user addr d).store user (addr + d.length) e := by
  have h : (D.store user addr (d ++ [])).store user (addr + d.length) e =
      D.store user addr (d ++ e) := store_store (Nat.zero_le _)
  rw [← h, List.append_nil]

@[simp]
theorem here_store (a : ℕ) : (D.store user addr d).here a = D.here a := by
  cases user <;> rfl

@[simp]
theorem room_store : (D.store user addr d).room dst n = D.room dst n := by
  simp [room]

theorem room_succ : D.room dst (n + 1) =
    if D.room dst n = n then (if D.here (dst + n) then n + 1 else n) else D.room dst n := by
  have hrange : D.room dst (n + 1) = (if D.room dst n = n then
      List.range n ++ [n].takeWhile fun i => D.here (dst + i)
      else (List.range n).takeWhile fun i => D.here (dst + i)).length := by
    conv_lhs => rw [room, List.range_succ, List.takeWhile_append, List.length_range]
    rfl
  rw [hrange]
  split
  · cases hh : D.here (dst + n) <;> simp [hh]
  · rfl

theorem room_spec (dst n : ℕ) : D.room dst n ≤ n ∧
    (∀ i < D.room dst n, D.here (dst + i) = true) ∧
    (D.room dst n < n → D.here (dst + D.room dst n) = false) := by
  induction n with
  | zero => simp [room]
  | succ n ih =>
    obtain ⟨hle, hall, hstop⟩ := ih
    rw [room_succ]
    by_cases hfull : D.room dst n = n
    · rw [hfull] at hall
      cases hh : D.here (dst + n) with
      | true =>
        simp only [hfull, if_true]
        refine ⟨Nat.le_refl _, fun i hi => ?_, by omega⟩
        obtain hi | rfl : i < n ∨ i = n := by omega
        · exact hall i hi
        · exact hh
      | false =>
        simp only [hfull, if_true, Bool.false_eq_true, if_false]
        exact ⟨Nat.le_succ n, hall, fun _ => hh⟩
    · simp only [hfull, if_false]
      exact ⟨by omega, hall, fun _ => hstop (by omega)⟩

/-- **How far `copyout` gets.** -/
theorem room_eq_iff : D.room dst n = k ↔
    k ≤ n ∧ (∀ i < k, D.here (dst + i) = true) ∧ (k < n → D.here (dst + k) = false) := by
  constructor
  · rintro rfl
    exact room_spec dst n
  · rintro ⟨hle, hall, hstop⟩
    obtain ⟨hle', hall', hstop'⟩ := room_spec (D := D) dst n
    rcases Nat.lt_trichotomy (D.room dst n) k with hlt | heq | hlt
    · have hno := hstop' (by omega)
      rw [hall _ hlt] at hno
      cases hno
    · exact heq
    · have hno := hstop (by omega)
      rw [hall' _ hlt] at hno
      cases hno

theorem room_add {m : ℕ} (hm : m ≤ D.room dst n) (hk : m + k ≤ n) :
    D.room (dst + m) k = min k (D.room dst n - m) := by
  obtain ⟨hle, hall, hstop⟩ := room_spec (D := D) dst n
  refine room_eq_iff.2 ⟨Nat.min_le_left _ _, fun i hi => ?_, fun hlt => ?_⟩
  · rw [Nat.add_assoc]
    exact hall _ (by omega)
  · have hmin : min k (D.room dst n - m) = D.room dst n - m := by omega
    rw [hmin, Nat.add_assoc, Nat.add_sub_cancel' hm]
    exact hstop (by omega)

theorem copyout_eq : D.copyout dst d = (decide (D.room dst d.length = d.length),
    D.store true dst (d.take (D.room dst d.length))) := rfl

@[simp]
theorem copyout_nil : D.copyout dst [] = (true, D) := by
  rw [copyout_eq, List.take_nil, store_nil]
  rfl

/-- **A copy in parts**: the part of `data` behind the first `a` bytes, which have been copied. -/
theorem copyout_part {data : List UInt8} {a b : ℕ} (h : min a data.length ≤ D.room dst data.length) :
    (D.store true dst (data.take a)).copyout (dst + a) ((data.drop a).take b) =
      (decide (min (a + b) data.length ≤ D.room dst data.length),
        D.store true dst (data.take (min (D.room dst data.length) (a + b)))) := by
  have hle : D.room dst data.length ≤ data.length := (room_spec dst data.length).1
  have hlen : ((data.drop a).take b).length = min b (data.length - a) := by simp
  rcases Nat.lt_or_ge a data.length with hmore | hend
  · have hroom : D.room (dst + a) (min b (data.length - a)) =
        min (min b (data.length - a)) (D.room dst data.length - a) :=
      room_add (by omega) (by omega)
    have hpart : (data.take a).length = a := by
      rw [List.length_take]
      omega
    rw [copyout_eq, room_store, hlen, hroom, Prod.mk.injEq]
    refine ⟨decide_eq_decide.2 (by omega), ?_⟩
    have hjoin : data.take (min (D.room dst data.length) (a + b)) = data.take a ++
        ((data.drop a).take b).take (min (min b (data.length - a)) (D.room dst data.length - a)) := by
      rw [List.take_take, ← List.take_add]
      congr 1
      omega
    rw [hjoin, store_append, hpart]
  · have hnil : data.drop a = [] := List.drop_eq_nil_of_le hend
    have hdone : min (a + b) data.length ≤ D.room dst data.length := by omega
    rw [hnil, List.take_nil, copyout_nil, List.take_of_length_le hend,
      List.take_of_length_le (i := min _ _) (by omega), decide_eq_true hdone]

theorem eitherCopyout_one (a : ℕ) (b : UInt8) : D.eitherCopyout user a [b] =
    if user = false ∨ D.here a = true then (true, D.store user a [b]) else (false, D) := by
  obtain _ | _ := user
  · simp [eitherCopyout]
  cases hh : D.here a with
  | true =>
    have hroom : D.room a 1 = 1 := room_eq_iff.2 ⟨Nat.le_refl _, by simpa using hh, by simp⟩
    simp [eitherCopyout, copyout_eq, hroom]
  | false =>
    have hroom : D.room a 1 = 0 := room_eq_iff.2 ⟨by simp, by simp, by simpa using hh⟩
    simp [eitherCopyout, copyout_eq, hroom]

end Dest

end

/-! ### Lemmas on rings -/

namespace ByteRing

variable {size : ℕ} {g : ByteRing size}

theorem contents_eq_nil : g.contents = [] ↔ g.r = g.w := by
  rw [contents, List.map_eq_nil_iff, List.range_eq_nil]
  constructor
  · intro h
    bv_omega
  · intro h
    simp [h]

/-- **The bytes of a ring**: the next one, and those without it. -/
theorem contents_cons (h : g.r ≠ g.w) : g.contents = g.head :: g.tail.contents := by
  obtain ⟨k, hk⟩ : ∃ k, (g.w - g.r).toNat = k + 1 :=
    Nat.exists_eq_succ_of_ne_zero (fun hzero => h (by bv_omega))
  have hk' : (g.w - (g.r + 1)).toNat = k := by bv_omega
  have htail : g.tail.contents = (List.range k).map fun j =>
      g.buf ((g.r + 1 + BitVec.ofNat 32 j).toNat % size) := by
    rw [contents, tail, hk']
  rw [contents, hk, htail, List.range_succ_eq_map, List.map_cons, List.map_map]
  congr 1
  · simp [head]
  refine List.map_congr_left fun j _ => ?_
  have hadd : g.r + BitVec.ofNat 32 (j + 1) = g.r + 1 + BitVec.ofNat 32 j := by
    bv_omega
  simp only [Function.comp_apply, Nat.succ_eq_add_one, hadd]

end ByteRing

end XVapor.Read
