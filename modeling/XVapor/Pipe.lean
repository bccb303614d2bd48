import XVapor.Monitor
import XVapor.SharedRing

/-!
# Pipes

`kernel/ipc/pipe.c` keeps 512 bytes in a ring with two wrapping 32-bit counters, behind one
spinlock. A writer that finds the ring full wakes the readers and sleeps on `&pi->nwrite`; a
reader that finds it empty sleeps on `&pi->nread`; each side wakes the other when it is done,
and `pipeclose` wakes the side that stays. `pipewrite`, `piperead` and `pipeclose` are the code
of a monitor, one step for each round of a loop.

What the source does not fix is the choice of a step: whether `proc_killed` says yes, the byte
that `either_copyin` finds in the user's memory, if any, and whether `either_copyout` works.

The pipe carries two logs that are not in the source: every byte that was stored into the ring
and every byte that was taken out of it, each with the thread, its call and the index in that
call.

## Main results

* `pipe_fifo`: a pipe is a bounded queue.
* `pipe_sleepers`: nobody sleeps without a reason and no byte is lost, if no writer is killed
  between its bytes and its wakeup, and no copy of a reader fails.
-/

namespace XVapor

open scoped Sample

/-! ### The source -/

/-- `PIPESIZE`. -/
def PIPESIZE : ℕ := 512

/-- One byte that a call moved. -/
structure PipeByte (T : Type) where
  thread : T
  call : ℕ
  index : ℕ
  byte : UInt8

/-- `struct pipe`, whether `pipeclose` has freed it, and the logs. -/
structure Pipe (T : Type) where
  data : ℕ → UInt8
  nread : ℕ
  nwrite : ℕ
  readopen : Bool
  writeopen : Bool
  freed : Bool
  appended : List (PipeByte T)
  taken : List (PipeByte T)

/-- The channels `&pi->nread` and `&pi->nwrite`. -/
inductive PipeChan
  | nread
  | nwrite
  deriving DecidableEq, Repr

/-- The calls. -/
inductive PipeCall
  | write (n : ℤ)
  | read (n : ℤ)
  | close (writable : Bool)
  deriving DecidableEq, Repr

/-- What a call returned, and whether it hit an address it could not copy from or to. -/
structure PipeReturn where
  call : PipeCall
  result : ℤ
  hit : Bool
  deriving DecidableEq, Repr

/-- Outside: how many calls the thread has made, and how the last one returned. -/
structure PipeUser where
  calls : ℕ
  last : Option PipeReturn
  deriving DecidableEq, Repr

/-- Where a thread is. `write` and `copy` are at the head of their loops with the index `i`, `read`
is at the head of the loop that waits; `full` follows the wakeup in the full ring, `wrote`,
`copied` and `closed` follow the last wakeup. `k` is the number of the call. `stored` says that
the writer has stored a byte since it last woke the readers, `hit` that a copy failed. -/
inductive PipePc
  | write (n : ℤ) (i k : ℕ) (stored : Bool)
  | full (n : ℤ) (i k : ℕ)
  | wrote (n : ℤ) (i k : ℕ) (hit : Bool)
  | read (n : ℤ) (k : ℕ)
  | copy (n : ℤ) (i k : ℕ)
  | copied (n : ℤ) (i k : ℕ) (hit : Bool)
  | close (writable : Bool) (k : ℕ)
  | closed (writable : Bool) (k : ℕ)
  deriving DecidableEq, Repr

/-- The choices of a step: `proc_killed`, the byte of `either_copyin`, and whether `either_copyout`
succeeds. -/
structure PipeEnv where
  killed : Bool
  src : Option UInt8
  dst : Bool
  deriving DecidableEq, Repr

variable {T : Type}

namespace Pipe

/-- `pipealloc`. The page of the pipe is not cleared. -/
def initial (g : Pipe T) : Prop :=
  g.nread = 0 ∧ g.nwrite = 0 ∧ g.readopen = true ∧ g.writeopen = true ∧ g.freed = false ∧
    g.appended = [] ∧ g.taken = []

/-- `pi->data[pi->nwrite++ % PIPESIZE] = ch`. -/
def store (g : Pipe T) (b : PipeByte T) : Pipe T :=
  { g with
    data := Function.update g.data (g.nwrite % PIPESIZE) b.byte
    nwrite := (g.nwrite + 1) % 2 ^ 32
    appended := g.appended ++ [b] }

/-- `ch = pi->data[pi->nread++ % PIPESIZE]`. -/
def take (g : Pipe T) (t : T) (k i : ℕ) : Pipe T :=
  { g with
    nread := (g.nread + 1) % 2 ^ 32
    taken := g.taken ++ [⟨t, k, i, g.data (g.nread % PIPESIZE)⟩] }

/-- The ring is empty. -/
def empty (g : Pipe T) : Bool := g.nread == g.nwrite

/-- The ring is full. -/
def isFull (g : Pipe T) : Bool := g.nwrite == (g.nread + PIPESIZE) % 2 ^ 32

/-- The bytes in the ring, the oldest first. -/
def contents (g : Pipe T) : List UInt8 :=
  (List.range ((g.nwrite + 2 ^ 32 - g.nread) % 2 ^ 32)).map fun j =>
    g.data ((g.nread + j) % PIPESIZE)

end Pipe

/-- One round of `pipewrite`'s loop, and its end. -/
def pipewrite (t : T) (g : Pipe T) (n : ℤ) (i k : ℕ) (e : PipeEnv) :
    Pipe T × Next PipeChan PipePc PipeUser :=
  if i < n then
    if g.readopen = false ∨ e.killed then (g, .leave ⟨k + 1, some ⟨.write n, -1, false⟩⟩)
    else if g.isFull then (g, .wake .nread (.full n i k))
    else match e.src with
      | none => (g, .wake .nread (.wrote n i k true))
      | some ch => (g.store ⟨t, k, i, ch⟩, .go (.write n (i + 1) k true))
  else (g, .wake .nread (.wrote n i k false))

/-- One round of `piperead`'s waiting loop. -/
def pipereadWait (g : Pipe T) (n : ℤ) (k : ℕ) (e : PipeEnv) :
    Pipe T × Next PipeChan PipePc PipeUser :=
  if g.empty ∧ g.writeopen then
    if e.killed then (g, .leave ⟨k + 1, some ⟨.read n, -1, false⟩⟩)
    else (g, .sleep .nread (.read n k))
  else (g, .go (.copy n 0 k))

/-- One round of `piperead`'s copying loop, and its end. -/
def pipereadCopy (t : T) (g : Pipe T) (n : ℤ) (i k : ℕ) (e : PipeEnv) :
    Pipe T × Next PipeChan PipePc PipeUser :=
  if i < n then
    if g.empty then (g, .wake .nwrite (.copied n i k false))
    else if e.dst then (g.take t k i, .go (.copy n (i + 1) k))
    else (g.take t k i, .wake .nwrite (.copied n i k true))
  else (g, .wake .nwrite (.copied n i k false))

/-- `pipeclose` up to its wakeup. -/
def pipeclose (g : Pipe T) (writable : Bool) (k : ℕ) :
    Pipe T × Next PipeChan PipePc PipeUser :=
  if writable then ({ g with writeopen := false }, .wake .nread (.closed writable k))
  else ({ g with readopen := false }, .wake .nwrite (.closed writable k))

/-- **The code of a pipe.** Nothing runs on a pipe that has been freed. -/
def pipe (pool : Pool T) :
    Monitor T PipeChan (Pipe T) PipePc PipeUser PipeCall PipeEnv where
  pool := pool
  initial := Pipe.initial
  idle := ⟨0, none⟩
  start
    | _, o, .write n => some (.write n 0 o.calls false)
    | _, o, .read n => some (.read n o.calls)
    | _, o, .close w => some (.close w o.calls)
  code t g l e :=
    if g.freed then none
    else match l with
      | .write n i k _ => some (pipewrite t g n i k e)
      | .full n i k => some (g, .sleep .nwrite (.write n i k false))
      | .wrote n i k hit => some (g, .leave ⟨k + 1, some ⟨.write n, i, hit⟩⟩)
      | .read n k => some (pipereadWait g n k e)
      | .copy n i k => some (pipereadCopy t g n i k e)
      | .copied n i k hit => some (g, .leave ⟨k + 1, some ⟨.read n, i, hit⟩⟩)
      | .close w k => some (pipeclose g w k)
      | .closed w k =>
        some ({ g with freed := !g.readopen && !g.writeopen },
          .leave ⟨k + 1, some ⟨.close w, 0, false⟩⟩)

/-- **The steps of the code**, one constructor for each. -/
inductive PipeStep (t : T) (g : Pipe T) (e : PipeEnv) :
    PipePc → Pipe T → Next PipeChan PipePc PipeUser → Prop
  | writeEnd {n : ℤ} {i k : ℕ} {st} (hi : ¬ (i : ℤ) < n) :
      PipeStep t g e (.write n i k st) g (.wake .nread (.wrote n i k false))
  | writeFail {n : ℤ} {i k : ℕ} {st} (hi : (i : ℤ) < n) (hf : g.readopen = false ∨ e.killed = true) :
      PipeStep t g e (.write n i k st) g (.leave ⟨k + 1, some ⟨.write n, -1, false⟩⟩)
  | writeFull {n : ℤ} {i k : ℕ} {st} (hr : g.readopen = true) (hf : g.isFull = true) :
      PipeStep t g e (.write n i k st) g (.wake .nread (.full n i k))
  | writeFault {n : ℤ} {i k : ℕ} {st} (hs : e.src = none) :
      PipeStep t g e (.write n i k st) g (.wake .nread (.wrote n i k true))
  | writeStore {n : ℤ} {i k : ℕ} {st ch} (hi : (i : ℤ) < n) (hr : g.readopen = true)
      (hf : g.isFull = false) (hs : e.src = some ch) :
      PipeStep t g e (.write n i k st) (g.store ⟨t, k, i, ch⟩) (.go (.write n (i + 1) k true))
  | full {n i k} : PipeStep t g e (.full n i k) g (.sleep .nwrite (.write n i k false))
  | wrote {n i k hit} :
      PipeStep t g e (.wrote n i k hit) g (.leave ⟨k + 1, some ⟨.write n, i, hit⟩⟩)
  | readKilled {n k} (hk : e.killed = true) :
      PipeStep t g e (.read n k) g (.leave ⟨k + 1, some ⟨.read n, -1, false⟩⟩)
  | readSleep {n k} (hem : g.empty = true) (hw : g.writeopen = true) :
      PipeStep t g e (.read n k) g (.sleep .nread (.read n k))
  | readGo {n k} (hg : g.empty = true → g.writeopen = false) :
      PipeStep t g e (.read n k) g (.go (.copy n 0 k))
  | copyEnd {n : ℤ} {i k : ℕ} (hi : (i : ℤ) < n → g.empty = true) :
      PipeStep t g e (.copy n i k) g (.wake .nwrite (.copied n i k false))
  | copyByte {n : ℤ} {i k : ℕ} (hi : (i : ℤ) < n) (hem : g.empty = false) (hd : e.dst = true) :
      PipeStep t g e (.copy n i k) (g.take t k i) (.go (.copy n (i + 1) k))
  | copyFault {n : ℤ} {i k : ℕ} (hi : (i : ℤ) < n) (hem : g.empty = false) (hd : e.dst = false) :
      PipeStep t g e (.copy n i k) (g.take t k i) (.wake .nwrite (.copied n i k true))
  | copied {n i k hit} :
      PipeStep t g e (.copied n i k hit) g (.leave ⟨k + 1, some ⟨.read n, i, hit⟩⟩)
  | closeWrite {k} :
      PipeStep t g e (.close true k) { g with writeopen := false }
        (.wake .nread (.closed true k))
  | closeRead {k} :
      PipeStep t g e (.close false k) { g with readopen := false }
        (.wake .nwrite (.closed false k))
  | closed {w k} :
      PipeStep t g e (.closed w k) { g with freed := !g.readopen && !g.writeopen }
        (.leave ⟨k + 1, some ⟨.close w, 0, false⟩⟩)

theorem pipe_code {pool : Pool T} {t : T} {g g' : Pipe T} {l : PipePc} {e : PipeEnv}
    {a : Next PipeChan PipePc PipeUser} (h : (pipe pool).code t g l e = some (g', a)) :
    PipeStep t g e l g' a := by
  simp only [pipe] at h
  split at h
  · cases h
  cases l with
  | write n i k st =>
    replace h := Option.some.inj h
    unfold pipewrite at h
    split at h
    · split at h
      · cases h
        exact .writeFail ‹_› (by simpa using ‹_ ∨ _›)
      rename_i hi hno
      obtain ⟨hr, -⟩ : g.readopen = true ∧ e.killed = false := by simpa using hno
      split at h
      · cases h
        exact .writeFull hr ‹_›
      rename_i hf
      split at h
      · cases h
        exact .writeFault ‹_›
      · cases h
        exact .writeStore hi hr (by simpa using hf) ‹_›
    · cases h
      exact .writeEnd ‹_›
  | full n i k =>
    cases h
    exact .full
  | wrote n i k hit =>
    cases h
    exact .wrote
  | read n k =>
    replace h := Option.some.inj h
    unfold pipereadWait at h
    split at h
    · split at h
      · cases h
        exact .readKilled ‹_›
      · cases h
        rename_i hw _
        exact .readSleep hw.1 hw.2
    · rename_i hg
      cases h
      exact .readGo (by simpa using hg)
  | copy n i k =>
    replace h := Option.some.inj h
    unfold pipereadCopy at h
    split at h
    · split at h
      · cases h
        exact .copyEnd fun _ => ‹_›
      rename_i hi hem
      split at h
      · cases h
        exact .copyByte hi (by simpa using hem) ‹_›
      · cases h
        exact .copyFault hi (by simpa using hem) (by simpa using ‹¬ e.dst = true›)
    · cases h
      exact .copyEnd fun hi => absurd hi ‹_›
  | copied n i k hit =>
    cases h
    exact .copied
  | close w k =>
    cases w with
    | true =>
      cases h
      exact .closeWrite
    | false =>
      cases h
      exact .closeRead
  | closed w k =>
    cases h
    exact .closed

/-! ### Logs -/

/-- The indices that a call of a thread has logged. -/
def indices [DecidableEq T] (t : T) (k : ℕ) (log : List (PipeByte T)) : List ℕ :=
  (log.filter fun b => b.thread = t ∧ b.call = k).map PipeByte.index

/-- **Each thread's bytes are in its own order**: its calls follow each other, and the bytes of a
call are those at the indices 0, 1, 2, … -/
structure Serial [DecidableEq T] (log : List (PipeByte T)) : Prop where
  calls : ∀ t, ((log.filter fun b => b.thread = t).map PipeByte.call).Pairwise (· ≤ ·)
  indices : ∀ t k, ∃ m, indices t k log = List.range m

/-- The thread has logged bytes up to its call `k`, and `i` bytes in that call. -/
structure UpTo [DecidableEq T] (t : T) (k i : ℕ) (log : List (PipeByte T)) : Prop where
  le : ∀ b ∈ log, b.thread = t → b.call ≤ k
  indices : indices t k log = List.range i

section

variable [DecidableEq T] {t : T} {k i : ℕ} {log : List (PipeByte T)} {b : PipeByte T}

theorem indices_snoc (t : T) (k : ℕ) (log : List (PipeByte T)) (b : PipeByte T) :
    indices t k (log ++ [b]) =
      indices t k log ++ if b.thread = t ∧ b.call = k then [b.index] else [] := by
  by_cases hb : b.thread = t ∧ b.call = k <;> simp [indices, hb]

theorem UpTo.nil (t : T) (k : ℕ) : UpTo t k 0 [] :=
  ⟨by simp, rfl⟩

theorem UpTo.snoc (h : UpTo t k i log) (ht : b.thread = t) (hk : b.call = k)
    (hi : b.index = i) : UpTo t k (i + 1) (log ++ [b]) := by
  refine ⟨fun c hc hct => ?_, ?_⟩
  · obtain hc | rfl := by simpa using hc
    · exact h.le c hc hct
    · exact hk.le
  · rw [indices_snoc, h.indices, if_pos ⟨ht, hk⟩, hi, List.range_succ]

theorem UpTo.other (h : UpTo t k i log) (hb : b.thread ≠ t) : UpTo t k i (log ++ [b]) := by
  refine ⟨fun c hc hct => ?_, ?_⟩
  · obtain hc | rfl := by simpa using hc
    · exact h.le c hc hct
    · exact absurd hct hb
  · rw [indices_snoc, h.indices, if_neg fun hc => hb hc.1, List.append_nil]

theorem UpTo.next (h : UpTo t k i log) : UpTo t (k + 1) 0 log := by
  refine ⟨fun b hb ht => (h.le b hb ht).trans k.le_succ, ?_⟩
  simp only [XVapor.indices, List.range_zero, List.map_eq_nil_iff, List.filter_eq_nil_iff,
    decide_eq_true_eq]
  rintro b hb ⟨ht, hk⟩
  have hle := h.le b hb ht
  omega

theorem Serial.snoc (h : Serial log) (hu : UpTo b.thread b.call b.index log) :
    Serial (log ++ [b]) := by
  refine ⟨fun t => ?_, fun t k => ?_⟩
  · obtain rfl | hb := eq_or_ne b.thread t
    · simp only [List.filter_append, List.map_append]
      refine List.pairwise_append.2 ⟨h.calls _, by simp, fun c hc d hd => ?_⟩
      obtain ⟨x, hx, rfl⟩ := List.mem_map.1 hc
      obtain ⟨hx, hxt⟩ := List.mem_filter.1 hx
      obtain rfl : d = b.call := by simpa using hd
      exact hu.le x hx (by simpa using hxt)
    · simpa [List.filter_cons, hb] using h.calls t
  · rw [indices_snoc]
    by_cases hb : b.thread = t ∧ b.call = k
    · obtain ⟨rfl, rfl⟩ := hb
      exact ⟨b.index + 1, by rw [hu.indices, if_pos ⟨rfl, rfl⟩, List.range_succ]⟩
    · rw [if_neg hb, List.append_nil]
      exact h.indices t k

end

/-! ### The ring -/

namespace Pipe

variable {g : Pipe T} {l : List UInt8}

theorem contents_of_ringHolds (h : RingHolds PIPESIZE (2 ^ 32) g.data g.nread g.nwrite l) :
    g.contents = l := by
  have hlen := h.length_eq (by decide)
  refine List.ext_getElem? fun j => ?_
  by_cases hj : j < l.length
  · rw [h.entry j hj, contents, ← hlen]
    simp [hj]
  · rw [List.getElem?_eq_none (not_lt.1 hj), List.getElem?_eq_none]
    rw [contents, List.length_map, List.length_range, ← hlen]
    exact not_lt.1 hj

/-- **The ring is a queue**: what was stored is what was taken, and then what is in the ring. -/
structure Queue [DecidableEq T] (g : Pipe T) : Prop where
  ring : RingHolds PIPESIZE (2 ^ 32) g.data g.nread g.nwrite g.contents
  fifo : g.appended.map PipeByte.byte = g.taken.map PipeByte.byte ++ g.contents
  appended : Serial g.appended
  taken : Serial g.taken

theorem Queue.of_holds [DecidableEq T]
    (hr : RingHolds PIPESIZE (2 ^ 32) g.data g.nread g.nwrite l)
    (hf : g.appended.map PipeByte.byte = g.taken.map PipeByte.byte ++ l)
    (ha : Serial g.appended) (ht : Serial g.taken) : g.Queue := by
  obtain rfl := contents_of_ringHolds hr
  exact ⟨hr, hf, ha, ht⟩

variable [DecidableEq T] {b : PipeByte T} {t : T} {k i : ℕ}

section

variable (h : g.Queue)
include h

theorem Queue.empty_iff : g.empty = true ↔ g.contents = [] := by
  rw [empty, beq_iff_eq]
  exact h.ring.eq_nil_iff (by decide)

/-- The ring is full if and only if it holds `PIPESIZE` bytes. -/
theorem Queue.isFull_iff : g.isFull = true ↔ g.contents.length = PIPESIZE := by
  have hp := h.ring.produced
  have hfits := h.ring.fits
  have hlt := h.ring.lt
  rw [isFull, beq_iff_eq]
  simp only [PIPESIZE] at *
  omega

/-- **Storing a byte** puts it behind the others. -/
theorem Queue.store (hf : g.isFull = false)
    (hu : UpTo b.thread b.call b.index g.appended) : (g.store b).Queue := by
  have hlen : g.contents.length < PIPESIZE := by
    refine lt_of_le_of_ne h.ring.fits fun heq => ?_
    rw [h.isFull_iff.2 heq] at hf
    cases hf
  have hdvd : PIPESIZE ∣ 2 ^ 32 := by decide
  refine .of_holds (l := g.contents ++ [b.byte]) ?_ ?_ (h.appended.snoc hu) h.taken
  · exact (h.ring.write hdvd hlen b.byte).produce hdvd hlen (by simp)
  · simp only [Pipe.store, List.map_append, h.fifo, List.map_cons, List.map_nil,
      List.append_assoc]

/-- **Taking a byte** takes the oldest. -/
theorem Queue.take (hem : g.empty = false) (hu : UpTo t k i g.taken) :
    (g.take t k i).Queue := by
  obtain ⟨x, l, hl⟩ : ∃ x l, g.contents = x :: l := by
    refine List.exists_cons_of_ne_nil fun hnil => ?_
    rw [h.empty_iff.2 hnil] at hem
    cases hem
  have hring := h.ring
  rw [hl] at hring
  refine .of_holds (l := l) (hring.consume (by decide)) ?_ h.appended (h.taken.snoc hu)
  simp only [Pipe.take, h.fifo, hl, List.map_append, List.map_cons, List.map_nil,
    List.append_assoc, List.singleton_append, hring.head]

end

end Pipe

/-! ### The outline -/

namespace PipePc

/-- The number of the call. -/
def call : PipePc → ℕ
  | write _ _ k _ | full _ _ k | wrote _ _ k _ | read _ k | copy _ _ k | copied _ _ k _
  | close _ k | closed _ k => k

/-- The bytes the call has stored. -/
def put : PipePc → ℕ
  | write _ i _ _ | full _ i _ | wrote _ i _ _ => i
  | _ => 0

/-- The bytes the call has taken. **A failed copy costs one more than the index says.** -/
def got : PipePc → ℕ
  | copy _ i _ => i
  | copied _ i _ hit => if hit then i + 1 else i
  | _ => 0

/-- A place at which a thread takes the lock: the begin of a call, or the return from a sleep. -/
def entry : PipePc → Bool
  | write _ _ _ stored => !stored
  | read _ _ | close _ _ => true
  | _ => false

/-- What a thread that holds the lock knows at this place. -/
def knows (g : Pipe T) : PipePc → Prop
  | write _ _ _ stored => stored = true → g.readopen = true
  | full _ _ _ => g.isFull = true ∧ g.readopen = true
  | copy _ i _ => i = 0 → g.empty = true → g.writeopen = false
  | copied n i _ hit =>
    hit = false → i = 0 → 0 < n → g.empty = true ∧ g.writeopen = false
  | _ => True

theorem knows_of_entry {g : Pipe T} {l : PipePc} (h : l.entry = true) : l.knows g := by
  cases l <;> simp_all [entry, knows]

end PipePc

section

variable [DecidableEq T]

/-- The logs know how far a call is. -/
structure Logged (t : T) (g : Pipe T) (k put got : ℕ) : Prop where
  appended : UpTo t k put g.appended
  taken : UpTo t k got g.taken

/-- The ring is a queue, and each call has stored and taken what its place says. -/
def pipeOutline : Outline T (Pipe T) PipePc PipeUser where
  shared g := g.Queue
  outside t g o := Logged t g o.calls 0 0
  waiting t g l := l.entry = true ∧ Logged t g l.call l.put l.got
  inside t g l := l.knows g ∧ Logged t g l.call l.put l.got

variable {pool : Pool T} {t u : T} {g g' : Pipe T} {e : PipeEnv} {l : PipePc}
  {a : Next PipeChan PipePc PipeUser} {k i j : ℕ}

theorem Logged.next (h : Logged t g k i j) : Logged t g (k + 1) 0 0 :=
  ⟨h.appended.next, h.taken.next⟩

theorem Logged.other (h : Logged u g k i j) (hs : PipeStep t g e l g' a) (hu : u ≠ t) :
    Logged u g' k i j := by
  cases hs with
  | writeStore => exact ⟨h.appended.other hu.symm, h.taken⟩
  | copyByte | copyFault => exact ⟨h.appended, h.taken.other hu.symm⟩
  | _ => exact ⟨h.appended, h.taken⟩

/-- **The queue is kept by every step.** -/
theorem PipeStep.queue (hs : PipeStep t g e l g' a) (hq : g.Queue)
    (hl : Logged t g l.call l.put l.got) : g'.Queue := by
  cases hs with
  | writeStore hi hr hf hs => exact hq.store hf hl.appended
  | copyByte hi hem hd | copyFault hi hem hd => exact hq.take hem hl.taken
  | closeWrite | closeRead | closed => exact ⟨hq.ring, hq.fifo, hq.appended, hq.taken⟩
  | _ => exact hq

theorem PipeStep.after (hs : PipeStep t g e l g' a) (hin : pipeOutline.inside t g l) :
    pipeOutline.after t g' a := by
  obtain ⟨hk, hl⟩ := hin
  cases hs with
  | writeEnd | writeFault => exact ⟨trivial, hl⟩
  | writeFail | wrote | readKilled | copied => exact hl.next
  | writeFull hr hf => exact ⟨⟨hf, hr⟩, hl⟩
  | writeStore hi hr => exact ⟨fun _ => hr, hl.appended.snoc rfl rfl rfl, hl.taken⟩
  | full | readSleep => exact ⟨rfl, hl⟩
  | readGo hg => exact ⟨fun _ => hg, hl⟩
  | copyEnd hi =>
    refine ⟨fun _ h0 hn => ?_, hl⟩
    have hem := hi (by simpa [h0] using hn)
    exact ⟨hem, hk h0 hem⟩
  | copyByte =>
    exact ⟨fun h0 => absurd h0 (Nat.succ_ne_zero _), hl.appended, hl.taken.snoc rfl rfl rfl⟩
  | copyFault => exact ⟨fun h => absurd h (by decide), hl.appended, hl.taken.snoc rfl rfl rfl⟩
  | closeWrite | closeRead => exact ⟨trivial, hl.appended, hl.taken⟩
  | closed => exact ⟨hl.next.appended, hl.next.taken⟩

theorem pipeOutline_valid : pipeOutline.Valid (pipe pool) fun _ _ _ _ => True where
  init := by
    rintro g ⟨hr, hw, -, -, -, ha, ht⟩
    have hnil : Serial ([] : List (PipeByte T)) := ⟨by simp, fun _ _ => ⟨0, rfl⟩⟩
    refine ⟨.of_holds (l := []) ?_ (by simp [ha, ht]) (ha ▸ hnil) (ht ▸ hnil), fun t => ?_⟩
    · rw [hr, hw]
      exact .nil (by decide)
    · exact ⟨ha ▸ .nil t 0, ht ▸ .nil t 0⟩
  start := by
    rintro t g o c l - hout hl
    cases c with
    | write n | read n | close w =>
      cases hl
      exact ⟨rfl, hout⟩
  enter _ h := ⟨PipePc.knows_of_entry h.1, h.2⟩
  own hq hin _ hc := ⟨(pipe_code hc).queue hq hin.2, (pipe_code hc).after hin⟩
  frame _ _ _ hc hu :=
    ⟨fun _ h => ⟨h.1, h.2.other (pipe_code hc) hu⟩, fun _ h => h.other (pipe_code hc) hu⟩

/-! ### Wakeups -/

/-- What a thread that sleeps on a channel waits for the end of: the ring is empty and somebody
may still write, or it is full and somebody may still read. -/
def pipeBlocked : PipeChan → Pipe T → Prop
  | .nread, g => g.empty = true ∧ g.writeopen = true
  | .nwrite, g => g.isFull = true ∧ g.readopen = true

/-- A writer that has stored a byte will wake the readers, a reader that has taken one the
writers. -/
def pipeOwes : PipePc → PipeChan → Prop
  | .write _ _ _ stored, .nread => stored = true
  | .copy _ i _, .nwrite => 0 < i
  | _, _ => False

/-- **No writer sees that it is killed** after it has stored a byte that it did not announce yet. -/
def unkilled (_ : T) (_ : Pipe T) (l : PipePc) (e : PipeEnv) : Prop :=
  match l with
  | .write n i _ stored => stored = true → (i : ℤ) < n → e.killed = false
  | _ => True

/-- **Each side wakes the other**, if no writer is killed between its bytes and its wakeup. -/
theorem pipe_wakes : Wakes (pipe pool) pipeOutline unkilled pipeBlocked pipeOwes where
  keep := by
    rintro t g l e g' a c hq ⟨hk, -⟩ hgood hc hdue
    cases pipe_code hc with
    | writeEnd | writeFault =>
      -- the wakeup settles the one channel, and the other is owed nothing
      cases c with
      | nread => exact .inl rfl
      | nwrite => exact .inr (.inl (hdue.resolve_right id))
    | writeFull | closeWrite =>
      cases c with
      | nread => exact .inl rfl
      | nwrite => exact .inr (.inl (hdue.resolve_right id))
    | writeFail hi hf =>
      refine hdue.resolve_right fun ho => ?_
      cases c with
      | nread =>
        have hopen := hk ho
        have hlive := hgood ho hi
        simp [hopen, hlive] at hf
      | nwrite => exact ho
    | writeStore hi hr hf =>
      cases c with
      | nread => exact .inr rfl
      | nwrite =>
        obtain ⟨hfull, -⟩ := hdue.resolve_right id
        simp [hfull] at hf
    | full | wrote | readKilled | readSleep | copied => exact hdue.resolve_right id
    | readGo => exact .inl (hdue.resolve_right id)
    | copyEnd | closeRead =>
      cases c with
      | nread => exact .inr (.inl (hdue.resolve_right id))
      | nwrite => exact .inl rfl
    | copyByte hi hem =>
      cases c with
      | nread =>
        obtain ⟨hempty, -⟩ := hdue.resolve_right id
        simp [hempty] at hem
      | nwrite => exact .inr (Nat.succ_pos _)
    | copyFault hi hem =>
      cases c with
      | nread =>
        obtain ⟨hempty, -⟩ := hdue.resolve_right id
        simp [hempty] at hem
      | nwrite => exact .inl rfl
    | closed =>
      cases c with
      | nread | nwrite => exact hdue.resolve_right id
  sleep := by
    rintro t g l e g' c l' hq ⟨hk, -⟩ - hc
    cases pipe_code hc with
    | full => exact hk
    | readSleep hem hw => exact ⟨hem, hw⟩

/-! ### The results -/

/-- A reader's copy succeeds. -/
def delivers (_ : T) (g : Pipe T) (l : PipePc) (e : PipeEnv) : Prop :=
  match l with
  | .copy n i _ => (i : ℤ) < n → g.empty = false → e.dst = true
  | _ => True

/-- No reader has taken a byte that it could not deliver. -/
def deliveredOutline : Outline T (Pipe T) PipePc PipeUser where
  shared _ := True
  outside _ _ _ := True
  waiting _ _ l := l.entry = true
  inside _ _ l := ∀ n i k, l ≠ .copied n i k true

omit [DecidableEq T] in
theorem deliveredOutline_valid : deliveredOutline.Valid (pipe pool) delivers where
  init _ _ := ⟨trivial, fun _ => trivial⟩
  start := by
    rintro t g o c l - - hl
    cases c with
    | write n | read n | close w =>
      cases hl
      rfl
  enter := by
    rintro t g l - hl n i k rfl
    cases hl
  own := by
    rintro t g l e g' a - - hgood hc
    refine ⟨trivial, ?_⟩
    cases pipe_code hc with
    | copyFault hi hem hd =>
      have hd' := hgood hi hem
      rw [hd] at hd'
      cases hd'
    | writeFail | wrote | readKilled | copied | closed => trivial
    | full | readSleep => rfl
    | writeEnd | writeFull | writeFault | writeStore | readGo | copyEnd | copyByte |
      closeWrite | closeRead => exact fun _ _ _ h => by cases h
  frame _ _ _ _ _ := ⟨fun _ => id, fun _ => id⟩

/-- No copy from or to user memory fails. -/
def faultless (_ : T) (_ : Pipe T) (_ : PipePc) (e : PipeEnv) : Prop :=
  e.src ≠ none ∧ e.dst = true

/-- **A pipe is a bounded queue.** In every run without a failed copy, over any number of wraps of
the counters: they are at most `PIPESIZE` apart; the bytes that reads took are the first of the
bytes that writes appended, each thread's in its own order; and a `piperead` of at least one
byte that returns 0 has found the ring empty and the write end closed. -/
theorem pipe_fifo {s : MonState T PipeChan (Pipe T) PipePc PipeUser}
    (h : (pipe pool).machine.Reach (Monitor.guard faultless) s) :
    (s.data.nwrite + 2 ^ 32 - s.data.nread) % 2 ^ 32 ≤ PIPESIZE ∧
    s.data.taken.map PipeByte.byte <+: s.data.appended.map PipeByte.byte ∧
    Serial s.data.appended ∧ Serial s.data.taken ∧
    ∀ t e s' o n hit, (pipe pool).step s (.run t e) = some s' → s'.stage t = .out o →
      o.last = some ⟨.read n, 0, hit⟩ → 0 < n →
      s.data.nread = s.data.nwrite ∧ s.data.writeopen = false := by
  have hA := pipeOutline_valid.holds (Monitor.reach_guard h)
  have hD := (deliveredOutline_valid.mono fun t g l e he => by
    cases l with
    | copy n i k => exact fun _ _ => he.2
    | _ => trivial).holds h
  obtain ⟨hring, hfifo, happ, htak⟩ := hA.shared
  have hdist := hring.fits
  rw [hring.length_eq (by decide)] at hdist
  refine ⟨hdist, ⟨_, hfifo.symm⟩, happ, htak, ?_⟩
  intro t e s' o n hit hs ho hlast hn
  obtain ⟨l, g, hst, hc, -⟩ := Monitor.step_out hs ho
  have hin := hA.thread t
  have hdel := hD.thread t
  rw [hst] at hin hdel
  cases pipe_code hc with
  | @copied m i k hit' =>
    obtain ⟨rfl, rfl, -⟩ : m = n ∧ i = 0 ∧ hit' = hit := by simpa using hlast
    cases hit' with
    | false =>
      obtain ⟨hem, hw⟩ := hin.1 rfl rfl hn
      exact ⟨by simpa [Pipe.empty] using hem, hw⟩
    | true => exact absurd rfl (hdel _ _ _)
  | writeFail | wrote | readKilled | closed => simp at hlast

/-- The steps that the two results about sleepers and failed copies need: no writer is killed
between its bytes and its wakeup, and no reader fails to deliver. -/
def careful (t : T) (g : Pipe T) (l : PipePc) (e : PipeEnv) : Prop :=
  unkilled t g l e ∧ delivers t g l e

/-- What a call adds to the ring, by what it returned. -/
def PipeReturn.net (r : PipeReturn) : ℤ :=
  match r.call with
  | .write _ => r.result
  | .read _ => -r.result
  | .close _ => 0

/-- **Nobody sleeps without a reason, and no byte is lost**, in every run in which no writer sees
that it is killed after it has stored a byte since its last wakeup, and no copy of `piperead` to
user memory fails. Whenever the lock is free, a thread that sleeps on `&pi->nread` finds the ring
empty and the write end open, and one that sleeps on `&pi->nwrite` finds it full and the read end
open. What is in the ring is what was stored and not yet taken, and a call that does not return
-1 has stored or taken exactly as many bytes as it returns, also if a copy failed. -/
theorem pipe_sleepers {s : MonState T PipeChan (Pipe T) PipePc PipeUser}
    (h : (pipe pool).machine.Reach (Monitor.guard careful) s) :
    (s.lock = none → ∀ t, s.state t = .sleeping →
      (s.chan t = some .nread → s.data.nread = s.data.nwrite ∧ s.data.writeopen = true) ∧
      (s.chan t = some .nwrite →
        s.data.nwrite = (s.data.nread + PIPESIZE) % 2 ^ 32 ∧ s.data.readopen = true)) ∧
    s.data.appended.map PipeByte.byte = s.data.taken.map PipeByte.byte ++ s.data.contents ∧
    ∀ t e s' k r, (pipe pool).step s (.run t e) = some s' →
      s'.stage t = .out ⟨k + 1, some r⟩ → 0 ≤ r.result →
      ((indices t k s.data.appended).length : ℤ) - (indices t k s.data.taken).length = r.net := by
  have hunkilled : (pipe pool).machine.Reach (Monitor.guard unkilled) s := by
    refine h.mono fun s a ha => ?_
    cases a with
    | run t e => exact fun l hl => (ha l hl).1
    | call | advance | disturb => trivial
  have hA := pipeOutline_valid.holds (Monitor.reach_guard h)
  have hD := (deliveredOutline_valid.mono fun t g l e he => he.2).holds h
  have hV : pipeOutline.Valid (pipe pool) unkilled :=
    pipeOutline_valid.mono fun _ _ _ _ _ => trivial
  refine ⟨fun hl t ht => ⟨fun hch => ?_, fun hch => ?_⟩, hA.shared.fifo, ?_⟩
  · have hb := pipe_wakes.blocked_of_sleeping hV hunkilled hl ht hch
    exact ⟨by simpa [Pipe.empty] using hb.1, hb.2⟩
  · have hb := pipe_wakes.blocked_of_sleeping hV hunkilled hl ht hch
    exact ⟨by simpa [Pipe.isFull] using hb.1, hb.2⟩
  · intro t e s' k r hs ho hr
    obtain ⟨l, g, hst, hc, -⟩ := Monitor.step_out hs ho
    have hin := hA.thread t
    have hdel := hD.thread t
    rw [hst] at hin hdel
    obtain ⟨-, happ, htak⟩ := hin
    cases pipe_code hc with
    | @wrote n i =>
      have hput : indices t k s.data.appended = List.range i := happ.indices
      have hgot : indices t k s.data.taken = List.range 0 := htak.indices
      simp [hput, hgot, PipeReturn.net]
    | @copied n i _ hit =>
      cases hit with
      | false =>
        have hput : indices t k s.data.appended = List.range 0 := happ.indices
        have hgot : indices t k s.data.taken = List.range i := htak.indices
        simp [hput, hgot, PipeReturn.net]
      | true => exact absurd rfl (hdel _ _ _)
    | closed =>
      have hput : indices t k s.data.appended = List.range 0 := happ.indices
      have hgot : indices t k s.data.taken = List.range 0 := htak.indices
      simp [hput, hgot, PipeReturn.net]
    | writeFail | readKilled => simp at hr

end

/-! ### Runs -/

instance (t : T) (g : Pipe T) (l : PipePc) (e : PipeEnv) : Decidable (faultless t g l e) :=
  inferInstanceAs (Decidable (e.src ≠ none ∧ e.dst = true))

instance (t : T) (g : Pipe T) (l : PipePc) (e : PipeEnv) : Decidable (careful t g l e) := by
  unfold careful unkilled delivers
  cases l <;> infer_instance

/-- A new pipe. -/
def newPipe : Pipe (Fin 2) := ⟨fun _ => 0, 0, 0, true, true, false, [], []⟩

theorem newPipe_initial : newPipe.initial := ⟨rfl, rfl, rfl, rfl, rfl, rfl, rfl⟩

/-- `n` steps of a thread that its stage determines. -/
def advances (t : Fin 2) (n : ℕ) : List (MonAct (Fin 2) PipeCall PipeEnv) :=
  List.replicate n (.advance t)

/-- `n` steps of a thread's code, with nothing unusual. -/
def runs (t : Fin 2) (n : ℕ) : List (MonAct (Fin 2) PipeCall PipeEnv) :=
  List.replicate n (.run t ⟨false, some 7, true⟩)

/-- Thread 0 writes a byte and closes its end. Thread 1, which was asleep in its first
`piperead`, gets the byte; its second `piperead` is about to return. -/
def drainRun : List (MonAct (Fin 2) PipeCall PipeEnv) :=
  [.call 1 (.read 2), .advance 1] ++ runs 1 1 ++ advances 1 4 ++
    [.call 0 (.write 1), .advance 0] ++ runs 0 2 ++ advances 0 3 ++ runs 0 1 ++
    advances 1 3 ++ runs 1 3 ++ advances 1 3 ++ runs 1 1 ++
    [.call 0 (.close true), .advance 0] ++ runs 0 1 ++ advances 0 3 ++ runs 0 1 ++
    [.call 1 (.read 2), .advance 1] ++ runs 1 2 ++ advances 1 3

/-- The reader got the byte, and then the end of the file: the ring is empty and the write end
closed. -/
theorem pipe_fifo_drain : ∃ s, (pipe (.fin 2)).machine.exec ((pipe (.fin 2)).quiet newPipe)
      drainRun = some s ∧ s.data.taken.map PipeByte.byte = [7] ∧
    s.data.taken.map PipeByte.byte <+: s.data.appended.map PipeByte.byte ∧
    s.data.nread = s.data.nwrite ∧ s.data.writeopen = false := by
  obtain ⟨s, hs, htaken, s', hs', hout⟩ :
      ∃ s ∈ (pipe (.fin 2)).machine.exec ((pipe (.fin 2)).quiet newPipe) drainRun,
      s.data.taken.map PipeByte.byte = [7] ∧
      ∃ s' ∈ (pipe (.fin 2)).step s (.run 1 ⟨false, some 7, true⟩),
        s'.stage 1 = .out ⟨2, some ⟨.read 2, 0, false⟩⟩ := by
    decide +kernel
  have hreach : (pipe (.fin 2)).machine.Reach (Monitor.guard faultless) s :=
    (Machine.Reach.init (Monitor.init_quiet newPipe_initial)).exec_along (by decide +kernel) hs
  obtain ⟨-, hprefix, -, -, hzero⟩ := pipe_fifo hreach
  exact ⟨s, hs, htaken, hprefix, hzero 1 _ s' _ 2 false hs' hout rfl (by decide)⟩

/-- Thread 0 writes two bytes, of which the second is at an address that is not mapped; it is
about to return. -/
def shortRun : List (MonAct (Fin 2) PipeCall PipeEnv) :=
  [.call 0 (.write 2), .advance 0] ++ runs 0 1 ++ [.run 0 ⟨false, none, true⟩] ++ advances 0 3

/-- The writer returns 1, and has stored one byte. -/
theorem pipe_sleepers_short : ∃ s s', (pipe (.fin 2)).machine.exec
      ((pipe (.fin 2)).quiet newPipe) shortRun = some s ∧
    (pipe (.fin 2)).step s (.run 0 ⟨false, none, true⟩) = some s' ∧
    s'.stage 0 = .out ⟨1, some ⟨.write 2, 1, true⟩⟩ ∧
    ((indices 0 0 s.data.appended).length : ℤ) - (indices 0 0 s.data.taken).length = 1 := by
  obtain ⟨s, hs, s', hs', hout⟩ :
      ∃ s ∈ (pipe (.fin 2)).machine.exec ((pipe (.fin 2)).quiet newPipe) shortRun,
      ∃ s' ∈ (pipe (.fin 2)).step s (.run 0 ⟨false, none, true⟩),
        s'.stage 0 = .out ⟨1, some ⟨.write 2, 1, true⟩⟩ := by
    decide +kernel
  have hreach : (pipe (.fin 2)).machine.Reach (Monitor.guard careful) s :=
    (Machine.Reach.init (Monitor.init_quiet newPipe_initial)).exec_along (by decide +kernel) hs
  obtain ⟨-, -, hnet⟩ := pipe_sleepers hreach
  exact ⟨s, s', hs, hs', hout, hnet 0 _ s' 0 _ hs' hout (by decide)⟩

/-- Thread 1 sleeps in `piperead`. Thread 0 writes two bytes and is killed after the first. -/
def killedRun : List (MonAct (Fin 2) PipeCall PipeEnv) :=
  [.call 1 (.read 1), .advance 1] ++ runs 1 1 ++ advances 1 4 ++
    [.call 0 (.write 2), .advance 0] ++ runs 0 1 ++ [.run 0 ⟨true, some 7, true⟩]

/-- Thread 0 writes a byte, and thread 1 is about to take it. -/
def byteRun : List (MonAct (Fin 2) PipeCall PipeEnv) :=
  [.call 0 (.write 1), .advance 0] ++ runs 0 2 ++ advances 0 3 ++ runs 0 1 ++
    [.call 1 (.read 1), .advance 1] ++ runs 1 1

/-- Thread 1 cannot copy the byte to its buffer, and returns. -/
def lostRun : List (MonAct (Fin 2) PipeCall PipeEnv) :=
  [.run 1 ⟨false, none, false⟩] ++ advances 1 3 ++ runs 1 1

/-- **A reader sleeps beside a byte, and a byte is lost.** A writer that is killed between its first
byte and its wakeup returns without waking the reader. And a `piperead` whose copy fails returns
0 while the ring has shrunk by one byte. -/
theorem pipe_sleeper_stranded_and_byte_lost :
    (∃ s, (pipe (.fin 2)).machine.Reach Machine.anyStep s ∧ s.lock = none ∧
      s.state 1 = .sleeping ∧ s.chan 1 = some .nread ∧ s.data.contents = [7]) ∧
    ∃ s s', (pipe (.fin 2)).machine.Reach Machine.anyStep s ∧
      (pipe (.fin 2)).machine.exec s lostRun = some s' ∧ s.data.contents = [7] ∧
      s'.stage 1 = .out ⟨1, some ⟨.read 1, 0, true⟩⟩ ∧ s'.data.contents = [] := by
  have hinit := Monitor.init_quiet (M := pipe (.fin 2)) newPipe_initial
  constructor
  · obtain ⟨s, hs, hstranded⟩ :
        ∃ s ∈ (pipe (.fin 2)).machine.exec ((pipe (.fin 2)).quiet newPipe) killedRun,
        s.lock = none ∧ s.state 1 = .sleeping ∧ s.chan 1 = some .nread ∧
          s.data.contents = [7] := by
      decide +kernel
    exact ⟨s, Machine.reach_of_exec hinit hs, hstranded⟩
  · obtain ⟨s, hs, s', hs', hlost⟩ :
        ∃ s ∈ (pipe (.fin 2)).machine.exec ((pipe (.fin 2)).quiet newPipe) byteRun,
        ∃ s' ∈ (pipe (.fin 2)).machine.exec s lostRun, s.data.contents = [7] ∧
          s'.stage 1 = .out ⟨1, some ⟨.read 1, 0, true⟩⟩ ∧ s'.data.contents = [] := by
      decide +kernel
    exact ⟨s, s', Machine.reach_of_exec hinit hs, hs', hlost⟩

end XVapor
