import XVapor.Ext4File
import XVapor.Signal
import XVapor.SpaceMachine

/-!
# Page Faults of the User

`usertrap` of a load or a store that faults (`sched/trap.c`), with the page fault handler down
to the table and to the file of the mapping. The handler takes a page, maps it, and reads the
file into it with the `read` operation of the file. It does not look at the kind of the file:
a pipe, a device or a directory has the operations of the file system, and no file behind
them.

The permissions of the entry are given as a word. The handler always adds `PTE_X`.

A thread that is killed leaves before the handler runs. **Everything else that goes wrong
panics**: no mapping holds the address, the page is mapped already, there is no memory, the
read fails.

## Main results

* `usertrap_fault_iff`: when the thread resumes with the page mapped as the mapping says, or
  exits.
-/

namespace XVapor.Vm

open Files (ProcId ProcState)
open Ext4 (EINVAL ENOMEM)
open Signal (Actions UserMem signalHandle validSignal)
open Space

/-! ### Permissions -/

def PTE_R : BitVec 64 := 2
def PTE_W : BitVec 64 := 4
def PTE_X : BitVec 64 := 8
def PTE_U : BitVec 64 := 16
def PROT_EXEC : BitVec 32 := 4

/-- The bits of an entry. -/
def pteBits (r w x : Bool) : BitVec 64 :=
  (if r then PTE_R else 0) ||| (if w then PTE_W else 0) ||| (if x then PTE_X else 0)

/-- `PROT2PTE_FLAGS` -/
def prot2pteFlags (prot : BitVec 32) : BitVec 64 :=
  pteBits (prot &&& PROT_READ != 0) (prot &&& PROT_WRITE != 0) (prot &&& PROT_EXEC != 0)

/-- What a mapping asks for. -/
def vmaPerm (w : Vma) : BitVec 64 := prot2pteFlags w.prot ||| PTE_U

/-- What the page fault handler gives. -/
def faultPerm (w : Vma) : BitVec 64 := prot2pteFlags w.prot ||| PTE_U ||| PTE_X

/-- The entry with these permissions. -/
def permPte (f : Frame) (perm : BitVec 64) : Pte :=
  ⟨f, perm &&& PTE_R ≠ 0, perm &&& PTE_W ≠ 0, perm &&& PTE_U ≠ 0⟩

theorem permPte_pteBits (f : Frame) (r w x : Bool) :
    permPte f (pteBits r w x ||| PTE_U ||| PTE_X) = ⟨f, r, w, true⟩ := by
  cases r <;> cases w <;> cases x <;> rfl

theorem pteBits_exec (r w x : Bool) :
    pteBits r w x ||| PTE_U ||| PTE_X = pteBits r w x ||| PTE_U ↔ x = true := by
  revert r w x
  decide

theorem permPte_faultPerm (w : Vma) (n : ℕ) : permPte (.page n) (faultPerm w) = faultPte w n :=
  permPte_pteBits _ _ _ _

/-- The page is executable, whether the mapping asks for it or not. -/
theorem faultPerm_eq_iff (w : Vma) : faultPerm w = vmaPerm w ↔ w.prot &&& PROT_EXEC ≠ 0 :=
  (pteBits_exec _ _ _).trans bne_iff_ne

/-! ### Files -/

def EPERM : ℤ := 1

/-- The file behind a mapping, as its `read` operation finds it. -/
inductive Backing
  /-- a file whose `private_data` is null: a pipe, a device, or a directory -/
  | bare
  /-- a regular file, with the size that the `ext4_file` has cached, and whether it was opened with
  `O_WRONLY` -/
  | reg (bytes : List UInt8) (fsize : ℕ) (wronly : Bool)
  /-- `/proc/interrupts`: its text, which is shorter than a page, and whether `fpos` is at its end -/
  | interrupts (text : { d : List UInt8 // d.length ≤ PGSIZE }) (atEnd : Bool)

/-- `fops->read` of a page into user memory, up to the copy: the bytes to copy, or an error.
`buffer` says whether there is a page for the buffer. -/
def Backing.read (off : ℤ) (buffer : Bool) : Backing → Except ℤ (List UInt8)
  | .bare => .error EINVAL
  | .reg bytes fsize wronly =>
    if off < 0 ∨ (fsize : ℤ) < off then .ok []
    else if buffer = false then .error ENOMEM
    else if wronly then .error EPERM
    else .ok (slice bytes off.toNat PGSIZE)
  | .interrupts text atEnd =>
    if atEnd then .ok [] else if buffer = false then .error (-1) else .ok text

variable {B : Backing} {off : ℤ} {buffer b : Bool} {d : List UInt8}

theorem Backing.length_read (h : B.read off buffer = .ok d) : d.length ≤ PGSIZE := by
  cases B with
  | bare => nomatch h
  | reg bytes fsize wronly =>
    simp only [Backing.read] at h
    split at h
    · cases h
      simp
    split at h
    · nomatch h
    split at h
    · nomatch h
    · cases h
      rw [length_slice]
      exact Nat.min_le_left _ _
  | interrupts text atEnd =>
    simp only [Backing.read] at h
    split at h
    · cases h
      simp
    · split at h
      · nomatch h
      · cases h
        exact text.2

/-- What a read needs: a file behind the operations; and unless it is past the end of the file, a
page for the buffer, and a file that was not opened with `O_WRONLY`. -/
def Backing.Reads (off : ℤ) (buffer : Bool) : Backing → Prop
  | .bare => False
  | .reg _ fsize wronly => off < 0 ∨ (fsize : ℤ) < off ∨ (buffer = true ∧ wronly = false)
  | .interrupts _ atEnd => atEnd = true ∨ buffer = true

theorem Backing.read_ok_iff :
    (∃ d, B.read off buffer = .ok d) ↔ B.Reads off buffer := by
  cases B with
  | bare => simp [Backing.read, Backing.Reads]
  | reg bytes fsize wronly =>
    simp only [Backing.read, Backing.Reads, ← or_assoc]
    by_cases hoff : off < 0 ∨ (fsize : ℤ) < off
    · simp [hoff]
    · cases buffer <;> cases wronly <;> simp [hoff]
  | interrupts text atEnd =>
    cases atEnd <;> cases buffer <;> simp [Backing.read, Backing.Reads]

/-! ### The handler -/

/-- The read of the file into the page that has been mapped. -/
def faultFill (file : ℕ → Backing) (w : Vma) (v : ℕ) (S : Space) : Except Panic Space :=
  match w.file with
  | none => .ok S
  | some f =>
    match (file f).read (faultOff w v) (decide (S.mem.free ≠ 0)) with
    | .error _ => .error .faultRead
    | .ok d =>
      match copyout S (v * PGSIZE) d with
      | (true, S) => .ok S
      | (false, _) => .error .faultRead

/-- `pgfault_handler`, with the files behind the mappings. It returns the permissions of the entry
it has made. -/
def pgfaultHandlerOf (file : ℕ → Backing) (k : Kernel) (p : ProcId) (v : ℕ) :
    Except Panic (BitVec 64 × Kernel) :=
  match findVma (v * PGSIZE) (k.proc p).vmas with
  | none => .error .pageFault
  | some (_, w, _) => do
    let S ← k.space p
    match kalloc S.mem with
    | none => .error .faultKalloc
    | some (n, m) => do
      let (mapped, S) ← mappages ⟨m, S.tbl⟩ v (permPte (.page n) (faultPerm w))
      if mapped then do
        let S ← faultFill file w v S
        .ok (faultPerm w, k.put S)
      else .error .faultMappages

variable {file : ℕ → Backing} {k k' : Kernel} {p : ProcId} {v : ℕ} {T : Table} {S S' : Space}
  {perm : BitVec 64}

variable {e : Pte}

theorem mappages_mapped (h : mappages S v e = .ok (true, S')) :
    v < vpn MAXVA ∧ S'.tbl.Walks v ∧ S'.tbl.pte v = some e := by
  obtain ⟨-, hv, -, -, hpte, hwalks, -⟩ | ⟨hb, -⟩ := mappages_ok h
  · exact ⟨hv, hwalks, by rw [hpte, Function.update_self]⟩
  · cases hb

variable {n : ℕ}

theorem copyout_page (hv : v < vpn MAXVA)
    (hw : S.tbl.Walks v) (he : S.tbl.pte v = some e) (hu : e.u = true) (hf : e.frame = .page n)
    (hd : d.length ≤ PGSIZE) :
    copyout S (v * PGSIZE) d = (true, ⟨S.mem.write (.page n) 0 d, S.tbl⟩) := by
  have hmod : v * PGSIZE % PGSIZE = 0 := Nat.mul_mod_left _ _
  have hvpn : vpn (v * PGSIZE) = v := vpn_mul v
  have hround : ∀ (r : ℕ) (S' : Space) (dst : ℕ), copyoutLoop r S' dst [] = (true, S') := by
    intro r S' dst
    cases r <;> simp [copyoutLoop]
  obtain _ | ⟨b, d⟩ := d
  · simp [copyout, copyoutLoop, Mem.write, Mem.fill]
  have haddr : walkaddr S v = some (.page n) := by
    rw [walkaddr, if_neg (not_le.2 hv), walk_false hv]
    simp [hw, he, hu, hf]
  have hmin : min (PGSIZE - v * PGSIZE % PGSIZE) (b :: d).length = (b :: d).length := by
    rw [hmod, Nat.sub_zero]
    exact Nat.min_eq_right hd
  rw [copyout, List.length_cons, copyoutLoop, if_neg (by simp), hvpn, haddr]
  dsimp only
  rw [hmin, List.take_length, List.drop_length, hround, hmod]

variable {w : Vma}

theorem faultFill_eq (hv : v < vpn MAXVA) (hw : S.tbl.Walks v)
    (he : S.tbl.pte v = some (faultPte w n)) :
    faultFill file w v S = match w.file with
      | none => .ok S
      | some f => match (file f).read (faultOff w v) (decide (S.mem.free ≠ 0)) with
        | .error _ => .error .faultRead
        | .ok d => .ok ⟨S.mem.write (.page n) 0 d, S.tbl⟩ := by
  rw [faultFill]
  obtain _ | f := w.file
  · rfl
  dsimp only
  rcases hr : (file f).read (faultOff w v) (decide (S.mem.free ≠ 0)) with e | d
  · rfl
  dsimp only
  rw [copyout_page hv hw he rfl rfl (Backing.length_read hr)]

theorem faultFill_ok_iff (hv : v < vpn MAXVA) (hw : S.tbl.Walks v)
    (he : S.tbl.pte v = some (faultPte w n)) :
    (∃ S', faultFill file w v S = .ok S') ↔
      ∀ f, w.file = some f → (file f).Reads (faultOff w v) (decide (S.mem.free ≠ 0)) := by
  rw [faultFill_eq hv hw he]
  obtain _ | f := w.file
  · simp
  simp only [Option.some.injEq, forall_eq', ← Backing.read_ok_iff]
  cases (file f).read (faultOff w v) (decide (S.mem.free ≠ 0)) <;> simp

theorem faultFill_tbl (h : faultFill file w v S = .ok S') : S'.tbl = S.tbl := by
  rw [faultFill] at h
  split at h
  · rw [Except.ok.inj h]
  split at h
  · cases h
  rename_i d hread
  have hwrites := copyout_writes S (v * PGSIZE) d
  split at h
  next hcopy =>
    rw [hcopy] at hwrites
    rw [← Except.ok.inj h]
    exact hwrites.tbl
  next => cases h

section

variable (hfile : ∀ f, file f = .reg (k.file f).bytes (k.file f).bytes.length false)
include hfile

/-- For regular files with the contents of the file system the read is that of `AddressSpace`. -/
theorem faultFill_regular
    (hv : v < vpn MAXVA) (hw : S.tbl.Walks v) (he : S.tbl.pte v = some (faultPte w n)) :
    faultFill file w v S = if faultBuffer k w v ∧ S.mem.free = 0 then .error .faultRead
      else .ok ⟨S.mem.write (.page n) 0 (faultBytes k w v), S.tbl⟩ := by
  rw [faultFill_eq hv hw he, faultBuffer, faultBytes]
  obtain _ | f := w.file
  · simp [Mem.write, Mem.fill]
  simp only [hfile, Backing.read, vfread]
  by_cases hoff : faultOff w v < 0 ∨ ((k.file f).bytes.length : ℤ) < faultOff w v
  · have hpast : ¬ (0 ≤ faultOff w v ∧ faultOff w v ≤ (k.file f).bytes.length) := by omega
    simp [hoff, hpast]
  · have hin : 0 ≤ faultOff w v ∧ faultOff w v ≤ (k.file f).bytes.length := by omega
    by_cases hfree : S.mem.free = 0 <;> simp [hoff, hin, hfree]

/-- For regular files with the contents of the file system this is the handler of
`AddressSpace`. -/
theorem pgfaultHandlerOf_regular :
    (pgfaultHandlerOf file k p v).map Prod.snd = pgfaultHandler k p v := by
  rw [pgfaultHandlerOf, pgfaultHandler]
  rcases hfind : findVma (v * PGSIZE) (k.proc p).vmas with _ | ⟨before, w, after⟩
  · rfl
  dsimp only
  rcases hS : k.space p with e | S
  · rfl
  rw [ok_bind, ok_bind]
  rcases hka : kalloc S.mem with _ | ⟨n, m⟩
  · rfl
  dsimp only
  rw [permPte_faultPerm]
  rcases hmap : mappages ⟨m, S.tbl⟩ v (faultPte w n) with e | ⟨mapped, S'⟩
  · rfl
  rw [ok_bind, ok_bind]
  obtain _ | _ := mapped
  · rfl
  obtain ⟨hv, hw, he⟩ := mappages_mapped hmap
  simp only [if_true, faultFill_regular hfile hv hw he]
  split <;> rfl

end

/-! ### When the handler returns -/

/-- What the handler needs for the page `v` of a mapping: an address below `MAXVA`, a page that is
not mapped, memory for the page and the levels of the table, and a file that can be read, with
memory for the buffer. -/
structure Served (file : ℕ → Backing) (k : Kernel) (T : Table) (v : ℕ) (w : Vma) : Prop where
  bound : v < vpn MAXVA
  unmapped : T.pte v = none
  room : 1 + T.lacks v ≤ k.mem.free
  reads : ∀ f, w.file = some f →
    (file f).Reads (faultOff w v) (decide (2 + T.lacks v ≤ k.mem.free))

/-- **When the handler returns**, with the entry that it has made. -/
theorem pgfaultHandlerOf_ok (hT : k.table p = some T)
    (h : pgfaultHandlerOf file k p v = .ok (perm, k')) :
    ∃ before w after n S, findVma (v * PGSIZE) (k.proc p).vmas = some (before, w, after) ∧
      Served file k T v w ∧ perm = faultPerm w ∧ k' = k.put S ∧ S.tbl.root = T.root ∧
      S.tbl.pte v = some (permPte (.page n) perm) := by
  rw [pgfaultHandlerOf] at h
  split at h
  · cases h
  rename_i before w after hfind
  replace h := (Kernel.bind_space hT).symm.trans h
  rcases hka : kalloc k.mem with _ | ⟨n, m⟩
  · simp [hka] at h
  simp only [hka] at h
  obtain ⟨⟨mapped, S⟩, hmap, h⟩ := bind_eq_ok.1 h
  obtain _ | _ := mapped
  · simp at h
  obtain ⟨S', hfill, h⟩ := bind_eq_ok.1 h
  cases h
  obtain ⟨hv, hwalks, he⟩ := mappages_mapped hmap
  obtain ⟨-, -, hnone, hedit, -, -, hfree⟩ | ⟨hb, -⟩ := mappages_ok hmap
  · have hone := kalloc_free hka
    dsimp only at hfree
    have hreads := (faultFill_ok_iff hv hwalks (by rwa [permPte_faultPerm] at he)).1
      ⟨S', hfill⟩
    have htwo : decide (S.mem.free ≠ 0) = decide (2 + T.lacks v ≤ k.mem.free) :=
      decide_eq_decide.2 (by omega)
    rw [htwo] at hreads
    have htbl := faultFill_tbl hfill
    exact ⟨before, w, after, n, S', hfind, ⟨hv, hnone, by omega, hreads⟩, rfl, rfl,
      by rw [htbl, hedit.root], by rw [htbl, he]⟩
  · cases hb

theorem pgfaultHandlerOf_served {before after : List Vma} (hT : k.table p = some T)
    (hfind : findVma (v * PGSIZE) (k.proc p).vmas = some (before, w, after))
    (hw : Served file k T v w) : ∃ perm k', pgfaultHandlerOf file k p v = .ok (perm, k') := by
  have hroom := hw.room
  obtain ⟨n, m, hka⟩ := kalloc_total (m := k.mem) (by omega)
  have hone := kalloc_free hka
  obtain ⟨S, hmap, -, -, hfree⟩ := mappages_total (S := ⟨m, T⟩) hw.bound hw.unmapped
    (by dsimp only; omega) (permPte (.page n) (faultPerm w))
  dsimp only at hfree
  obtain ⟨hv, hwalks, he⟩ := mappages_mapped hmap
  have htwo : decide (S.mem.free ≠ 0) = decide (2 + T.lacks v ≤ k.mem.free) :=
    decide_eq_decide.2 (by omega)
  obtain ⟨S', hfill⟩ := (faultFill_ok_iff hv hwalks (by rwa [permPte_faultPerm] at he)).2
    (by rw [htwo]; exact hw.reads)
  refine ⟨faultPerm w, k.put S', ?_⟩
  rw [pgfaultHandlerOf, hfind]
  refine bind_eq_ok.2 ⟨⟨k.mem, T⟩, Kernel.space_eq_ok.2 ⟨T, hT, rfl⟩, ?_⟩
  simp only [hka]
  refine bind_eq_ok.2 ⟨(true, S), hmap, ?_⟩
  simp only [if_true]
  exact bind_eq_ok.2 ⟨S', hfill, rfl⟩

/-! ### Traps -/

/-- `devintr`: a device, the timer, a page fault of a load or a store, or none of them. -/
def devintr (scause : BitVec 64) : ℕ :=
  if scause.msb ∧ scause &&& 0xff = 9 then 1
  else if scause = 0x8000000000000005 then 2
  else if scause = 13 ∨ scause = 15 then 3
  else 0

/-- How a trap ends. -/
inductive TrapEnd
  /-- `usertrapret`: the permissions of the page that the handler has mapped, if it ran, the
  kernel after it, the thread, and the memory of the user after `signal_handle` -/
  | resumes (perm : Option (BitVec 64)) (k : Kernel) (t : Signal.Tcb) (m : UserMem)
  /-- `thread_exit`; `all` says whether the threads of the process have been marked as killed -/
  | exits (status : ℤ) (all : Bool)
  /-- a panic of the page fault handler -/
  | panics (e : Panic)
  /-- the panic of `signal_handle` -/
  | signalPanics

/-- The memory of the user, as `walkaddr` finds it. -/
def Space.userMem (S : Space) : UserMem where
  byte a := match walkaddr S (vpn a) with
    | some f => S.mem.bytes f (a % PGSIZE)
    | none => 0
  mapped v := (walkaddr S v).isSome
  bound v h := by
    by_contra hv
    simp [walkaddr, not_lt.1 hv] at h

/-- The end of `usertrap`. -/
def trapReturn (acts : Actions) (t : Signal.Tcb) (p : ProcId) (perm : Option (BitVec 64))
    (k : Kernel) : TrapEnd :=
  match k.space p with
  | .error e => .panics e
  | .ok S =>
    match signalHandle acts 0 t S.userMem with
    | none => .signalPanics
    | some (_, t, m) => .resumes perm k t m

/-- `usertrap` of a trap that is not a system call. `killed` is `p->killed`. -/
def usertrap (file : ℕ → Backing) (acts : Actions) (scause stval : BitVec 64) (killed : Bool)
    (k : Kernel) (p : ProcId) (t : Signal.Tcb) : TrapEnd :=
  if devintr scause = 0 then .exits (-1) true
  else if t.killed ∨ killed then .exits 0 false
  else if devintr scause = 3 then
    match pgfaultHandlerOf file k p (vpn stval.toNat) with
    | .error e => .panics e
    | .ok (perm, k) => trapReturn acts t p (some perm) k
  else trapReturn acts t p none k

/-- The thread exits, or it resumes and the page `v` is mapped as its mapping says. -/
def TrapEnd.Survives (k : Kernel) (p : ProcId) (v : ℕ) : TrapEnd → Prop
  | .resumes perm k' _ _ => ∃ before w after T n,
      findVma (v * PGSIZE) (k.proc p).vmas = some (before, w, after) ∧
      perm = some (vmaPerm w) ∧ k'.table p = some T ∧ T.pte v = some (permPte (.page n) (vmaPerm w))
  | .exits _ _ => True
  | .panics _ => False
  | .signalPanics => False

variable {acts : Actions} {scause stval : BitVec 64} {killed : Bool} {t : Signal.Tcb}

/-- `signal_handle` panics only for a signal that `signal_send` refuses. -/
theorem handleLoop_valid {sig : BitVec 64} {kept rest : List (BitVec 64)} {m : UserMem}
    (h : ∀ s ∈ rest, validSignal s) : Signal.handleLoop acts sig kept rest t m ≠ none := by
  induction rest generalizing kept t with
  | nil => simp [Signal.handleLoop]
  | cons s rest ih =>
    have hrest : ∀ s ∈ rest, validSignal s := fun x hx => h x (List.mem_cons_of_mem _ hx)
    rw [Signal.handleLoop]
    split
    · exact ih hrest
    rw [if_neg (not_not.2 (h s (by simp)))]
    split
    · exact ih hrest
    split
    · exact ih hrest
    · split <;> simp

theorem trapReturn_resumes (acts : Actions) (perm : Option (BitVec 64)) (hT : k.table p = some T)
    (h : ∀ s ∈ t.list, validSignal s) :
    ∃ t' m, trapReturn acts t p perm k = .resumes perm k t' m := by
  have hspace : k.space p = .ok ⟨k.mem, T⟩ := Kernel.space_eq_ok.2 ⟨T, hT, rfl⟩
  obtain ⟨x, hx⟩ : ∃ x, signalHandle acts 0 t (Space.userMem ⟨k.mem, T⟩) = some x := by
    rw [← Option.ne_none_iff_exists', signalHandle]
    split
    · simp
    · exact handleLoop_valid h
  refine ⟨x.2.1, x.2.2, ?_⟩
  rw [trapReturn, hspace]
  simp only [hx]

theorem usertrap_fault (hc : scause = 13 ∨ scause = 15) (hk : ¬ (t.killed ∨ killed)) :
    usertrap file acts scause stval killed k p t =
      match pgfaultHandlerOf file k p (vpn stval.toNat) with
      | .error e => .panics e
      | .ok (perm, k) => trapReturn acts t p (some perm) k := by
  have hdev : devintr scause = 3 := by
    rcases hc with rfl | rfl <;> decide
  rw [usertrap, if_neg (by rw [hdev]; decide), if_neg hk, if_pos hdev]

theorem usertrap_handled (hr : (k.proc p).pagetable = some T.root) (hT : k.table p = some T)
    (hc : scause = 13 ∨ scause = 15) (hsig : ∀ s ∈ t.list, validSignal s)
    (hk : ¬ (t.killed ∨ killed))
    (hh : pgfaultHandlerOf file k p (vpn stval.toNat) = .ok (perm, k')) :
    ∃ before w after n T' t' m,
      findVma (vpn stval.toNat * PGSIZE) (k.proc p).vmas = some (before, w, after) ∧
      Served file k T (vpn stval.toNat) w ∧
      usertrap file acts scause stval killed k p t = .resumes (some (faultPerm w)) k' t' m ∧
      k'.table p = some T' ∧ T'.pte (vpn stval.toNat) = some (permPte (.page n) (faultPerm w)) := by
  obtain ⟨before, w, after, n, S, hfind, hserved, rfl, rfl, hroot, he⟩ := pgfaultHandlerOf_ok hT hh
  have hput : (k.put S).table p = some S.tbl := by
    rw [Kernel.table, Kernel.put_proc, hr, ← hroot]
    exact AList.lookup_insert _
  obtain ⟨t', m, hret⟩ := trapReturn_resumes acts (some (faultPerm w)) hput hsig
  refine ⟨before, w, after, n, S.tbl, t', m, hfind, hserved, ?_, hput, he⟩
  rw [usertrap_fault hc hk, hh]
  exact hret

/-- **A page fault of the user** ends with the page mapped as the mapping says, or with the exit
of the thread, exactly if the thread is killed, or a mapping that is executable holds the
address and the handler has what it needs. In every other case the kernel panics or the page
is executable though the mapping is not. For regular files, the handler is that of
`AddressSpace`. -/
theorem usertrap_fault_iff (hr : (k.proc p).pagetable = some T.root)
    (hT : k.tables.lookup T.root = some T) (hc : scause = 13 ∨ scause = 15)
    (hsig : ∀ s ∈ t.list, validSignal s) :
    ((∀ f, file f = .reg (k.file f).bytes (k.file f).bytes.length false) →
      (pgfaultHandlerOf file k p (vpn stval.toNat)).map Prod.snd =
        pgfaultHandler k p (vpn stval.toNat)) ∧
    ((usertrap file acts scause stval killed k p t).Survives k p (vpn stval.toNat) ↔
      (t.killed ∨ killed) ∨ ∃ before w after,
        findVma (vpn stval.toNat * PGSIZE) (k.proc p).vmas = some (before, w, after) ∧
        w.prot &&& PROT_EXEC ≠ 0 ∧ Served file k T (vpn stval.toNat) w) := by
  refine ⟨pgfaultHandlerOf_regular, ?_⟩
  have htable : k.table p = some T := by rw [Kernel.table, hr]; exact hT
  by_cases hk : t.killed ∨ killed
  · have hdev : devintr scause = 3 := by
      rcases hc with rfl | rfl <;> decide
    rw [usertrap, if_neg (by rw [hdev]; decide), if_pos hk]
    simp [hk, TrapEnd.Survives]
  rw [or_iff_right hk]
  constructor
  · intro hs
    rcases hh : pgfaultHandlerOf file k p (vpn stval.toNat) with e | x
    · rw [usertrap_fault hc hk, hh] at hs
      exact hs.elim
    obtain ⟨before, w, after, n, T', t', m, hfind, hserved, htrap, -, -⟩ :=
      usertrap_handled hr htable hc hsig hk hh
    rw [htrap] at hs
    obtain ⟨before', w', after', -, -, hfind', hperm, -, -⟩ := hs
    obtain ⟨rfl, rfl, rfl⟩ : before = before' ∧ w = w' ∧ after = after' := by
      simpa using hfind.symm.trans hfind'
    exact ⟨before, w, after, hfind, (faultPerm_eq_iff w).1 (Option.some.inj hperm), hserved⟩
  · rintro ⟨before, w, after, hfind, hexec, hserved⟩
    obtain ⟨perm, k', hh⟩ := pgfaultHandlerOf_served htable hfind hserved
    obtain ⟨before', w', after', n, T', t', m, hfind', -, htrap, htable', he⟩ :=
      usertrap_handled hr htable hc hsig hk hh
    obtain ⟨rfl, rfl, rfl⟩ : before = before' ∧ w = w' ∧ after = after' := by
      simpa using hfind.symm.trans hfind'
    rw [htrap]
    have hperm := (faultPerm_eq_iff w).2 hexec
    exact ⟨before, w, after, T', n, hfind, by rw [hperm], htable', by rw [he, hperm]⟩

/-! ### The first process -/

/-- The first process with a mapping of one page. -/
def oneMap (prot : BitVec 32) (fp : Option ℕ) : Kernel :=
  (doMmap smallStart initproc PGSIZE prot 0 fp true).2

/-- The page of the mapping. -/
def onePage : BitVec 64 := BitVec.ofNat 64 (MMAP_MAX_ADDR_START - PGSIZE)

/-- A thread without signals. -/
def quietThread : Signal.Tcb := ⟨fun _ => 0, 0, 0, [], 0, 0, false⟩

/-- A fault of the first process, behind whose mappings there are pipes. -/
def oneTrap (k : Kernel) (scause stval : BitVec 64) : TrapEnd :=
  usertrap (fun _ => .bare) (fun _ => .default) scause stval false k initproc quietThread

/-- The first process with a mapping of code. -/
def codeMap : Kernel := oneMap (PROT_READ ||| PROT_EXEC) none

theorem usertrap_fault_exec :
    (oneTrap codeMap 13 onePage).Survives codeMap initproc (vpn onePage.toNat) := by
  have hfacts : (codeMap.table initproc).map (fun T => (T.root, T.pte (vpn onePage.toNat),
      T.lacks (vpn onePage.toNat))) = some (0, none, 0) := by decide +kernel
  obtain ⟨T, hT, hfacts⟩ := Option.map_eq_some_iff.1 hfacts
  obtain ⟨hroot, hnone, hlacks⟩ : T.root = 0 ∧ T.pte (vpn onePage.toNat) = none ∧
      T.lacks (vpn onePage.toNat) = 0 := by simpa using hfacts
  have hr : (codeMap.proc initproc).pagetable = some T.root := by
    rw [hroot]
    decide +kernel
  have hfind : findVma (vpn onePage.toNat * PGSIZE) (codeMap.proc initproc).vmas =
      some ([], ⟨onePage.toNat, onePage.toNat + PGSIZE, 5, 0, none⟩, []) := by decide +kernel
  have hfree : 1 ≤ codeMap.mem.free := by decide +kernel
  rw [Kernel.table, hr] at hT
  have hsig : ∀ s ∈ quietThread.list, validSignal s := by simp [quietThread]
  exact (usertrap_fault_iff hr hT (.inl rfl) hsig).2.2
    (.inr ⟨_, _, _, hfind, by decide, by decide, hnone, by omega, by simp⟩)

/-- The panic that a trap ends with. -/
def TrapEnd.panic : TrapEnd → Option Panic
  | .panics e => some e
  | _ => none

/-- The permissions of the page with which a thread resumes. -/
def TrapEnd.mapped : TrapEnd → Option (BitVec 64)
  | .resumes perm _ _ _ => perm
  | _ => none

/-- The kernel without free memory. -/
def Kernel.full (k : Kernel) : Kernel := { k with mem := { k.mem with total := k.mem.next } }

/-- The kernel after a trap. -/
def TrapEnd.after (k : Kernel) : TrapEnd → Kernel
  | .resumes _ k _ _ => k
  | _ => k

/-- **The user brings the kernel down**, in the state after boot: with a load from an address in
no mapping; with a store to a page of a mapping that can only be read, which has been loaded
from; with a load when there is no memory; and with a load from the mapping of a pipe. A
mapping that can only be read gives a page that is executable. -/
theorem usertrap_panics :
    (oneTrap smallStart 13 0x100000).panic = some .pageFault ∧
    (oneTrap ((oneTrap (oneMap PROT_READ none) 13 onePage).after smallStart) 15 onePage).panic =
      some .remap ∧ (oneTrap (oneMap PROT_READ none).full 13 onePage).panic = some .faultKalloc ∧
    (oneTrap (oneMap PROT_READ (some 0)) 13 onePage).panic = some .faultRead ∧
    (oneTrap (oneMap PROT_READ none) 13 onePage).mapped = some (PTE_R ||| PTE_U ||| PTE_X) := by
  decide +kernel

end XVapor.Vm
