import XVapor.FiniteMap
import XVapor.Panic

/-!
# Physical Pages and Page Tables

The page allocator `kalloc`, `kfree` (`mm/kalloc.c`) and the operations on user page tables
(`mm/vm.c`), on RISC-V.

A page is named by the number of the allocation it comes from: `next` counts the calls of
`kalloc` that succeeded, and `freed` is the list of the pages that have been passed to
`kfree`, the last one first. A page that is allocated again has another name, so **a page
freed twice is a name that stands twice in `freed`**, and a page that is lost is a name that
stands neither there nor in a table. `kalloc` fails when all the `total` pages of the machine
are in use.

A page table is its root page, the pages of its lower levels, and its valid leaf entries.
Addresses that are only used as whole pages are numbers of pages: `v` is the address
`v * PGSIZE`. A panic ends a computation.
-/

namespace XVapor.Vm

/-! ### Layout -/

def PGSIZE : ℕ := 4096
def MAXVA : ℕ := 2 ^ 38
def TRAMPOLINE : ℕ := MAXVA - PGSIZE
def SIGRETURN : ℕ := TRAMPOLINE - PGSIZE
def TRAPFRAME : ℕ := SIGRETURN - PGSIZE

/-- A number as `uint64`. -/
def u64 (x : ℤ) : ℕ := (x % 2 ^ 64).toNat

/-- `THREAD_TRAPFRAME(idx)`: the product is an `int`. -/
def threadTrapframe (idx : ℕ) : ℕ := u64 (TRAPFRAME - Int.bmod (idx * PGSIZE) (2 ^ 32))

/-- The page of an address. -/
def vpn (va : ℕ) : ℕ := va / PGSIZE

/-- `PGROUNDUP(sz) / PGSIZE`. -/
def pages (sz : ℕ) : ℕ := (sz + PGSIZE - 1) / PGSIZE

/-! ### Panics -/

/-- The panics of the kernel, and its faults at addresses that are not mapped. -/
inductive Panic
  /-- `panic("kfree")` -/
  | kfree
  /-- `panic("walk")` -/
  | walk
  /-- `panic("mappages: remap")` -/
  | remap
  /-- `panic("uvmunmap: not aligned")` -/
  | unmapAligned
  /-- `panic("uvmunmap: walk")` -/
  | unmapWalk
  /-- `panic("uvmunmap: not mapped")` -/
  | unmapNotMapped
  /-- `panic("freewalk: leaf")` -/
  | freewalkLeaf
  /-- `panic("uvmcopy: pte should exist")` -/
  | copyPte
  /-- `panic("uvmcopy: page not present")` -/
  | copyPage
  /-- `panic("uvmclear")` -/
  | uvmclear
  /-- `panic("userinit: uvmalloc failed")`, `panic("uvmfirst: kalloc failed")` -/
  | userinit
  /-- `panic("loadseg: va must be page aligned")` -/
  | loadsegAligned
  /-- `panic("loadseg: address should exist")` -/
  | loadsegAddress
  /-- `panic("mmap_writeback: walk")` -/
  | mmapWriteback
  /-- `panic("usertrap: page fault")` -/
  | pageFault
  /-- `panic("usertrap: kalloc")` -/
  | faultKalloc
  /-- `panic("usertrap: mappages")` -/
  | faultMappages
  /-- `panic("usertrap: read file failed")` -/
  | faultRead
  /-- `panic("thread count error")` -/
  | threadCount
  /-- `panic("transfer trapframe failed")` -/
  | transferTrapframe
  /-- `panic("init exiting")` -/
  | initExiting
  /-- an access through a page table that is null -/
  | nullTable
  /-- an access through a page table whose pages have been freed -/
  | staleTable
  /-- an access to a trap frame that is null -/
  | nullTrapframe
  /-- an access to the file of an anonymous mapping, which is null -/
  | nullFile
  /-- an access to the process of a thread that has been freed, which is null -/
  | nullProc
  deriving DecidableEq, Repr

/-! ### Physical memory -/

/-- What an entry points to: code of the kernel, address zero, or a page from `kalloc`. -/
inductive Frame
  | kernel
  | null
  | page (n : ℕ)
  deriving DecidableEq, Repr

/-- The allocator, and the bytes of the pages. -/
structure Mem where
  total : ℕ
  next : ℕ
  freed : List ℕ
  data : ℕ → ℕ → UInt8

namespace Mem

variable (m : Mem)

/-- The number of pages in the free list. -/
def free : ℕ := m.total + m.freed.length - m.next

/-- The bytes of a page. -/
def bytes : Frame → ℕ → UInt8
  | .page n => m.data n
  | _ => fun _ => 0

/-- Fill a page. -/
def fill (n : ℕ) (d : ℕ → UInt8) : Mem := { m with data := Function.update m.data n d }

/-- Write `d` at the offset `off` of a page. -/
def write (f : Frame) (off : ℕ) (d : List UInt8) : Mem :=
  match f with
  | .page n =>
    m.fill n fun i => if off ≤ i then d.getD (i - off) (m.data n i) else m.data n i
  | _ => m

end Mem

/-- `kalloc`, `kzalloc`: the page is filled with zeros. -/
def kalloc (m : Mem) : Option (ℕ × Mem) :=
  if m.next < m.total + m.freed.length then
    some (m.next, { m.fill m.next fun _ => 0 with next := m.next + 1 })
  else none

/-- `kfree`. An address that is not a page of the allocator is refused. -/
def kfree (m : Mem) : Frame → Except Panic Mem
  | .page n => .ok { m with freed := n :: m.freed }
  | _ => .error .kfree

/-! ### Page tables -/

/-- A valid leaf entry: its page, and whether it is readable, writable and for the user. -/
structure Pte where
  frame : Frame
  r : Bool
  w : Bool
  u : Bool
  deriving DecidableEq, Repr

/-- The entry of a level for the page `v`, with the index from the root on. At the levels two
and one it points to a page of the next level. -/
def entry (level v : ℕ) : ℕ × ℕ := (level, v / 512 ^ level)

/-- A page table. -/
structure Table where
  root : ℕ
  node : FiniteMap (ℕ × ℕ) ℕ
  leaf : FiniteMap ℕ Pte

/-- The leaf entry of a page. -/
def Table.pte (T : Table) (v : ℕ) : Option Pte := T.leaf.lookup v

/-- A page table with the memory it takes its pages from. -/
structure Space where
  mem : Mem
  tbl : Table

/-- One round of the loop of `walk`. -/
def walkLevel (S : Space) (level v : ℕ) (alloc : Bool) : Bool × Space :=
  if entry level v ∈ S.tbl.node then (true, S)
  else if alloc then
    match kalloc S.mem with
    | none => (false, S)
    | some (n, m) =>
      (true, ⟨m, { S.tbl with node := S.tbl.node.insert (entry level v) n }⟩)
  else (false, S)

/-- `walk`: whether there is a page with the leaf entry of `v`. -/
def walk (S : Space) (v : ℕ) (alloc : Bool) : Except Panic (Bool × Space) :=
  if vpn MAXVA ≤ v then .error .walk
  else match walkLevel S 2 v alloc with
    | (false, S) => .ok (false, S)
    | (true, S) => .ok (walkLevel S 1 v alloc)

/-- `walkaddr`. -/
def walkaddr (S : Space) (v : ℕ) : Option Frame :=
  if vpn MAXVA ≤ v then none
  else match walk S v false with
    | .ok (true, _) => match S.tbl.pte v with
      | none => none
      | some e => if e.u then some e.frame else none
    | _ => none

/-- `mappages` of one page. -/
def mappages (S : Space) (v : ℕ) (e : Pte) : Except Panic (Bool × Space) := do
  let (found, S) ← walk S v true
  if found then
    match S.tbl.pte v with
    | some _ => .error .remap
    | none => .ok (true, { S with tbl := { S.tbl with leaf := S.tbl.leaf.insert v e } })
  else .ok (false, S)

/-- One round of the loop of `uvmunmap`. -/
def unmapPage (S : Space) (v : ℕ) (doFree : Bool) : Except Panic Space := do
  let (found, S) ← walk S v false
  if found then
    match S.tbl.pte v with
    | none => .error .unmapNotMapped
    | some e => do
      let m ← (if doFree then kfree S.mem e.frame else .ok S.mem)
      .ok ⟨m, { S.tbl with leaf := S.tbl.leaf.erase v }⟩
  else .error .unmapWalk

/-- The loop of `uvmunmap`. -/
def unmapPages (doFree : Bool) : ℕ → ℕ → Space → Except Panic Space
  | 0, _, S => .ok S
  | n + 1, v, S => do
    let S ← unmapPage S v doFree
    unmapPages doFree n (v + 1) S

/-- `uvmunmap`. -/
def uvmunmap (S : Space) (va npages : ℕ) (doFree : Bool) : Except Panic Space :=
  if va % PGSIZE ≠ 0 then .error .unmapAligned
  else unmapPages doFree npages (vpn va) S

/-- `uvmdealloc`. -/
def uvmdealloc (S : Space) (oldsz newsz : ℕ) : Except Panic (ℕ × Space) :=
  if oldsz ≤ newsz then .ok (oldsz, S)
  else do
    let S ← (if pages newsz < pages oldsz then
        uvmunmap S (pages newsz * PGSIZE) (pages oldsz - pages newsz) true
      else .ok S)
    .ok (newsz, S)

/-- An entry of `uvmalloc`: readable and for the user, and writable, as all callers ask. -/
def userPte (n : ℕ) : Pte := ⟨.page n, true, true, true⟩

/-- The loop of `uvmalloc`, at the page `v`, for the pages from `lo` on. -/
def uvmallocLoop (lo : ℕ) : ℕ → ℕ → Space → Except Panic (Bool × Space)
  | 0, _, S => .ok (true, S)
  | n + 1, v, S =>
    match kalloc S.mem with
    | none => do
      let (_, S) ← uvmdealloc S (v * PGSIZE) (lo * PGSIZE)
      .ok (false, S)
    | some (pa, m) => do
      let (mapped, S) ← mappages ⟨m, S.tbl⟩ v (userPte pa)
      if mapped then uvmallocLoop lo n (v + 1) S
      else do
        let m ← kfree S.mem (.page pa)
        let (_, S) ← uvmdealloc ⟨m, S.tbl⟩ (v * PGSIZE) (lo * PGSIZE)
        .ok (false, S)

/-- `uvmalloc`; zero is an error. -/
def uvmalloc (S : Space) (oldsz newsz : ℕ) : Except Panic (ℕ × Space) :=
  if newsz < oldsz then .ok (oldsz, S)
  else do
    let (done, S) ← uvmallocLoop (pages oldsz) (pages newsz - pages oldsz) (pages oldsz) S
    .ok (if done then newsz else 0, S)

/-- The loop of `uvmcopy`, at the page `v`. -/
def uvmcopyLoop (old : Table) : ℕ → ℕ → Space → Except Panic (Bool × Space)
  | 0, _, S => .ok (true, S)
  | n + 1, v, S => do
    let (found, _) ← walk ⟨S.mem, old⟩ v false
    if found then
      match old.pte v with
      | none => .error .copyPage
      | some e =>
        match kalloc S.mem with
        | none => do
          let S ← uvmunmap S 0 v true
          .ok (false, S)
        | some (pa, m) => do
          let (mapped, S) ←
            mappages ⟨m.fill pa (m.bytes e.frame), S.tbl⟩ v { e with frame := .page pa }
          if mapped then uvmcopyLoop old n (v + 1) S
          else do
            let m ← kfree S.mem (.page pa)
            let S ← uvmunmap ⟨m, S.tbl⟩ 0 v true
            .ok (false, S)
    else .error .copyPte

/-- `uvmcopy` of the table `old` into the table of `S`. -/
def uvmcopy (old : Table) (S : Space) (sz : ℕ) : Except Panic (Bool × Space) :=
  uvmcopyLoop old (pages sz) 0 S

/-- `uvmclear`: the page is not for the user any more. -/
def uvmclear (S : Space) (v : ℕ) : Except Panic Space := do
  let (found, S) ← walk S v false
  if found then
    match S.tbl.pte v with
    | none => .ok S
    | some e => .ok { S with tbl := { S.tbl with leaf := S.tbl.leaf.insert v { e with u := false } } }
  else .error .uvmclear

/-- The pages of the levels of a table. -/
def Table.nodes (T : Table) : List ℕ := T.node.entries.map (·.2) ++ [T.root]

/-- `freewalk`. -/
def freewalk (S : Space) : Except Panic Mem :=
  if S.tbl.leaf.entries.isEmpty then
    .ok { S.mem with freed := S.tbl.nodes ++ S.mem.freed }
  else .error .freewalkLeaf

/-- `uvmfree`. -/
def uvmfree (S : Space) (sz : ℕ) : Except Panic Mem := do
  let S ← (if 0 < sz then uvmunmap S 0 (pages sz) true else .ok S)
  freewalk S

/-- The loop of `copyout`, with a bound on the number of rounds. -/
def copyoutLoop : ℕ → Space → ℕ → List UInt8 → Bool × Space
  | 0, S, _, _ => (true, S)
  | rounds + 1, S, dst, d =>
    if d = [] then (true, S)
    else match walkaddr S (vpn dst) with
      | none => (false, S)
      | some f =>
        let n := min (PGSIZE - dst % PGSIZE) d.length
        copyoutLoop rounds ⟨S.mem.write f (dst % PGSIZE) (d.take n), S.tbl⟩
          ((vpn dst + 1) * PGSIZE) (d.drop n)

/-- `copyout`. A round copies a byte or more. -/
def copyout (S : Space) (dst : ℕ) (d : List UInt8) : Bool × Space :=
  copyoutLoop d.length S dst d

/-! ### The page table of a process -/

/-- The entry of the trampoline, which is not for the user. -/
def trampolinePte : Pte := ⟨.kernel, true, false, false⟩

/-- The entry of the code that returns from a signal handler. -/
def sigreturnPte : Pte := ⟨.kernel, true, false, true⟩

/-- `proc_pagetable`. -/
def procPagetable (m : Mem) : Except Panic (Option Table × Mem) :=
  match kalloc m with
  | none => .ok (none, m)
  | some (root, m) => do
    let (mapped, S) ← mappages ⟨m, ⟨root, ∅, ∅⟩⟩ (vpn TRAMPOLINE) trampolinePte
    if mapped then do
      let (mapped, S) ← mappages S (vpn SIGRETURN) sigreturnPte
      if mapped then .ok (some S.tbl, S.mem)
      else do
        let m ← uvmfree S 0
        .ok (none, m)
    else do
      let m ← uvmfree S 0
      .ok (none, m)

/-- The loop of `proc_freepagetable` over the trap frames of `n` threads. -/
def unmapTrapframes (S : Space) (n : ℕ) : Except Panic Space :=
  (List.range n).foldlM (fun S i => uvmunmap S (threadTrapframe i) 1 false) S

/-- `proc_freepagetable`. If `unmmap_ttf` is set, `threadCnt` is the count of the threads,
and otherwise zero. -/
def procFreepagetable (S : Space) (sz : ℕ) (threadCnt : ℤ) : Except Panic Mem := do
  let S ← uvmunmap S TRAMPOLINE 1 false
  let S ← uvmunmap S SIGRETURN 1 false
  let S ← unmapTrapframes S threadCnt.toNat
  uvmfree S sz

/-- The entry of a trap frame, which is not for the user. -/
def trapframePte (f : Frame) : Pte := ⟨f, true, true, false⟩

/-- `uvm_thread_trapframe`. If there is no page, address zero is mapped. -/
def uvmThreadTrapframe (S : Space) (idx : ℕ) : Except Panic (Option ℕ × Space) := do
  let (f, m) := match kalloc S.mem with
    | none => (Frame.null, S.mem)
    | some (n, m) => (Frame.page n, m)
  let (mapped, S) ← mappages ⟨m, S.tbl⟩ (vpn (threadTrapframe idx)) (trapframePte f)
  if mapped then
    match f with
    | .page n => .ok (some n, S)
    | _ => .ok (none, S)
  else do
    let m ← kfree S.mem f
    .ok (none, ⟨m, S.tbl⟩)

end XVapor.Vm
