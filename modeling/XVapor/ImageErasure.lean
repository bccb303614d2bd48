import XVapor.ExecveImage

/-!
# A Program Is Loaded Without a Look at Memory

`execve` builds the new image in pages of the allocator. Here the bytes of all pages are erased, and
every function that `execve` calls up to the stack gives the same with and without them: its result,
the page table and the pages that it takes and frees. So what the pages held before, for another
process or for the kernel, has no influence on where the stack of the program is and on what is
copied to it.

## Main results

* `prepare_eq`: `execve` loads the image, and then fills the stack.
* `loadImage_bare`: **the image does not depend on the bytes of memory**.
* `stackStart_alike`: neither does the state in which `execve` begins to fill the stack.
-/

namespace XVapor.Vm

/-! ### Erasure -/

/-- The memory without its bytes. -/
def Mem.bare (m : Mem) : Mem := { m with data := fun _ _ => 0 }

/-- The space without the bytes of memory. -/
def Space.bare (S : Space) : Space := ⟨S.mem.bare, S.tbl⟩

/-- What has been loaded, without the bytes of memory. -/
def Load.bare (l : Load) : Load := { l with S := l.S.bare }

/-- The kernel without the bytes of memory. -/
def Kernel.bare (k : Kernel) : Kernel := { k with mem := k.mem.bare }

variable {S : Space} {m : Mem} {k : Kernel}

theorem bind_erased {ε α α' β β' : Type*} {x : Except ε α} {x' : Except ε α'} {g : α → α'}
    {h : β → β'} {f : α → Except ε β} {f' : α' → Except ε β'} (hx : x' = x.map g)
    (hf : ∀ a, f' (g a) = (f a).map h) : x'.bind f' = (x.bind f).map h := by
  subst hx
  cases x with
  | error e => rfl
  | ok a => exact hf a

/-- A flag and a space, without the bytes of memory. -/
abbrev bareSnd {α : Type*} (x : α × Space) : α × Space := (x.1, x.2.bare)

theorem kalloc_bare (m : Mem) : kalloc m.bare = (kalloc m).map fun x => (x.1, x.2.bare) := by
  have hzero : Function.update (fun (_ _ : ℕ) => (0 : UInt8)) m.next (fun _ => 0) = fun _ _ => 0 :=
    Function.update_eq_self_iff.2 rfl
  simp only [kalloc, Mem.bare, Mem.fill, hzero]
  split <;> rfl

theorem walkLevel_bare (S : Space) (level v : ℕ) (alloc : Bool) :
    walkLevel S.bare level v alloc =
      ((walkLevel S level v alloc).1, (walkLevel S level v alloc).2.bare) := by
  simp only [walkLevel, Space.bare, kalloc_bare]
  split
  · rfl
  split
  · cases kalloc S.mem <;> rfl
  · rfl

theorem walk_bare (S : Space) (v : ℕ) (alloc : Bool) :
    walk S.bare v alloc = (walk S v alloc).map bareSnd := by
  rw [walk, walk, walkLevel_bare]
  split
  · rfl
  obtain ⟨found, S'⟩ := walkLevel S 2 v alloc
  cases found with
  | false => rfl
  | true => exact congrArg Except.ok (walkLevel_bare S' 1 v alloc)

theorem walkaddr_bare (S : Space) (v : ℕ) : walkaddr S.bare v = walkaddr S v := by
  rw [walkaddr, walkaddr, walk_bare]
  split
  · rfl
  cases walk S v false with
  | error e => rfl
  | ok x => obtain ⟨found, S'⟩ := x; cases found <;> rfl

theorem mappages_bare (S : Space) (v : ℕ) (e : Pte) :
    mappages S.bare v e = (mappages S v e).map bareSnd := by
  refine bind_erased (walk_bare S v true) ?_
  rintro ⟨found, S'⟩
  obtain _ | _ := found
  · rfl
  dsimp only [bareSnd, Space.bare]
  cases S'.tbl.pte v <;> rfl

/-! ### Pages are taken back -/

theorem unmapPage_bare (S : Space) (v : ℕ) (doFree : Bool) :
    unmapPage S.bare v doFree = (unmapPage S v doFree).map Space.bare := by
  refine bind_erased (walk_bare S v false) ?_
  rintro ⟨found, S'⟩
  obtain _ | _ := found
  · rfl
  dsimp only [bareSnd, Space.bare]
  obtain _ | e := S'.tbl.pte v
  · rfl
  cases doFree with
  | false => rfl
  | true => exact bind_erased (by cases e.frame <;> rfl) fun _ => rfl

theorem unmapPages_bare (doFree : Bool) (n v : ℕ) (S : Space) :
    unmapPages doFree n v S.bare = (unmapPages doFree n v S).map Space.bare := by
  induction n generalizing v S with
  | zero => rfl
  | succ n ih => exact bind_erased (unmapPage_bare S v doFree) fun S' => ih (v + 1) S'

theorem uvmunmap_bare (S : Space) (va npages : ℕ) (doFree : Bool) :
    uvmunmap S.bare va npages doFree = (uvmunmap S va npages doFree).map Space.bare := by
  rw [uvmunmap, uvmunmap]
  split
  · rfl
  · exact unmapPages_bare doFree npages (vpn va) S

theorem uvmdealloc_bare (S : Space) (oldsz newsz : ℕ) :
    uvmdealloc S.bare oldsz newsz = (uvmdealloc S oldsz newsz).map bareSnd := by
  rw [uvmdealloc, uvmdealloc]
  split
  · rfl
  split
  · exact bind_erased (uvmunmap_bare S _ _ true) fun _ => rfl
  · rfl

theorem uvmfree_bare (S : Space) (sz : ℕ) : uvmfree S.bare sz = (uvmfree S sz).map Mem.bare := by
  have hwalk : ∀ S : Space, freewalk S.bare = (freewalk S).map Mem.bare := by
    intro S
    by_cases hleaf : S.tbl.leaf.entries.isEmpty <;> simp only [freewalk, Space.bare, hleaf] <;> rfl
  rw [uvmfree, uvmfree]
  split
  · exact bind_erased (uvmunmap_bare S 0 _ true) hwalk
  · exact hwalk S

/-! ### Pages are given -/

theorem uvmallocLoop_bare (lo n v : ℕ) (S : Space) :
    uvmallocLoop lo n v S.bare = (uvmallocLoop lo n v S).map bareSnd := by
  induction n generalizing v S with
  | zero => rfl
  | succ n ih =>
    rw [uvmallocLoop, uvmallocLoop]
    have hk := kalloc_bare S.mem
    rcases hm : kalloc S.mem with _ | x
    · rw [hm] at hk
      simp only [Space.bare, hk, Option.map_none]
      exact bind_erased (uvmdealloc_bare S _ _) fun _ => rfl
    rw [hm] at hk
    simp only [Space.bare, hk, Option.map_some]
    refine bind_erased (mappages_bare ⟨x.2, S.tbl⟩ v (userPte x.1)) ?_
    rintro ⟨mapped, S'⟩
    cases mapped with
    | true => exact ih (v + 1) S'
    | false =>
      exact bind_erased (uvmdealloc_bare
        ⟨{ S'.mem with freed := x.1 :: S'.mem.freed }, S'.tbl⟩ _ _) fun _ => rfl

theorem uvmalloc_bare (S : Space) (oldsz newsz : ℕ) :
    uvmalloc S.bare oldsz newsz = (uvmalloc S oldsz newsz).map bareSnd := by
  rw [uvmalloc, uvmalloc]
  split
  · rfl
  · exact bind_erased (uvmallocLoop_bare _ _ _ S) fun _ => rfl

theorem uvmclear_bare (S : Space) (v : ℕ) : uvmclear S.bare v = (uvmclear S v).map Space.bare := by
  refine bind_erased (walk_bare S v false) ?_
  rintro ⟨found, S'⟩
  obtain _ | _ := found
  · rfl
  dsimp only [bareSnd, Space.bare]
  cases S'.tbl.pte v <;> rfl

theorem procPagetable_bare (m : Mem) :
    procPagetable m.bare = (procPagetable m).map fun x => (x.1, x.2.bare) := by
  rw [procPagetable, procPagetable, kalloc_bare]
  obtain _ | x := kalloc m
  · rfl
  refine bind_erased (mappages_bare ⟨x.2, ⟨x.1, ∅, ∅⟩⟩ _ _) ?_
  rintro ⟨mapped, S⟩
  obtain _ | _ := mapped
  · exact bind_erased (uvmfree_bare S 0) fun _ => rfl
  refine bind_erased (mappages_bare S _ _) ?_
  rintro ⟨mapped, S⟩
  cases mapped with
  | false => exact bind_erased (uvmfree_bare S 0) fun _ => rfl
  | true => rfl

/-! ### Segments are loaded -/

theorem bind_alike {ε α β β' γ : Type*} {x x' : Except ε α} {g : α → γ} {h : β → β'}
    {f f' : α → Except ε β} (hx : x.map g = x'.map g)
    (hf : ∀ a a', g a = g a' → (f a).map h = (f' a').map h) :
    (x.bind f).map h = (x'.bind f').map h := by
  cases x with
  | error e =>
    cases x' with
    | error e' =>
      cases hx
      rfl
    | ok a' => cases hx
  | ok a =>
    cases x' with
    | error e' => cases hx
    | ok a' => exact hf a a' (Except.ok.inj hx)

theorem walkaddr_alike {S S' : Space} (h : S.bare = S'.bare) (v : ℕ) :
    walkaddr S v = walkaddr S' v := by
  rw [← walkaddr_bare S, ← walkaddr_bare S', h]

theorem write_alike {S S' : Space} (h : S.bare = S'.bare) (f : Frame) (off : ℕ) (d : List UInt8) :
    (⟨S.mem.write f off d, S.tbl⟩ : Space).bare = (⟨S'.mem.write f off d, S'.tbl⟩ : Space).bare := by
  cases f <;> exact h

theorem floadsegLoop_alike (bytes : List UInt8) (offset sz rounds v i : ℕ) {S S' : Space}
    (h : S.bare = S'.bare) : (floadsegLoop bytes offset sz rounds v i S).map bareSnd =
      (floadsegLoop bytes offset sz rounds v i S').map bareSnd := by
  induction rounds generalizing v i S S' with
  | zero => exact congrArg (fun S => Except.ok (true, S)) h
  | succ rounds ih =>
    rw [floadsegLoop, floadsegLoop, walkaddr_alike h]
    obtain _ | f := walkaddr S' v
    · rfl
    dsimp only
    split
    · exact ih _ _ (write_alike h f 0 _)
    · exact congrArg (fun S => Except.ok (false, S)) (write_alike h f 0 _)

theorem floadseg_alike (bytes : List UInt8) (va offset sz : ℕ) {S S' : Space}
    (h : S.bare = S'.bare) : (floadseg S bytes va offset sz).map bareSnd =
      (floadseg S' bytes va offset sz).map bareSnd := by
  rw [floadseg, floadseg]
  split
  · rfl
  · exact floadsegLoop_alike bytes _ _ _ _ _ h

/-- A flag and what has been loaded, without the bytes of memory. -/
abbrev bareLoad {α : Type*} (x : α × Load) : α × Load := (x.1, x.2.bare)

theorem uvmalloc_alike {S S' : Space} (h : S.bare = S'.bare) (oldsz newsz : ℕ) :
    (uvmalloc S oldsz newsz).map bareSnd = (uvmalloc S' oldsz newsz).map bareSnd := by
  rw [← uvmalloc_bare, ← uvmalloc_bare, h]

theorem Load.bare_eq_iff {l l' : Load} : l.bare = l'.bare ↔ l.S.bare = l'.S.bare ∧ l.sz = l'.sz ∧
    l.interp = l'.interp ∧ l.proghBase = l'.proghBase := by
  simp [Load.bare]

theorem loadSegment_alike (base : ℕ) (bytes : List UInt8) (ph : Proghdr) {l l' : Load}
    (h : l.bare = l'.bare) : (loadSegment base bytes ph l).map bareLoad =
      (loadSegment base bytes ph l').map bareLoad := by
  obtain ⟨hS, hsz, hint, hbase⟩ := Load.bare_eq_iff.1 h
  rw [loadSegment, loadSegment]
  split
  · exact congrArg (fun l => Except.ok (false, l)) h
  split
  · exact congrArg (fun l => Except.ok (false, l)) h
  rw [hsz]
  refine bind_alike (uvmalloc_alike hS _ _) ?_
  rintro ⟨sz, S1⟩ ⟨sz', S1'⟩ ha
  obtain ⟨rfl, hS1⟩ := Prod.mk.inj ha
  dsimp only at hS1 ⊢
  split
  · exact congrArg (fun l => Except.ok (false, l))
      (Load.bare_eq_iff.2 ⟨hS1, rfl, hint, hbase⟩)
  refine bind_alike (floadseg_alike bytes _ _ _ hS1) ?_
  rintro ⟨loaded, S2⟩ ⟨loaded', S2'⟩ hb
  obtain ⟨rfl, hS2⟩ := Prod.mk.inj hb
  exact congrArg (fun l => Except.ok (loaded, l))
    (Load.bare_eq_iff.2 ⟨hS2, rfl, hint, congrArg (· <|> some _) hbase⟩)

theorem loadSegments_alike (base : ℕ) (bytes : List UInt8) (n : ℕ) (off : ℤ) {l l' : Load}
    (h : l.bare = l'.bare) : (loadSegments base bytes n off l).map bareLoad =
      (loadSegments base bytes n off l').map bareLoad := by
  induction n generalizing off l l' with
  | zero => exact congrArg (fun l => Except.ok (true, l)) h
  | succ n ih =>
    obtain ⟨hS, hsz, hint, hbase⟩ := Load.bare_eq_iff.1 h
    rw [loadSegments, loadSegments]
    dsimp only
    split
    · exact congrArg (fun l => Except.ok (false, l)) h
    have h1 : ∀ b, ({ l with interp := l.interp || b } : Load).bare =
        ({ l' with interp := l'.interp || b } : Load).bare := fun b =>
      Load.bare_eq_iff.2 ⟨hS, hsz, congrArg (· || b) hint, hbase⟩
    split
    · exact ih _ (h1 _)
    refine bind_alike (loadSegment_alike base bytes _ (h1 _)) ?_
    rintro ⟨done, l1⟩ ⟨done', l1'⟩ ha
    obtain ⟨rfl, hl1⟩ := Prod.mk.inj ha
    cases done with
    | true => exact ih _ hl1
    | false => exact congrArg (fun l => Except.ok (false, l)) hl1

/-! ### The image -/

/-- An image that is loaded, but has no stack: what the auxiliary vector is made from. -/
structure Loaded where
  load : Load
  elf : Elfhdr
  proghBase : ℕ
  interpBase : ℕ

/-- The program and the dynamic linker are loaded into the new page table. -/
def loadProgram (k : Kernel) (f : Option (List UInt8)) (bytes : List UInt8) (elf : Elfhdr)
    (S : Space) : Except Panic (Prep ⊕ Kernel × Loaded) := do
  let (loaded, l) ← loadSegments 0 bytes elf.phnum (Int.bmod elf.phoff (2 ^ 32))
    ⟨S, 0, false, none⟩
  let k := vfclose k f
  if loaded = false then .ok (.inl (.bad k l.S l.sz))
  else if l.interp then do
    let (loaded, k, l') ← loadInterp k l
    if loaded = false then .ok (.inl (.bad k l'.S l'.sz))
    else .ok (.inr (k, ⟨l', elf, l.proghBase.getD 0, pages l.sz * PGSIZE⟩))
  else .ok (.inr (k, ⟨l, elf, l.proghBase.getD 0, 0⟩))

/-- `execve` up to the stack: it ends before, or the image is loaded. -/
def loadImage (k : Kernel) (path : String) : Except Panic (Prep ⊕ Kernel × Loaded) :=
  match filealloc k with
  | none => .ok (.inl (.fail k))
  | some k => match vfopen k path with
    | none => .ok (.inl (.fail k))
    | some (f, k) => match readHeader f with
      | none => .ok (.inl (.fail (vfclose k f)))
      | some (bytes, elf) =>
        if elf.magic ≠ ELF_MAGIC then .ok (.inl (.fail (vfclose k f)))
        else do
          let (T, mem) ← procPagetable k.mem
          match T with
          | none => .ok (.inl (.fail (vfclose { k with mem } f)))
          | some T => loadProgram k f bytes elf ⟨mem, T⟩

/-- What follows when the image is loaded. -/
def thenStack (argv envp : List (List UInt8)) : Prep ⊕ Kernel × Loaded → Except Panic Prep
  | .inl r => .ok r
  | .inr (k, x) => prepareStack k x.load (auxv x.elf x.proghBase x.interpBase) argv envp

theorem prepareImage_eq (k : Kernel) (f : Option (List UInt8)) (bytes : List UInt8) (elf : Elfhdr)
    (S : Space) (argv envp : List (List UInt8)) : prepareImage k f bytes elf S argv envp =
      (loadProgram k f bytes elf S).bind (thenStack argv envp) := by
  simp only [prepareImage, loadProgram, bind, Except.bind]
  obtain e | x := loadSegments 0 bytes elf.phnum (Int.bmod elf.phoff (2 ^ 32)) ⟨S, 0, false, none⟩
  · rfl
  dsimp only
  split
  · rfl
  split
  next =>
    obtain e | y := loadInterp (vfclose k f) x.2
    · rfl
    dsimp only
    split <;> rfl
  next => rfl

/-- **`execve` loads the image, and then fills the stack.** -/
theorem prepare_eq (k : Kernel) (path : String) (argv envp : List (List UInt8)) :
    prepare k path argv envp = (loadImage k path).bind (thenStack argv envp) := by
  rw [prepare, loadImage]
  obtain _ | k := filealloc k
  · rfl
  dsimp only
  obtain _ | ⟨f, k⟩ := vfopen k path
  · rfl
  dsimp only
  obtain _ | ⟨bytes, elf⟩ := readHeader f
  · rfl
  dsimp only
  split
  · rfl
  obtain e | ⟨T, mem⟩ := procPagetable k.mem
  · rfl
  cases T with
  | none => rfl
  | some T => exact prepareImage_eq k f bytes elf ⟨mem, T⟩ argv envp

/-- The image without the bytes of memory, if it is loaded. -/
def bareImage : Prep ⊕ Kernel × Loaded → Option Loaded
  | .inl _ => none
  | .inr (_, x) => some { x with load := x.load.bare }

theorem filealloc_mem (k : Kernel) (m : Mem) : filealloc { k with mem := m } =
    (filealloc k).map fun k => { k with mem := m } := by
  simp only [filealloc]
  split <;> rfl

theorem vfopen_mem (k : Kernel) (m : Mem) (path : String) : vfopen { k with mem := m } path =
    (vfopen k path).map fun x => (x.1, { x.2 with mem := m }) := by
  simp only [vfopen]
  obtain _ | i := k.inode path
  · rfl
  cases i with
  | dir => rfl
  | reg bytes =>
    dsimp only
    split <;> rfl

theorem loadInterp_alike (k : Kernel) (m : Mem) {l l' : Load} (h : l.bare = l'.bare) :
    (loadInterp k l).map (fun x => (x.1, x.2.2.bare)) =
      (loadInterp { k with mem := m } l').map fun x => (x.1, x.2.2.bare) := by
  have hfalse : ∀ k k' : Kernel, Except.map (fun x : Bool × Kernel × Load => (x.1, x.2.2.bare))
      (.ok (false, k, l) : Except Panic _) = Except.map (fun x => (x.1, x.2.2.bare))
        (.ok (false, k', l')) := fun _ _ => congrArg (fun l => Except.ok (false, l)) h
  obtain ⟨hS, hsz, hint, hbase⟩ := Load.bare_eq_iff.1 h
  rw [loadInterp, loadInterp, filealloc_mem k m]
  obtain _ | k := filealloc k
  · exact hfalse _ _
  dsimp only [Option.map_some]
  rw [vfopen_mem k m]
  obtain _ | ⟨f, k⟩ := vfopen k interpPath
  · exact hfalse _ _
  dsimp only [Option.map_some]
  obtain _ | ⟨bytes, elf⟩ := readHeader f
  · exact hfalse _ _
  dsimp only
  split
  · exact hfalse _ _
  rw [hsz]
  refine bind_alike (loadSegments_alike _ bytes _ _ h) ?_
  rintro ⟨done, l1⟩ ⟨done', l1'⟩ ha
  obtain ⟨rfl, hl1⟩ := Prod.mk.inj ha
  obtain ⟨hS1, hsz1, -, -⟩ := Load.bare_eq_iff.1 hl1
  exact congrArg (fun l => Except.ok (done, l))
    (Load.bare_eq_iff.2 ⟨hS1, hsz1, hint, hbase⟩)

theorem loadProgram_alike (k : Kernel) (m : Mem) (f : Option (List UInt8)) (bytes : List UInt8)
    (elf : Elfhdr) {S S' : Space} (h : S.bare = S'.bare) :
    (loadProgram k f bytes elf S).map bareImage =
      (loadProgram { k with mem := m } f bytes elf S').map bareImage := by
  have h0 : (⟨S, 0, false, none⟩ : Load).bare = (⟨S', 0, false, none⟩ : Load).bare :=
    Load.bare_eq_iff.2 ⟨h, rfl, rfl, rfl⟩
  refine bind_alike (loadSegments_alike 0 bytes _ _ h0) fun ⟨done, l⟩ ⟨done', l'⟩ ha => ?_
  obtain ⟨rfl, hl⟩ := Prod.mk.inj ha
  obtain ⟨hS, hsz, hint, hbase⟩ := Load.bare_eq_iff.1 hl
  dsimp only at hS hsz hint hbase ⊢
  obtain _ | _ := done
  · rfl
  simp only [Bool.true_eq_false, if_false, hint]
  split
  next =>
    have hclose : vfclose { k with mem := m } f = { vfclose k f with mem := m } := by
      cases f <;> rfl
    rw [hclose]
    refine bind_alike (loadInterp_alike (vfclose k f) m hl)
      fun ⟨done, k1, l1⟩ ⟨done', k1', l1'⟩ hb => ?_
    obtain ⟨rfl, hl1⟩ := Prod.mk.inj hb
    dsimp only at hl1 ⊢
    obtain _ | _ := done
    · rfl
    simp only [Bool.true_eq_false, if_false, hbase, hsz]
    exact congrArg (fun l => Except.ok (some (⟨l, elf, _, _⟩ : Loaded))) hl1
  next =>
    rw [hbase]
    exact congrArg (fun l => Except.ok (some (⟨l, elf, _, _⟩ : Loaded))) hl

/-- **The image does not depend on the bytes of memory.** -/
theorem loadImage_bare {k k' : Kernel} (h : k.bare = k'.bare) (path : String) :
    (loadImage k path).map bareImage = (loadImage k' path).map bareImage := by
  -- the two kernels differ in their memory only
  obtain ⟨m, hm, rfl⟩ : ∃ m : Mem, k.mem.bare = m.bare ∧ k' = { k with mem := m } := by
    obtain ⟨m, tables, proc, nfile, npool, file, inode⟩ := k
    obtain ⟨m', tables', proc', nfile', npool', file', inode'⟩ := k'
    simp only [Kernel.bare, Kernel.mk.injEq] at h
    obtain ⟨hm, rfl, rfl, rfl, rfl, rfl, rfl⟩ := h
    exact ⟨m', hm, rfl⟩
  rw [loadImage, loadImage, filealloc_mem k m]
  rcases hk1 : filealloc k with _ | k1
  · rfl
  dsimp only [Option.map_some]
  rw [vfopen_mem k1 m]
  rcases hf : vfopen k1 path with _ | ⟨f, k2⟩
  · rfl
  dsimp only [Option.map_some]
  obtain _ | ⟨bytes, elf⟩ := readHeader f
  · rfl
  dsimp only
  split
  · rfl
  have hpt : (procPagetable k2.mem).map (fun x => (x.1, x.2.bare)) =
      (procPagetable m).map fun x => (x.1, x.2.bare) := by
    rw [← procPagetable_bare, ← procPagetable_bare, (vfopen_ok hf).mem,
      (filealloc_ok hk1).1.mem, hm]
  refine bind_alike hpt fun ⟨T, mem⟩ ⟨T', mem'⟩ ha => ?_
  obtain ⟨rfl, hmem'⟩ := Prod.mk.inj ha
  obtain _ | T := T
  · rfl
  exact loadProgram_alike k2 m f bytes elf
    (congrArg (fun m => (⟨m, T⟩ : Space)) hmem')

/-! ### The stack -/

/-- The pages of the stack are allocated behind the image, and the lowest is cleared: whether there
are pages, the size of the image, and its space. -/
def stackSpace (l : Load) : Except Panic (Bool × ℕ × Space) := do
  let lo := pages l.sz * PGSIZE
  let (sz, S) ← uvmalloc l.S lo (lo + 64 * PGSIZE)
  if sz = 0 then .ok (false, lo, S)
  else do
    let S ← uvmclear S (vpn (sz - 64 * PGSIZE))
    .ok (true, sz, S)

theorem stackSpace_alike {l l' : Load} (h : l.bare = l'.bare) :
    (stackSpace l).map (fun x => (x.1, x.2.1, x.2.2.bare)) =
      (stackSpace l').map fun x => (x.1, x.2.1, x.2.2.bare) := by
  obtain ⟨hS, hsz, -, -⟩ := Load.bare_eq_iff.1 h
  rw [stackSpace, stackSpace, hsz]
  refine bind_alike (uvmalloc_alike hS _ _) fun ⟨sz, S⟩ ⟨sz', S'⟩ ha => ?_
  obtain ⟨rfl, hS1⟩ := Prod.mk.inj ha
  dsimp only at hS1 ⊢
  split
  · exact congrArg (fun S => Except.ok (false, _, S)) hS1
  have hclear : ∀ v, (uvmclear S v).map Space.bare = (uvmclear S' v).map Space.bare := fun v => by
    rw [← uvmclear_bare, ← uvmclear_bare, hS1]
  refine bind_alike (hclear _) fun S S' hb => ?_
  exact congrArg (fun S => Except.ok (true, sz, S)) hb

/-- Where `execve` begins to fill the stack: what the auxiliary vector is made from, the size of
the image, and its space. -/
structure StackStart where
  elf : Elfhdr
  proghBase : ℕ
  interpBase : ℕ
  sz : ℕ
  S : Space

/-- `execve` up to the stack, if it comes there. -/
def stackStart (k : Kernel) (path : String) : Except Panic (Option StackStart) := do
  match ← loadImage k path with
  | .inl _ => .ok none
  | .inr (_, x) => do
    let (made, sz, S) ← stackSpace x.load
    .ok (if made then some ⟨x.elf, x.proghBase, x.interpBase, sz, S⟩ else none)

/-- **The start of the stack does not depend on the bytes of memory.** -/
theorem stackStart_alike {k k' : Kernel} (h : k.bare = k'.bare) (path : String) :
    (stackStart k path).map (Option.map fun y => { y with S := y.S.bare }) =
      (stackStart k' path).map (Option.map fun y => { y with S := y.S.bare }) := by
  refine bind_alike (loadImage_bare h path) fun x x' ha => ?_
  obtain r | x := x
  · cases x' with
    | inl r' => rfl
    | inr x' => cases ha
  obtain r' | x' := x'
  · cases ha
  obtain ⟨k1, ⟨l, elf, b, i⟩⟩ := x
  obtain ⟨k1', ⟨l', elf', b', i'⟩⟩ := x'
  obtain ⟨hl, rfl, rfl, rfl⟩ := Loaded.mk.inj (Option.some.inj ha)
  refine bind_alike (stackSpace_alike hl) fun ⟨made, sz, S⟩ ⟨made', sz', S'⟩ hb => ?_
  obtain ⟨rfl, hb⟩ := Prod.mk.inj hb
  obtain ⟨rfl, hS⟩ := Prod.mk.inj hb
  cases made with
  | false => rfl
  | true => exact congrArg (fun S => Except.ok (some (⟨elf, b, i, sz, S⟩ : StackStart))) hS

theorem stackStart_some {k k' : Kernel} {path : String} {y : StackStart} (h : k.bare = k'.bare)
    (hy : stackStart k path = .ok (some y)) :
    ∃ S', stackStart k' path = .ok (some { y with S := S' }) ∧ y.S.bare = S'.bare := by
  have halike := stackStart_alike h path
  rw [hy] at halike
  rcases hy' : stackStart k' path with e | o
  · rw [hy'] at halike
    cases halike
  rw [hy'] at halike
  obtain ⟨⟨elf, b, i, sz, S'⟩, rfl, heq⟩ := Option.map_eq_some_iff.1 (Except.ok.inj halike).symm
  obtain ⟨rfl, rfl, rfl, rfl, hS⟩ := StackStart.mk.inj heq
  exact ⟨S', rfl, hS.symm⟩

end XVapor.Vm
