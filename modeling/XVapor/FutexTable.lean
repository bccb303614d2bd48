import Mathlib.Data.List.Nodup
import Mathlib.Data.List.Pairwise

/-!
# The Futex Table

`kernel/ipc/futex.c` keeps every futex in one hash table keyed by the user address
alone. This module embeds the table with the page allocator under it: the bucket lists
of `futex_hash_node`s, `get_futex`, `futex_free`, and `kmalloc`/`kfree` on whole pages.

Pages are typed by what was last stored in them, so that a pointer kept after `kfree`
and a pointer cast to the wrong struct are visible: `__futex_hash_delete` treats the
`struct futex *` returned by the lookup as a `struct futex_hash_node *` and reads
`fhn->fp`, which is the second word of a `struct futex`, its `lock.name`.
-/

namespace XVapor.FutexTable

open Function

/-- A user virtual address. -/
abbrev UAddr := UInt64

/-- `FUTEX_NUM`, the number of buckets. -/
def futexNum : ℕ := 32

/-- What a kernel pointer read in `futex.c` can hold: the address of a page of the
allocator, the address of a string in the kernel image (below `end`), or the fill
pattern of a page that is not in use. -/
inductive Ptr
  | page (pa : ℕ)
  | image (name : String)
  | junk
  deriving DecidableEq, Repr

/-- `struct futex`: the spinlock, of which only `lock.name` is ever read back, and the
threads on `waiting_queue` in queue order. -/
structure Futex (T : Type) where
  lockName : Ptr
  waitingQueue : List T
  deriving DecidableEq, Repr

/-- `struct futex_hash_node` without its list links. -/
structure FutexHashNode where
  uaddr : UAddr
  fp : ℕ
  deriving DecidableEq, Repr

/-- The contents of a page: on the free list, handed out and still zero, or the struct
stored in it. -/
inductive Page (T : Type)
  | free
  | zero
  | futex (f : Futex T)
  | node (n : FutexHashNode)
  deriving DecidableEq, Repr

/-- The word at offset 8 of a page, read by `fhn->fp` whatever the page holds. -/
def Page.word8 {T : Type} : Page T → Ptr
  | .free => .junk
  | .zero => .junk
  | .futex f => f.lockName
  | .node n => .page n.fp

/-- How a call can fail to return: `panic` with its message, a string that `printf` cannot load
from its address, or an access to a page that does not hold what the code takes it for, after
which nothing is known. -/
inductive Fault
  | panic (msg : String)
  | load (addr : ℕ)
  | wild
  deriving DecidableEq, Repr

/-- `printf("%s\n", arg)` and then `panic(msg)`, where `arg` is a small number: 0 is printed as
`(null)`, and at the other addresses nothing is mapped. -/
def Fault.printed (arg : ℕ) (msg : String) : Fault := if arg = 0 then .panic msg else .load arg

/-- The allocator and the table: page contents, the free list, and for each bucket the
pages of its nodes in list order. -/
structure Kern (T : Type) where
  page : ℕ → Page T
  freelist : List ℕ
  bucket : ℕ → List ℕ

variable {T : Type}

/-- The table after `futex_hash_init`, with pages `0 … n - 1` on the free list. -/
def boot (n : ℕ) : Kern T where
  page := fun _ => .free
  freelist := List.range n
  bucket := fun _ => []

/-! ### The page allocator -/

/-- `kmalloc`: the first page of the free list, zero-filled. -/
def kmalloc (k : Kern T) : Option (ℕ × Kern T) :=
  match k.freelist with
  | [] => none
  | pa :: rest =>
    some (pa, { k with page := update k.page pa .zero, freelist := rest })

/-- `kfree`. Anything but a page address fails its range check and panics. A page that
is free already would be linked to itself in the free list; the model stops there. -/
def kfree (k : Kern T) : Ptr → Except Fault (Kern T)
  | .page pa =>
    match k.page pa with
    | .free => .error .wild
    | _ => .ok { k with
        page := update k.page pa .free
        freelist := pa :: k.freelist }
  | .image _ => .error (.panic "kfree")
  | .junk => .error (.panic "kfree")

/-! ### The hash table -/

/-- `hash_get_entry` with `__futex_hash_key`: the bucket of an address. -/
def hashGetEntry (uaddr : UAddr) : ℕ := uaddr.toNat % futexNum

/-- The list walk of `__futex_hash_lookup` over the nodes of one bucket. -/
def lookupIn (page : ℕ → Page T) (uaddr : UAddr) : List ℕ → Except Fault (Option ℕ)
  | [] => .ok none
  | pos :: rest =>
    match page pos with
    | .node n => if n.uaddr = uaddr then .ok (some n.fp) else lookupIn page uaddr rest
    | _ => .error .wild

/-- `__futex_hash_lookup`: the futex of the first node for `uaddr`. -/
def futexHashLookup (k : Kern T) (uaddr : UAddr) : Except Fault (Option ℕ) :=
  lookupIn k.page uaddr (k.bucket (hashGetEntry uaddr))

/-- `__futex_hash_insert`: `-1` if a node for the address exists, else the node is
appended to its bucket. -/
def futexHashInsert (k : Kern T) (fhn : ℕ) : Except Fault (Int × Kern T) :=
  match k.page fhn with
  | .node n =>
    match futexHashLookup k n.uaddr with
    | .error e => .error e
    | .ok (some _) => .ok (-1, k)
    | .ok none =>
      .ok (0, { k with
        bucket := update k.bucket (hashGetEntry n.uaddr)
          (k.bucket (hashGetEntry n.uaddr) ++ [fhn]) })
  | _ => .error .wild

/-- `list_del` on the node stored in page `fhn`. -/
def listDel (k : Kern T) (fhn : ℕ) : Kern T :=
  { k with bucket := fun i => (k.bucket i).erase fhn }

/-- `__futex_hash_delete`. The pointer it takes for a node is the futex that the lookup
returned, so `fhn->fp` is read through `Page.word8`. -/
def futexHashDelete (k : Kern T) (uaddr : UAddr) : Except Fault (Kern T) :=
  match futexHashLookup k uaddr with
  | .error e => .error e
  | .ok none => .ok k
  | .ok (some fhn) =>
    match kfree k (k.page fhn).word8 with
    | .error e => .error e
    | .ok k => kfree (listDel k fhn) (.page fhn)

/-- `futex_free`. -/
def futexFree (k : Kern T) (uaddr : UAddr) : Except Fault (Kern T) :=
  futexHashDelete k uaddr

/-! ### `get_futex` -/

/-- `futex_init` on a fresh page. -/
def futexInit (k : Kern T) (fp : ℕ) (name : String) : Kern T :=
  { k with page := update k.page fp (.futex ⟨.image name, []⟩) }

/-- How the locked part of `get_futex` ends: a `goto bad`, with the value `fp` has there
(`fhn` is `NULL` at every such `goto`), or the normal return. -/
inductive GetRes
  | bad (fp : Option ℕ)
  | got (fp : ℕ)
  deriving DecidableEq, Repr

/-- The part of `get_futex` between `acquire` and `release` of the table lock. -/
def getFutexLocked (k : Kern T) (uaddr : UAddr) (assert : Bool) :
    Except Fault (GetRes × Kern T) :=
  match futexHashLookup k uaddr with
  | .error e => .error e
  -- found: the jump to `bad` is taken with `fp` set to the futex just found
  | .ok (some fp) => .ok (.bad (some fp), k)
  | .ok none =>
    if assert then .ok (.bad none, k)
    else
      match kmalloc k with
      | none => .ok (.bad none, k)
      | some (fp, k) =>
        let k := futexInit k fp "futex"
        match kmalloc k with
        | none => .ok (.bad (some fp), k)
        | some (fhn, k) =>
          let k := { k with page := update k.page fhn (.node ⟨uaddr, fp⟩) }
          match futexHashInsert k fhn with
          | .error e => .error e
          | .ok (_, k) => .ok (.got fp, k)

/-- The code at the label `bad`, after the table lock has been released. -/
def getFutexBad (k : Kern T) : Option ℕ → Except Fault (Kern T)
  | none => .ok k
  | some fp => kfree k (.page fp)

/-- `get_futex`: the futex, or `none` for `NULL`. -/
def getFutex (k : Kern T) (uaddr : UAddr) (assert : Bool) :
    Except Fault (Option ℕ × Kern T) :=
  match getFutexLocked k uaddr assert with
  | .error e => .error e
  | .ok (.got fp, k) => .ok (some fp, k)
  | .ok (.bad fp, k) =>
    match getFutexBad k fp with
    | .error e => .error e
    | .ok k => .ok (none, k)

/-! ### Well-formed tables -/

/-- The table has a node for `uaddr`, whoever created it. -/
def HasNode (k : Kern T) (uaddr : UAddr) : Prop :=
  ∃ pos ∈ k.bucket (hashGetEntry uaddr), ∃ fp, k.page pos = .node ⟨uaddr, fp⟩

/-- A **well-formed table**: every bucket entry is a node of that bucket whose futex is
live, an address has one node, and the free list holds free pages only. -/
structure Wf (k : Kern T) : Prop where
  node_live : ∀ i, ∀ pos ∈ k.bucket i, ∃ n q, k.page pos = .node n ∧
    hashGetEntry n.uaddr = i ∧ k.page n.fp = .futex ⟨.image "futex", q⟩
  nodup : ∀ i, (k.bucket i).Nodup
  key_inj : ∀ i, ∀ pos ∈ k.bucket i, ∀ pos' ∈ k.bucket i, ∀ n n',
    k.page pos = .node n → k.page pos' = .node n' → n.uaddr = n'.uaddr → pos = pos'
  free : ∀ pa ∈ k.freelist, k.page pa = .free
  freelist_nodup : k.freelist.Nodup

theorem wf_boot (n : ℕ) : Wf (boot n : Kern T) where
  node_live := by simp [boot]
  nodup := by simp [boot]
  key_inj := by simp [boot]
  free := by simp [boot]
  freelist_nodup := List.nodup_range

variable {l : List ℕ}

theorem lookupIn_cases {page : ℕ → Page T} (uaddr : UAddr)
    (hl : ∀ pos ∈ l, ∃ n, page pos = .node n) :
    (lookupIn page uaddr l = .ok none ∧ ∀ pos ∈ l, ∀ fp, page pos ≠ .node ⟨uaddr, fp⟩) ∨
    ∃ pos ∈ l, ∃ fp, page pos = .node ⟨uaddr, fp⟩ ∧
      lookupIn page uaddr l = .ok (some fp) := by
  induction l with
  | nil => exact .inl ⟨rfl, by simp⟩
  | cons pos rest ih =>
    obtain ⟨n, hn⟩ := hl pos (by simp)
    obtain rfl | hu := eq_or_ne n.uaddr uaddr
    · exact .inr ⟨pos, by simp, n.fp, hn, by simp [lookupIn, hn]⟩
    have hstep : lookupIn page uaddr (pos :: rest) = lookupIn page uaddr rest := by
      simp [lookupIn, hn, hu]
    rw [hstep]
    rcases ih fun p hp => hl p (by simp [hp]) with ⟨h, hno⟩ | ⟨p, hp, fp, hpf, h⟩
    · refine .inl ⟨h, ?_⟩
      intro p hp fp hpf
      rcases List.mem_cons.mp hp with rfl | hp
      · rw [hn, Page.node.injEq] at hpf
        exact hu (by rw [hpf])
      · exact hno p hp fp hpf
    · exact .inr ⟨p, by simp [hp], fp, hpf, h⟩

theorem lookupIn_congr {page page' : ℕ → Page T} {uaddr : UAddr}
    (h : ∀ pos ∈ l, page' pos = page pos) :
    lookupIn page' uaddr l = lookupIn page uaddr l := by
  induction l with
  | nil => rfl
  | cons pos rest ih =>
    simp only [lookupIn, h pos (by simp), ih fun p hp => h p (by simp [hp])]

section

variable {k : Kern T} {uaddr : UAddr}

theorem Wf.bucket_nodes (hw : Wf k) (i : ℕ) : ∀ pos ∈ k.bucket i, ∃ n, k.page pos = .node n := by
  intro pos hpos
  obtain ⟨n, -, hn, -⟩ := hw.node_live _ pos hpos
  exact ⟨n, hn⟩

theorem Wf.lookup_absent (hw : Wf k) (h : ¬ HasNode k uaddr) :
    futexHashLookup k uaddr = .ok none := by
  rcases lookupIn_cases uaddr (hw.bucket_nodes _) with ⟨h', -⟩ | ⟨pos, hpos, fp, hn, -⟩
  · exact h'
  · exact absurd ⟨pos, hpos, fp, hn⟩ h

theorem Wf.lookup_present (hw : Wf k) (h : HasNode k uaddr) :
    ∃ pos ∈ k.bucket (hashGetEntry uaddr), ∃ fp q, k.page pos = .node ⟨uaddr, fp⟩ ∧
      k.page fp = .futex ⟨.image "futex", q⟩ ∧
      futexHashLookup k uaddr = .ok (some fp) := by
  obtain ⟨pos0, hpos0, fp0, hn0⟩ := h
  rcases lookupIn_cases uaddr (hw.bucket_nodes _) with ⟨-, hno⟩ | ⟨pos, hpos, fp, hn, hlook⟩
  · exact absurd hn0 (hno pos0 hpos0 fp0)
  · obtain ⟨n, q, hn', -, hf⟩ := hw.node_live _ pos hpos
    rw [hn, Page.node.injEq] at hn'
    subst hn'
    exact ⟨pos, hpos, fp, q, hn, hf, hlook⟩

variable {fp pa i fhn pos : ℕ}

theorem Wf.lookup_eq_some_iff (hw : Wf k) :
    futexHashLookup k uaddr = .ok (some fp) ↔
      ∃ pos ∈ k.bucket (hashGetEntry uaddr), k.page pos = .node ⟨uaddr, fp⟩ := by
  constructor
  · intro hlook
    by_cases h : HasNode k uaddr
    · obtain ⟨pos, hpos, fp', -, hn, -, hlook'⟩ := hw.lookup_present h
      rw [hlook', Except.ok.injEq, Option.some.injEq] at hlook
      exact ⟨pos, hpos, hlook ▸ hn⟩
    · rw [hw.lookup_absent h] at hlook
      cases hlook
  · rintro ⟨pos, hpos, hn⟩
    obtain ⟨pos', hpos', fp', -, hn', -, hlook⟩ := hw.lookup_present ⟨pos, hpos, fp, hn⟩
    obtain rfl := hw.key_inj _ pos hpos pos' hpos' _ _ hn hn' rfl
    rw [hn, Page.node.injEq, FutexHashNode.mk.injEq] at hn'
    rw [hlook, hn'.2]

/-- The table after a futex for `uaddr` was created in page `fp` with its node in page
`fhn`. -/
def withFutex (k : Kern T) (uaddr : UAddr) (fp fhn : ℕ) (rest : List ℕ) : Kern T where
  page := update (update k.page fp (.futex ⟨.image "futex", []⟩)) fhn
    (.node ⟨uaddr, fp⟩)
  freelist := rest
  bucket := update k.bucket (hashGetEntry uaddr)
    (k.bucket (hashGetEntry uaddr) ++ [fhn])

theorem Wf.not_mem_bucket_of_free (hw : Wf k) (h : k.page pa = .free) :
    pa ∉ k.bucket i := by
  intro hmem
  obtain ⟨n, -, hn, -⟩ := hw.node_live i pa hmem
  rw [h] at hn
  cases hn

theorem exists_pages (h : 2 ≤ k.freelist.length) :
    ∃ fp fhn rest, k.freelist = fp :: fhn :: rest := by
  match hfl : k.freelist with
  | [] => simp [hfl] at h
  | [_] => simp [hfl] at h
  | fp :: fhn :: rest => exact ⟨fp, fhn, rest, rfl⟩

variable {rest : List ℕ}

theorem Wf.getFutexLocked_create (hw : Wf k) (h : ¬ HasNode k uaddr)
    (hfl : k.freelist = fp :: fhn :: rest) :
    getFutexLocked k uaddr false = .ok (.got fp, withFutex k uaddr fp fhn rest) := by
  have hlook : lookupIn k.page uaddr (k.bucket (hashGetEntry uaddr)) = .ok none :=
    hw.lookup_absent h
  have hfp : k.page fp = .free := hw.free fp (by simp [hfl])
  have hfhn : k.page fhn = .free := hw.free fhn (by simp [hfl])
  have hpage : update (update (update (update k.page
      fp .zero) fp (.futex ⟨.image "futex", []⟩)) fhn .zero) fhn (.node ⟨uaddr, fp⟩) =
      (withFutex k uaddr fp fhn rest).page := by
    simp [withFutex]
  have hlook' : lookupIn (withFutex k uaddr fp fhn rest).page uaddr
      (k.bucket (hashGetEntry uaddr)) = .ok none := by
    rw [← hlook]
    refine lookupIn_congr fun pos hpos => ?_
    have h1 : pos ≠ fp := fun e => hw.not_mem_bucket_of_free hfp (e ▸ hpos)
    have h2 : pos ≠ fhn := fun e => hw.not_mem_bucket_of_free hfhn (e ▸ hpos)
    simp [withFutex, h1, h2]
  simp only [getFutexLocked, futexHashLookup, hlook, kmalloc, hfl, futexInit,
    Bool.false_eq_true, if_false, hpage, futexHashInsert]
  simp only [withFutex, update_self] at hlook' ⊢
  simp only [hlook']

theorem mem_bucket_withFutex :
    pos ∈ (withFutex k uaddr fp fhn rest).bucket i ↔
      pos ∈ k.bucket i ∨ (i = hashGetEntry uaddr ∧ pos = fhn) := by
  by_cases hi : i = hashGetEntry uaddr
  · subst hi
    simp [withFutex]
  · simp [withFutex, hi]

@[simp]
theorem page_withFutex_node :
    (withFutex k uaddr fp fhn rest).page fhn = .node ⟨uaddr, fp⟩ := by
  simp [withFutex]

section

variable (hw : Wf k)
include hw

theorem Wf.page_withFutex (uaddr : UAddr)
    (hfl : k.freelist = fp :: fhn :: rest) (hpa : k.page pa ≠ .free) :
    (withFutex k uaddr fp fhn rest).page pa = k.page pa := by
  have h1 : pa ≠ fp := fun e => hpa (e ▸ hw.free fp (by simp [hfl]))
  have h2 : pa ≠ fhn := fun e => hpa (e ▸ hw.free fhn (by simp [hfl]))
  simp [withFutex, h1, h2]

theorem Wf.page_withFutex_of_mem
    (hfl : k.freelist = fp :: fhn :: rest) (hpos : pos ∈ k.bucket i) :
    (withFutex k uaddr fp fhn rest).page pos = k.page pos :=
  hw.page_withFutex uaddr hfl fun e => hw.not_mem_bucket_of_free e hpos

theorem Wf.key_ne (h : ¬ HasNode k uaddr) {n : FutexHashNode}
    (hpos : pos ∈ k.bucket i) (hn : k.page pos = .node n) : n.uaddr ≠ uaddr := by
  intro e
  obtain ⟨n', q, hn', hi, -⟩ := hw.node_live i pos hpos
  rw [hn, Page.node.injEq] at hn'
  subst hn' e
  exact h ⟨pos, hi ▸ hpos, n.fp, hn⟩

theorem Wf.pages_ne (hfl : k.freelist = fp :: fhn :: rest) : fp ≠ fhn := by
  have hnd := hw.freelist_nodup
  rw [hfl] at hnd
  rintro rfl
  simp at hnd

theorem Wf.page_withFutex_futex (uaddr : UAddr)
    (hfl : k.freelist = fp :: fhn :: rest) :
    (withFutex k uaddr fp fhn rest).page fp = .futex ⟨.image "futex", []⟩ := by
  simp [withFutex, hw.pages_ne hfl]

/-- **A creation keeps the table well-formed.** -/
theorem Wf.create (h : ¬ HasNode k uaddr)
    (hfl : k.freelist = fp :: fhn :: rest) : Wf (withFutex k uaddr fp fhn rest) := by
  have hnd := hw.freelist_nodup
  rw [hfl, List.nodup_cons, List.nodup_cons] at hnd
  constructor
  case node_live =>
    intro i pos hp
    rcases mem_bucket_withFutex.mp hp with hp | ⟨rfl, rfl⟩
    · obtain ⟨n, q, hn, hi, hf⟩ := hw.node_live i pos hp
      exact ⟨n, q, by rw [hw.page_withFutex_of_mem hfl hp, hn], hi,
        by rw [hw.page_withFutex uaddr hfl (by simp [hf]), hf]⟩
    · exact ⟨_, [], page_withFutex_node, rfl, hw.page_withFutex_futex uaddr hfl⟩
  case nodup =>
    intro i
    by_cases hi : i = hashGetEntry uaddr
    · subst hi
      have hfhn : fhn ∉ k.bucket (hashGetEntry uaddr) :=
        hw.not_mem_bucket_of_free (hw.free fhn (by simp [hfl]))
      simpa only [withFutex, update_self, List.concat_eq_append] using
        (hw.nodup _).concat hfhn
    · simpa [withFutex, hi] using hw.nodup i
  case key_inj =>
    intro i pos hp pos' hp' n n' hn hn' hnn
    rcases mem_bucket_withFutex.mp hp with hp | ⟨-, hp⟩ <;>
      rcases mem_bucket_withFutex.mp hp' with hp' | ⟨-, hp'⟩
    · rw [hw.page_withFutex_of_mem hfl hp] at hn
      rw [hw.page_withFutex_of_mem hfl hp'] at hn'
      exact hw.key_inj i pos hp pos' hp' n n' hn hn' hnn
    · rw [hw.page_withFutex_of_mem hfl hp] at hn
      rw [hp', page_withFutex_node, Page.node.injEq] at hn'
      exact absurd (hnn.trans (by rw [← hn'])) (hw.key_ne h hp hn)
    · rw [hw.page_withFutex_of_mem hfl hp'] at hn'
      rw [hp, page_withFutex_node, Page.node.injEq] at hn
      exact absurd (hnn.symm.trans (by rw [← hn])) (hw.key_ne h hp' hn')
    · rw [hp, hp']
  case free =>
    intro pa hpa
    have hpa' : pa ∈ rest := hpa
    have h1 : pa ≠ fp := by
      rintro rfl
      exact hnd.1 (by simp [hpa'])
    have h2 : pa ≠ fhn := by
      rintro rfl
      exact hnd.2.1 hpa'
    simpa [withFutex, h1, h2] using hw.free pa (by simp [hfl, hpa'])
  case freelist_nodup => exact hnd.2.2

theorem Wf.lookup_withFutex_self (h : ¬ HasNode k uaddr)
    (hfl : k.freelist = fp :: fhn :: rest) :
    futexHashLookup (withFutex k uaddr fp fhn rest) uaddr = .ok (some fp) :=
  (hw.create h hfl).lookup_eq_some_iff.mpr
    ⟨fhn, mem_bucket_withFutex.mpr (.inr ⟨rfl, rfl⟩), page_withFutex_node⟩

end

variable {u : UAddr}

section

variable (hw : Wf k)
include hw

theorem Wf.lookup_withFutex (h : ¬ HasNode k uaddr) {fp' : ℕ}
    (hfl : k.freelist = fp :: fhn :: rest) (hlook : futexHashLookup k u = .ok (some fp')) :
    futexHashLookup (withFutex k uaddr fp fhn rest) u = .ok (some fp') := by
  obtain ⟨pos, hpos, hn⟩ := hw.lookup_eq_some_iff.mp hlook
  refine (hw.create h hfl).lookup_eq_some_iff.mpr
    ⟨pos, mem_bucket_withFutex.mpr (.inl hpos), ?_⟩
  rw [hw.page_withFutex_of_mem hfl hpos, hn]

theorem Wf.hasNode_withFutex (hfl : k.freelist = fp :: fhn :: rest)
    (h : HasNode (withFutex k uaddr fp fhn rest) u) : u = uaddr ∨ HasNode k u := by
  obtain ⟨pos, hpos, fp', hn⟩ := h
  rcases mem_bucket_withFutex.mp hpos with hpos | ⟨-, rfl⟩
  · rw [hw.page_withFutex_of_mem hfl hpos] at hn
    exact .inr ⟨pos, hpos, fp', hn⟩
  · rw [page_withFutex_node, Page.node.injEq, FutexHashNode.mk.injEq] at hn
    exact .inl hn.1.symm

theorem Wf.getFutex_absent_assert (h : ¬ HasNode k uaddr) :
    getFutex k uaddr true = .ok (none, k) := by
  simp [getFutex, getFutexLocked, hw.lookup_absent h, getFutexBad]

theorem Wf.getFutex_create (h : ¬ HasNode k uaddr)
    (hfl : k.freelist = fp :: fhn :: rest) :
    getFutex k uaddr false = .ok (some fp, withFutex k uaddr fp fhn rest) := by
  simp [getFutex, hw.getFutexLocked_create h hfl]

theorem Wf.getFutex_noMem (h : ¬ HasNode k uaddr)
    (hfl : k.freelist.length < 2) : ∃ k', getFutex k uaddr false = .ok (none, k') := by
  have hlook := hw.lookup_absent h
  match hfl' : k.freelist with
  | [] => exact ⟨k, by simp [getFutex, getFutexLocked, hlook, kmalloc, hfl', getFutexBad]⟩
  | [pa] =>
    simp [getFutex, getFutexLocked, hlook, kmalloc, hfl', getFutexBad, futexInit, kfree]
  | _ :: _ :: _ =>
    simp only [hfl', List.length_cons] at hfl
    omega

/-- **With a node for the address, `get_futex` frees the futex and returns `NULL`**; the
node stays in the table and the lookup still returns the freed page. -/
theorem Wf.getFutex_present (h : HasNode k uaddr) (assert : Bool) :
    ∃ pos ∈ k.bucket (hashGetEntry uaddr), ∃ fp k', k.page pos = .node ⟨uaddr, fp⟩ ∧
      getFutex k uaddr assert = .ok (none, k') ∧ k'.bucket = k.bucket ∧
      k'.page fp = .free ∧ k'.page pos = k.page pos ∧
      futexHashLookup k' uaddr = .ok (some fp) := by
  obtain ⟨pos, hpos, fp, q, hn, hf, hlook⟩ := hw.lookup_present h
  have hne : ∀ p ∈ k.bucket (hashGetEntry uaddr), p ≠ fp := by
    rintro p hp rfl
    obtain ⟨n, -, hn, -⟩ := hw.node_live _ p hp
    rw [hf] at hn
    cases hn
  refine ⟨pos, hpos, fp, { k with
    page := update k.page fp .free, freelist := fp :: k.freelist }, hn, ?_, rfl,
    by simp, by simp [hne pos hpos], ?_⟩
  · simp [getFutex, getFutexLocked, hlook, getFutexBad, kfree, hf]
  · rw [← hlook]
    exact lookupIn_congr fun p hp => by simp [hne p hp]

theorem Wf.futexFree_absent (h : ¬ HasNode k uaddr) :
    futexFree k uaddr = .ok k := by
  simp [futexFree, futexHashDelete, hw.lookup_absent h]

/-- **With a node for the address, `futex_free` panics**: the word it takes for the
node's futex is the name of the futex's lock. -/
theorem Wf.futexFree_present (h : HasNode k uaddr) :
    futexFree k uaddr = .error (.panic "kfree") := by
  obtain ⟨-, -, fp, q, -, hf, hlook⟩ := hw.lookup_present h
  simp [futexFree, futexHashDelete, hlook, hf, Page.word8, kfree]

end

end

/-! ### The waiting queue of a futex -/

/-- The page with a futex whose waiting queue is `q`. -/
def setQueue (k : Kern T) (fp : ℕ) (q : List T) : Kern T :=
  { k with page := update k.page fp (.futex ⟨.image "futex", q⟩) }

/-- `queue_push_back` on the waiting queue of the futex in page `fp`. -/
def waitPushBack (k : Kern T) (fp : ℕ) (t : T) : Except Fault (Kern T) :=
  match k.page fp with
  | .futex f =>
    .ok { k with
      page := update k.page fp
        (.futex { f with waitingQueue := f.waitingQueue ++ [t] }) }
  | _ => .error .wild

/-- `queue_pop` on the waiting queue of the futex in page `fp`: the first thread and the
table without it, or `none` on an empty queue. -/
def waitPop (k : Kern T) (fp : ℕ) : Except Fault (Option (T × Kern T)) :=
  match k.page fp with
  | .futex ⟨_, []⟩ => .ok none
  | .futex ⟨name, t :: rest⟩ =>
    .ok (some (t, { k with page := update k.page fp (.futex ⟨name, rest⟩) }))
  | _ => .error .wild

section

variable {k : Kern T} {fp : ℕ} {q : List T}

@[simp]
theorem setQueue_bucket (q : List T) : (setQueue k fp q).bucket = k.bucket := rfl

@[simp]
theorem setQueue_freelist (q : List T) : (setQueue k fp q).freelist = k.freelist := rfl

theorem setQueue_page_of_ne {pa : ℕ} (h : pa ≠ fp) :
    (setQueue k fp q).page pa = k.page pa := by
  simp [setQueue, h]

variable {q0 : List T}

theorem Wf.setQueue (hw : Wf k) (h : k.page fp = .futex ⟨.image "futex", q0⟩) (q : List T) :
    Wf (FutexTable.setQueue k fp q) := by
  have hne : ∀ pa, k.page pa ≠ .futex ⟨.image "futex", q0⟩ → pa ≠ fp := by
    rintro pa hpa rfl
    exact hpa h
  have hnode : ∀ pa n, (FutexTable.setQueue k fp q).page pa = .node n →
      k.page pa = .node n := by
    intro pa n hn
    by_cases e : pa = fp
    · subst e
      simp [FutexTable.setQueue] at hn
    · rwa [setQueue_page_of_ne e] at hn
  refine ⟨?_, hw.nodup, ?_, ?_, hw.freelist_nodup⟩
  · intro i pos hpos
    obtain ⟨n, q', hn, hi, hf⟩ := hw.node_live i pos hpos
    refine ⟨n, if n.fp = fp then q else q', ?_, hi, ?_⟩
    · rw [setQueue_page_of_ne (hne pos (by simp [hn])), hn]
    · by_cases e : n.fp = fp
      · simp [FutexTable.setQueue, e]
      · rw [setQueue_page_of_ne e, hf, if_neg e]
  · intro i pos hp pos' hp' n n' hn hn' hnn
    exact hw.key_inj i pos hp pos' hp' n n' (hnode pos n hn) (hnode pos' n' hn') hnn
  · intro pa hpa
    have hfree := hw.free pa hpa
    rw [setQueue_page_of_ne (hne pa (by simp [hfree])), hfree]

theorem Wf.page_setQueue_of_mem (hw : Wf k)
    (h : k.page fp = .futex ⟨.image "futex", q0⟩) {i pos : ℕ} (hpos : pos ∈ k.bucket i) :
    (FutexTable.setQueue k fp q).page pos = k.page pos := by
  refine setQueue_page_of_ne ?_
  rintro rfl
  obtain ⟨n, -, hn, -⟩ := hw.node_live i pos hpos
  rw [h] at hn
  cases hn

theorem Wf.lookup_setQueue (hw : Wf k)
    (h : k.page fp = .futex ⟨.image "futex", q0⟩) (u : UAddr) :
    futexHashLookup (FutexTable.setQueue k fp q) u = futexHashLookup k u :=
  lookupIn_congr fun _ hpos => hw.page_setQueue_of_mem h hpos

theorem Wf.hasNode_setQueue (hw : Wf k) (h : k.page fp = .futex ⟨.image "futex", q0⟩) {u : UAddr}
    (hno : HasNode (FutexTable.setQueue k fp q) u) : HasNode k u := by
  obtain ⟨pos, hpos, fp', hn⟩ := hno
  exact ⟨pos, hpos, fp', by rwa [hw.page_setQueue_of_mem h hpos] at hn⟩

end

end XVapor.FutexTable
