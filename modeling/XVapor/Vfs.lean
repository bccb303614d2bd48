import Mathlib.Data.List.Infix
import Mathlib.Data.List.Nodup

/-!
# Paths and Mount Points

`get_absolute_path` (`fs/vfs/vfs.c`) edits the path in its buffer: it looks for `./` and `../`
wherever they are, also **at the end of a name**. `vfs_resolve_fs` passes its path through it and
selects the longest mount point that is a prefix of the result **byte by byte**: `/proc` is one of
`/processes`.

A path is the list of its bytes without the null byte. A path that does not fit into the buffer
of `vfs_resolve_fs` overruns it.

## Main results

* `resolves_of_plain`: **the longest mount point above the path is found**, if the path fits, has no
  `./` and no `..` at its end, and the longest mount point that is a prefix of its bytes is one by
  components. The exact condition, if no file system is mounted twice.
-/

namespace XVapor.Vfs

abbrev Path := List Char

def joinPath (path cwd : Path) : Path := if path.head? = some '/' then path else cwd ++ '/' :: path

/-- The loop that handles `./` and `../`; `l` is what is before `p`, backwards. At `../` it goes back
from `p - 2` to a `/`, which the next round passes; without one, `p` is the start of the buffer. -/
def dots : (l r : Path) → Path
  | l, [] => l.reverse
  | l, '.' :: '/' :: r => dots l r
  | l, '.' :: '.' :: '/' :: r => dots (l.tail.dropWhile (· ≠ '/')) r
  | l, c :: r => dots (c :: l) r

/-- The end of the path: `/.`, and also `..`, are cut off, so that the test for `/..` that follows
never succeeds. `x` is the byte before the buffer. -/
def trailing (x : Char) (b : Path) : Path :=
  match b.reverse with
  | ['.'] => if x = '/' ∨ x = '.' then [] else b
  | '.' :: c :: r => if c = '/' ∨ c = '.' then r.reverse else b
  | _ => b

/-- The loop over a leading `//`. -/
def dropSlashes : Path → Path
  | '/' :: '/' :: r => dropSlashes ('/' :: r)
  | b => b

/-- One `/` at the end is cut off, and the path is made to begin with one. -/
def finish (b : Path) : Path :=
  let b := if b.getLast? = some '/' then b.dropLast else b
  if b = [] then ['/'] else if b.head? = some '/' then b else '/' :: b

def getAbsolutePath (x : Char) (path cwd : Path) : Path :=
  finish (dropSlashes (trailing x (dots [] (joinPath path cwd))))

/-! ### Mounts -/

def MAX_MOUNTS : ℕ := 4

variable {φ : Type}

/-- A mount point, and the registered file system that `vfs_getfs_bytype` finds for its type. -/
structure Mount (φ : Type) where
  mp : Path
  fs : φ

/-- `vfs_mount`: the first entry that is not used. -/
def vfsMount (table : List (Mount φ)) (m : Mount φ) : List (Mount φ) :=
  if table.length < MAX_MOUNTS then table ++ [m] else table

def substrCmp : (shorts longs : Path) → Bool
  | [], _ => true
  | a :: s, b :: l => if a = b then substrCmp s l else false
  | _ :: _, [] => false

/-- A round of the loop over the table: the selected mount. -/
def select (path : Path) (sel : Option (Mount φ)) (m : Mount φ) : Option (Mount φ) :=
  if substrCmp m.mp path ∧ ∀ s ∈ sel, s.mp.length < m.mp.length then some m else sel

def MAXPATH : ℕ := 256

/-- `vfs_resolve_fs`, with the file system or `NULL`; `none` if the path overruns `abs_path`. -/
def vfsResolveFs (x : Char) (table : List (Mount φ)) (path : Path) : Option (Option φ) :=
  if (joinPath path ['/']).length < MAXPATH then
    some ((table.foldl (select (getAbsolutePath x path ['/'])) none).map Mount.fs)
  else none

/-- Components, each behind a `/`. -/
def render (cs : List Path) : Path := if cs = [] then ['/'] else cs.flatMap ('/' :: ·)

def Canonical (path : Path) : Prop :=
  ∃ cs : List Path, (∀ c ∈ cs, c ≠ [] ∧ '/' ∉ c ∧ c ≠ ['.'] ∧ c ≠ ['.', '.']) ∧ path = render cs

/-- A prefix by components: all of the path, the root, or followed by a `/`. -/
def Above (mp path : Path) : Prop := mp = path ∨ mp = ['/'] ∨ mp ++ ['/'] <+: path

/-- The selected mount is a longest one whose mount point meets `R`. -/
def Longest (R : Path → Prop) (table : List (Mount φ)) : Option (Mount φ) → Prop
  | none => ∀ m ∈ table, ¬ R m.mp
  | some s => s ∈ table ∧ R s.mp ∧ ∀ m ∈ table, R m.mp → m.mp.length ≤ s.mp.length

/-- **The longest mount point above the path is found**, if there is one. -/
def Resolves (table : List (Mount φ)) (path : Path) (r : Option (Option φ)) : Prop :=
  ∃ sel, Longest (Above · path) table sel ∧ r = some (sel.map Mount.fs)

/-- The condition: the path fits, no component before the last ends with a dot and the last one not
with two, and the longest mount point that is a prefix of the path is so by components. -/
structure Plain (table : List (Mount φ)) (path : Path) : Prop where
  fits : path.length < MAXPATH
  dotSlash : ¬ ['.', '/'] <:+: path
  dotDot : ¬ ['.', '.'] <:+ path
  above : ∀ m, Longest (· <+: path) table (some m) → Above m.mp path

/-- The condition on all paths: the mount that is longest for the bytes of the path after
`get_absolute_path` is a longest one above the path. -/
def Right (x : Char) (table : List (Mount φ)) (path : Path) : Prop :=
  ∀ sel, Longest (· <+: getAbsolutePath x path ['/']) table sel →
    Longest (Above · path) table sel

variable {l r path : Path} {x : Char} {table : List (Mount φ)}

/-! ### Paths that are left as they are -/

theorem dots_of_not_infix (h : ¬ ['.', '/'] <:+: r) : dots l r = l.reverse ++ r := by
  induction r generalizing l with
  | nil => simp [dots]
  | cons c r ih =>
    rw [dots, ih fun hr => h (hr.trans (List.suffix_cons c r).isInfix)]
    · simp
    · rintro r' rfl rfl
      exact h (List.infix_append [] ['.', '/'] r')
    · rintro r' rfl rfl
      exact h (List.infix_append ['.'] ['.', '/'] r')

/-- A canonical path is the root, or begins with one `/` and does not end with `/` or `/.`. -/
theorem canonical_ends (h : Canonical path) : path = ['/'] ∨ ∃ c r e f k, path = '/' :: c :: r ∧
    c ≠ '/' ∧ path.reverse = e :: f :: k ∧ e ≠ '/' ∧ (e = '.' → f ≠ '/') := by
  obtain ⟨cs, hcs, rfl⟩ := h
  rcases cs with _ | ⟨c, cs⟩
  · exact .inl rfl
  obtain ⟨hne, hslash, -⟩ := hcs c List.mem_cons_self
  obtain ⟨a, c, rfl⟩ := List.exists_cons_of_ne_nil hne
  have hfirst : a ≠ '/' := fun h => hslash (h ▸ List.mem_cons_self)
  refine .inr ⟨a, c ++ cs.flatMap ('/' :: ·), ?_⟩
  obtain ⟨ds, d, hd⟩ := ((a :: c) :: cs).eq_nil_or_concat'.resolve_left (List.cons_ne_nil _ _)
  obtain ⟨hne, hslash, hdot, -⟩ := hcs d (by simp [hd])
  obtain ⟨d, e, rfl⟩ := d.eq_nil_or_concat'.resolve_left hne
  have hrev : (render ((a :: c) :: cs)).reverse =
      e :: (d.reverse ++ '/' :: (ds.flatMap ('/' :: ·)).reverse) := by
    rw [hd]
    simp [render]
  rcases hd' : d.reverse with _ | ⟨f, k⟩
  · obtain rfl := List.reverse_eq_nil_iff.1 hd'
    exact ⟨e, '/', _, rfl, hfirst, hrev, by rintro rfl; simp at hslash, by rintro rfl; simp at hdot⟩
  · have hf : f ∈ d := List.mem_reverse.1 (hd' ▸ List.mem_cons_self)
    rw [hd'] at hrev
    refine ⟨e, f, _, rfl, hfirst, hrev, ?_, fun _ => ?_⟩ <;> rintro rfl <;> simp [hf] at hslash

/-- **A canonical path is left as it is**, if it has no `./` and does not end with `..`. -/
theorem getAbsolutePath_of_canonical (hc : Canonical path) (hslash : ¬ ['.', '/'] <:+: path)
    (hdots : ¬ ['.', '.'] <:+ path) : getAbsolutePath x path ['/'] = path := by
  obtain rfl | ⟨c, r, e, f, k, hpath, hc, hrev, he, hf⟩ := canonical_ends hc
  · rfl
  have hjoin : joinPath path ['/'] = path := by rw [hpath]; rfl
  have hcut : trailing x path = path := by
    by_cases hdot : e = '.'
    · have hne : f ≠ '.' := fun hdot' => hdots (List.reverse_prefix.1 (by simp [hrev, hdot, hdot']))
      simp [trailing, hrev, hdot, hf hdot, hne]
    · simp [trailing, hrev, hdot]
  have hlast : path.getLast? ≠ some '/' := by
    rw [← List.head?_reverse, hrev]
    simpa using he
  have hdrop : dropSlashes path = path := by
    rw [hpath]
    simp [dropSlashes, hc]
  rw [getAbsolutePath, hjoin, dots_of_not_infix hslash, List.reverse_nil, List.nil_append, hcut,
    hdrop, finish, if_neg hlast, hpath]
  rfl

/-! ### The longest mount point -/

theorem substrCmp_iff : substrCmp l r = true ↔ l <+: r := by
  induction l generalizing r with
  | nil => simp [substrCmp]
  | cons a l ih =>
    cases r with
    | nil => simp [substrCmp]
    | cons b r => simp [substrCmp, List.cons_prefix_cons, ih]

/-- The loop selects a longest mount point that is a prefix. -/
theorem longest_select : Longest (· <+: path) table (table.foldl (select path) none) := by
  induction table using List.reverseRecOn with
  | nil => exact nofun
  | append_singleton ms m ih =>
    rw [List.foldl_append, List.foldl_cons, List.foldl_nil]
    generalize ms.foldl (select path) none = sel at ih ⊢
    simp only [select, substrCmp_iff]
    split_ifs with hsel
    · refine ⟨by simp, hsel.1, fun k hk hpre => ?_⟩
      rcases List.mem_append.1 hk with hk | hk
      · rcases sel with _ | s
        · exact absurd hpre (ih k hk)
        · exact ((ih.2.2 k hk hpre).trans_lt (hsel.2 s rfl)).le
      · rw [List.mem_singleton.1 hk]
    rcases sel with _ | s
    · intro k hk hpre
      rcases List.mem_append.1 hk with hk | hk
      · exact ih k hk hpre
      · exact hsel ⟨List.mem_singleton.1 hk ▸ hpre, nofun⟩
    refine ⟨List.mem_append_left _ ih.1, ih.2.1, fun k hk hpre => ?_⟩
    rcases List.mem_append.1 hk with hk | hk
    · exact ih.2.2 k hk hpre
    obtain rfl := List.mem_singleton.1 hk
    by_contra hlt
    exact hsel ⟨hpre, fun s' hs' => Option.some.inj hs' ▸ not_le.1 hlt⟩

theorem Above.isPrefix {mp : Path} (hc : Canonical path) (h : Above mp path) : mp <+: path := by
  rcases h with rfl | rfl | h
  · exact List.prefix_rfl
  · obtain rfl | ⟨c, r, -, -, -, rfl, -⟩ := canonical_ends hc
    · exact List.prefix_rfl
    · exact List.prefix_append ['/'] (c :: r)
  · exact (List.prefix_append mp ['/']).trans h

/-- Two mounts that are longest for the bytes of a path have one mount point. -/
theorem Longest.mp_eq {s s' : Mount φ} (h : Longest (· <+: path) table (some s))
    (h' : Longest (· <+: path) table (some s')) : s.mp = s'.mp :=
  (List.prefix_of_prefix_length_le h.2.1 h'.2.1 (h'.2.2 s h.1 h.2.1)).eq_of_length_le
    (h.2.2 s' h'.1 h'.2.1)

theorem vfsResolveFs_of_canonical (hc : Canonical path) : vfsResolveFs x table path =
    if path.length < MAXPATH then
      some ((table.foldl (select (getAbsolutePath x path ['/'])) none).map Mount.fs)
    else none := by
  have hjoin : joinPath path ['/'] = path := by
    obtain rfl | ⟨c, r, -, -, -, rfl, -⟩ := canonical_ends hc <;> rfl
  rw [vfsResolveFs, hjoin]

theorem Right.resolves (hc : Canonical path) (hfits : path.length < MAXPATH)
    (h : Right x table path) : Resolves table path (vfsResolveFs x table path) := by
  rw [vfsResolveFs_of_canonical hc]
  exact ⟨_, h _ longest_select, if_pos hfits⟩

theorem Plain.right (hc : Canonical path) (h : Plain table path) : Right x table path := by
  intro sel hsel
  rw [getAbsolutePath_of_canonical hc h.dotSlash h.dotDot] at hsel
  cases sel with
  | none => exact fun m hm ha => hsel m hm (ha.isPrefix hc)
  | some s => exact ⟨hsel.1, h.above s hsel, fun m hm ha => hsel.2.2 m hm (ha.isPrefix hc)⟩

theorem Resolves.right (hc : Canonical path) (hfs : (table.map Mount.fs).Nodup)
    (h : Resolves table path (vfsResolveFs x table path)) :
    path.length < MAXPATH ∧ Right x table path := by
  rw [vfsResolveFs_of_canonical hc] at h
  obtain ⟨sel, hsel, heq⟩ := h
  obtain ⟨hfits, heq⟩ := Option.ite_none_right_eq_some.1 heq
  refine ⟨hfits, fun sel' hsel' => ?_⟩
  have hloop := @longest_select _ (getAbsolutePath x path ['/']) table
  have heq := Option.some.inj heq
  generalize table.foldl (select (getAbsolutePath x path ['/'])) none = s at hloop heq
  -- no file system is mounted twice, so the mount of the loop is the right one
  have hs : s = sel := by
    cases s with
    | none => exact (Option.map_eq_none_iff.1 heq.symm).symm
    | some s =>
      obtain ⟨s', rfl, hs'⟩ := Option.map_eq_some_iff.1 heq.symm
      rw [List.inj_on_of_nodup_map hfs hsel.1 hloop.1 hs']
  subst hs
  rcases s with _ | s <;> rcases sel' with _ | s'
  · exact hsel
  · exact absurd hsel'.2.1 (hloop s' hsel'.1)
  · exact absurd hloop.2.1 (hsel' s hloop.1)
  · have hmp := hloop.mp_eq hsel'
    exact ⟨hsel'.1, hmp ▸ hsel.2.1, hmp ▸ hsel.2.2⟩

/-- **Mounts are resolved** for paths that are left as they are, if the longest mount point in the
bytes of the path ends with a component. If no file system is mounted twice, this is also necessary
for such paths; for all paths, it is necessary and enough that they fit and that the selected mount
is right. -/
theorem resolves_of_plain (x : Char) (hc : Canonical path) :
    (Plain table path → Resolves table path (vfsResolveFs x table path)) ∧
    ((table.map Mount.fs).Nodup →
      (Resolves table path (vfsResolveFs x table path) ↔
        path.length < MAXPATH ∧ Right x table path) ∧
      (¬ ['.', '/'] <:+: path → ¬ ['.', '.'] <:+ path →
        (Resolves table path (vfsResolveFs x table path) ↔ Plain table path))) := by
  have hplain : Plain table path → Resolves table path (vfsResolveFs x table path) := fun h =>
    (h.right hc).resolves hc h.fits
  refine ⟨hplain, fun hfs => ⟨⟨Resolves.right hc hfs, fun h => h.2.resolves hc h.1⟩,
    fun hslash hdots => ⟨fun h => ?_, hplain⟩⟩⟩
  obtain ⟨hfits, hright⟩ := h.right hc hfs
  rw [Right, getAbsolutePath_of_canonical hc hslash hdots] at hright
  exact ⟨hfits, hslash, hdots, fun m hm => (hright _ hm).2.1⟩

/-- The two mounts of the kernel. -/
def mounted : List (Mount ℕ) := [⟨"/".toList, 0⟩, ⟨"/proc".toList, 1⟩].foldl vfsMount []

/-- A path below `/proc`, and one that ends with a dot. -/
theorem resolves_proc : Resolves mounted "/proc/1".toList (some (some 1)) ∧
    Resolves mounted "/a.".toList (some (some 0)) := by
  have habove : ∀ path ∈ ["/proc/1".toList, "/a.".toList], ∀ m ∈ mounted, m.mp <+: path →
      m.mp = "/".toList ∨ m.mp ++ ['/'] <+: path := by decide
  constructor
  · exact (resolves_of_plain '/' ⟨["proc".toList, "1".toList], by decide, rfl⟩).1
      ⟨by decide, by decide, by decide, fun m hm =>
        .inr (habove _ List.mem_cons_self m hm.1 hm.2.1)⟩
  · exact (resolves_of_plain '/' ⟨["a.".toList], by decide, rfl⟩).1
      ⟨by decide, by decide, by decide, fun m hm =>
        .inr (habove _ (List.mem_cons_of_mem _ List.mem_cons_self) m hm.1 hm.2.1)⟩

/-- **`/processes` is in the file system of `/proc`**, and `/pr./oc` is taken for `/proc`. -/
theorem resolves_processes : Canonical "/processes".toList ∧
    vfsResolveFs '/' mounted "/processes".toList = some (some 1) ∧
    ¬ Resolves mounted "/processes".toList (some (some 1)) ∧
    vfsResolveFs '/' mounted "/pr./oc".toList = some (some 1) := by
  refine ⟨⟨["processes".toList], by decide, rfl⟩, rfl, ?_, rfl⟩
  rintro ⟨_ | s, hs, h⟩
  · cases h
  have : ∀ m ∈ mounted, m.fs = 1 → ¬ Above m.mp "/processes".toList := by
    unfold Above
    decide
  exact this s hs.1 (Option.some.inj (Option.some.inj h)).symm hs.2.1

end XVapor.Vfs
