import XVapor.FileRead
import XVapor.FileTransfer
import XVapor.Panic

/-!
# The Contract of `fileread`

A read of `n` bytes at `addr` that returns `r` should store exactly `r` bytes of the file there, with
`r` at most `n`, and nothing anywhere else. `fileread` does not look at what the operations of the
file return, and the operations differ:

* a pipe keeps the contract, and the console keeps it for a buffer of the user, which it takes any
  buffer for;
* the null device returns `n` and stores nothing;
* a regular file returns what has been read from the disk, or from the last page of it, also if
  it cannot be copied; and for more than a page into a buffer of the kernel it copies the pages
  to the user as well;
* `/proc/interrupts` does not look at `n`, returns 0 if the copy fails behind the first byte, and
  ends the text in a buffer of the kernel with a null byte.

## Main results

* `fileread_contract_iff`: **when the contract is kept**, for all types of files.
-/

namespace XVapor.Read

open Ext4 (PGSIZE EOK ENOMEM EINVAL Ext4File ext4Fread ext4Fseek chunk chunks)

/-! ### The contract -/

/-- Memory before a read. -/
def Dest.fresh (mapped : ℕ → Bool) : Dest := ⟨mapped, fun _ => none, fun _ => none⟩

/-- **The contract** of a read of `n` bytes at `addr` from a file that has the bytes `data`. -/
structure Contract (user : Bool) (addr n : ℕ) (data : List UInt8) (out : ReadOut) : Prop where
  count : out.r ≠ -1 → 0 ≤ out.r ∧ out.r ≤ n ∧ out.r ≤ data.length
  bytes : out.r ≠ -1 → ∀ a, out.dest.stored user a =
    if addr ≤ a ∧ a < addr + out.r.toNat then data[a - addr]? else none
  outside : ∀ a, ¬ (addr ≤ a ∧ a < addr + n) → out.dest.stored user a = none
  other : ∀ a, out.dest.stored (!user) a = none

variable {mapped : ℕ → Bool} {user buffer : Bool} {addr dst n : ℕ} {data d : List UInt8}
  {out : ReadOut} {D : Dest}

theorem stored_store (a : ℕ) : ((Dest.fresh mapped).store user addr d).stored user a =
    if addr ≤ a ∧ a < addr + d.length then d[a - addr]? else none := by
  cases user <;> rfl

/-- **The contract for a read that stores `d` in the right place**: `d` is not too long, it is what
the file has, and its length is returned. -/
theorem contract_store_iff (hout : out.dest = (Dest.fresh mapped).store user addr d) :
    Contract user addr n data out ↔
      d.length ≤ n ∧ (out.r ≠ -1 → out.r = d.length ∧ d <+: data) := by
  constructor
  · rintro ⟨hcount, hbytes, houtside, -⟩
    have hstored : ∀ i < d.length, out.dest.stored user (addr + i) = d[i]? := fun i hi => by
      rw [hout, stored_store, if_pos (by omega), Nat.add_sub_cancel_left]
    refine ⟨?_, fun hr => ?_⟩
    · by_contra hlong
      have hno := houtside (addr + n) (by omega)
      rw [hstored n (by omega), List.getElem?_eq_none_iff] at hno
      omega
    · obtain ⟨h0, -, hlen⟩ := hcount hr
      -- the same addresses have been stored to
      have hle : d.length ≤ out.r.toNat := by
        by_contra hlong
        have hno := hbytes hr (addr + out.r.toNat)
        rw [hstored _ (by omega), if_neg (by omega), List.getElem?_eq_none_iff] at hno
        omega
      have hge : out.r.toNat ≤ d.length := by
        by_contra hshort
        have hno := hbytes hr (addr + d.length)
        rw [hout, stored_store, if_neg (by omega), if_pos (by omega), Nat.add_sub_cancel_left,
          eq_comm, List.getElem?_eq_none_iff] at hno
        omega
      refine ⟨by omega, List.prefix_iff_getElem?.2 fun i hi => ?_⟩
      have hi' := hbytes hr (addr + i)
      rw [hstored i hi, if_pos (by omega), Nat.add_sub_cancel_left, List.getElem?_eq_getElem hi] at hi'
      exact hi'.symm
  · rintro ⟨hlen, hr⟩
    refine ⟨fun hne => ?_, fun hne a => ?_, fun a ha => ?_, fun a => ?_⟩
    · obtain ⟨hrd, hpre⟩ := hr hne
      have hle := hpre.length_le
      omega
    · obtain ⟨hrd, t, rfl⟩ := hr hne
      rw [hout, stored_store, hrd, Int.toNat_natCast]
      split
      next ha => rw [List.getElem?_append_left (by omega)]
      next => rfl
    · rw [hout, stored_store, if_neg (by omega)]
    · rw [hout]
      cases user <;> rfl

/-- A read that stores in the wrong memory keeps the contract only if it stores nothing. -/
theorem contract_other_iff (hr : out.r = -1 ∨ out.r = d.length)
    (hout : out.dest = (Dest.fresh mapped).store (!user) addr d) :
    Contract user addr n data out ↔ d = [] := by
  constructor
  · intro h
    by_contra hd
    have hpos := List.length_pos_iff.2 hd
    have hno := h.other addr
    rw [hout, stored_store, if_pos (by omega), Nat.sub_self, List.getElem?_eq_none_iff] at hno
    omega
  · rintro rfl
    rw [Dest.store_nil] at hout
    have hfresh : out.dest = (Dest.fresh mapped).store user addr [] := by
      rw [hout, Dest.store_nil]
    rw [contract_store_iff hfresh]
    exact ⟨Nat.zero_le _, fun hne => ⟨hr.resolve_left hne, List.nil_prefix⟩⟩

/-! ### Pipes and the console -/

theorem pipereadLoop_spec (user : Bool) (addr rounds i : ℕ) (g : ByteRing PIPESIZE) (D : Dest) :
    ∃ k ≤ rounds, k ≤ g.contents.length ∧ (pipereadLoop user addr rounds i g D).1 = i + k ∧
      (pipereadLoop user addr rounds i g D).2.2 = D.store user (addr + i) (g.contents.take k) := by
  induction rounds generalizing i g D with
  | zero => exact ⟨0, Nat.le_refl _, Nat.zero_le _, rfl, by simp [pipereadLoop]⟩
  | succ rounds ih =>
    rw [pipereadLoop]
    split
    · exact ⟨0, Nat.zero_le _, Nat.zero_le _, rfl, by simp⟩
    rename_i hne
    rw [Dest.eitherCopyout_one]
    by_cases hroom : user = false ∨ D.here (addr + i) = true
    · rw [if_pos hroom]
      obtain ⟨k, hk, hlen, hi, hD⟩ := ih (i + 1) g.tail (D.store user (addr + i) [g.head])
      refine ⟨k + 1, by omega, ?_, ?_, ?_⟩
      · rw [ByteRing.contents_cons hne, List.length_cons]
        omega
      · rw [hi]
        omega
      · rw [hD, ByteRing.contents_cons hne, List.take_succ_cons, ← Nat.add_assoc]
        exact Dest.store_append.symm
    · rw [if_neg hroom]
      exact ⟨0, Nat.zero_le _, Nat.zero_le _, rfl, by simp⟩

/-- The bytes that the console has for a reader. -/
def Cons.stream (c : Cons) : Waits → List UInt8
  | [] => c.contents
  | (_, c') :: waits => c.contents ++ Cons.stream c' waits

/-- The first byte that the console has for a reader. -/
def Cons.first (c : Cons) (waits : Waits) : Option UInt8 :=
  match Cons.wait c waits with
  | .input c _ => some c.head
  | _ => none

variable {c c' : Cons}

theorem Cons.stream_tail (h : c.r ≠ c.w) (waits : Waits) :
    Cons.stream c waits = c.head :: Cons.stream c.tail waits := by
  cases waits with
  | nil => exact ByteRing.contents_cons h
  | cons x waits => simp only [Cons.stream, ByteRing.contents_cons h, List.cons_append]

variable {waits : Waits}

theorem Cons.wait_input {waits' : Waits} (h : Cons.wait c waits = .input c' waits') :
    Cons.stream c waits = c'.head :: Cons.stream c'.tail waits' := by
  induction waits generalizing c with
  | nil =>
    rw [Cons.wait] at h
    split at h
    · cases h
    rename_i hne
    obtain ⟨rfl, rfl⟩ := Wait.input.inj h
    exact Cons.stream_tail hne []
  | cons x waits ih =>
    rw [Cons.wait] at h
    split at h
    next heq =>
      split at h
      · cases h
      · rw [Cons.stream, ByteRing.contents_eq_nil.2 heq, List.nil_append, ih h]
    next hne =>
      obtain ⟨rfl, rfl⟩ := Wait.input.inj h
      exact Cons.stream_tail hne _

variable {r off : ℤ}

/-- `consoleread` stores the first bytes that there are, and returns their number unless the process
is killed. It stores nothing if there is no room, or no byte before the end of the file. -/
theorem consolereadLoop_spec {rounds i : ℕ} {D D' : Dest}
    (h : consolereadLoop user dst rounds i c waits D = some (r, c', D')) :
    ∃ k ≤ rounds, k ≤ (Cons.stream c waits).length ∧ (r = -1 ∨ r = i + k) ∧
      D' = D.store user (dst + i) ((Cons.stream c waits).take k) ∧
      (k = 0 ↔ rounds = 0 ∨ (user = true ∧ D.here (dst + i) = false) ∨
        ∀ b ∈ Cons.first c waits, b = ctrlD) := by
  induction rounds generalizing i c waits D with
  | zero =>
    obtain ⟨rfl, rfl, rfl⟩ := by simpa [consolereadLoop] using h
    exact ⟨0, Nat.le_refl _, Nat.zero_le _, .inr (by simp), by simp, by simp⟩
  | succ rounds ih =>
    have hnone : ∀ {r0 : ℤ}, (r0 = -1 ∨ r0 = i) → r = r0 → D' = D →
        ((user = true ∧ D.here (dst + i) = false) ∨ ∀ b ∈ Cons.first c waits, b = ctrlD) →
        ∃ k ≤ rounds + 1, k ≤ (Cons.stream c waits).length ∧ (r = -1 ∨ r = i + k) ∧
          D' = D.store user (dst + i) ((Cons.stream c waits).take k) ∧
          (k = 0 ↔ rounds + 1 = 0 ∨ (user = true ∧ D.here (dst + i) = false) ∨
            ∀ b ∈ Cons.first c waits, b = ctrlD) := by
      rintro r0 hr0 rfl rfl hcase
      exact ⟨0, Nat.zero_le _, Nat.zero_le _, by simpa using hr0, by simp,
        ⟨fun _ => .inr hcase, fun _ => rfl⟩⟩
    rw [consolereadLoop] at h
    cases hw : Cons.wait c waits with
    | sleeps => simp [hw] at h
    | killed c1 =>
      simp only [hw, Option.some.injEq, Prod.mk.injEq] at h
      exact hnone (.inl rfl) h.1.symm h.2.2.symm (.inr (by simp [Cons.first, hw]))
    | input c1 waits1 =>
      have hfirst : Cons.first c waits = some c1.head := by simp [Cons.first, hw]
      have hstream := Cons.wait_input hw
      simp only [hw] at h
      split at h
      · rename_i hd
        simp only [Option.some.injEq, Prod.mk.injEq] at h
        exact hnone (.inr rfl) h.1.symm h.2.2.symm (.inr (by simpa [hfirst] using hd))
      rename_i hd
      rw [Dest.eitherCopyout_one] at h
      by_cases hroom : user = false ∨ D.here (dst + i) = true
      · have hmore : ¬ (rounds + 1 = 0 ∨ (user = true ∧ D.here (dst + i) = false) ∨
            ∀ b ∈ Cons.first c waits, b = ctrlD) := by
          rintro (hzero | ⟨hu, hh⟩ | hall)
          · omega
          · rcases hroom with hu' | hh'
            · rw [hu] at hu'
              cases hu'
            · rw [hh] at hh'
              cases hh'
          · exact hd (hall _ hfirst)
        simp only [hroom, if_true] at h
        split at h
        next =>
          simp only [Option.some.injEq, Prod.mk.injEq] at h
          refine ⟨1, by omega, by simp [hstream], .inr (by rw [← h.1]; push_cast; rfl), ?_,
            ⟨fun h1 => by omega, fun hc => (hmore hc).elim⟩⟩
          rw [← h.2.2, hstream]
          rfl
        next =>
          obtain ⟨k, hk, hlen, hr, hD, -⟩ := ih h
          refine ⟨k + 1, by omega, by rw [hstream, List.length_cons]; omega, ?_, ?_,
            ⟨fun h1 => by omega, fun hc => (hmore hc).elim⟩⟩
          · push_cast at hr ⊢
            omega
          · rw [hD, hstream, List.take_succ_cons, ← Nat.add_assoc]
            exact Dest.store_append.symm
      · simp only [hroom, if_false, Option.some.injEq, Prod.mk.injEq] at h
        refine hnone (.inr rfl) h.1.symm h.2.2.symm (.inl ?_)
        simpa [not_or] using hroom

/-! ### Large reads -/

section

variable {bytes : List UInt8} {e : Ext4File} {size m : ℕ} {v : ReadLoop}

theorem ext4Fread_fst (bytes : List UInt8) (e : Ext4File) (size : ℕ) :
    (ext4Fread bytes e size).1 = slice bytes e.fpos size := by
  rw [ext4Fread]
  split
  next h => simp [h]
  next => rfl

theorem ext4Fread_fpos (bytes : List UInt8) (e : Ext4File) (size : ℕ) :
    (ext4Fread bytes e size).2.fpos = e.fpos + (slice bytes e.fpos size).length := by
  rw [ext4Fread]
  split
  next h => simp [h]
  next => rfl

theorem slice_chunk (hm : m * PGSIZE < size) :
    slice bytes (e.fpos + min (m * PGSIZE) (slice bytes e.fpos size).length)
        (chunk size (m * PGSIZE)) =
      ((slice bytes e.fpos size).drop (m * PGSIZE)).take PGSIZE := by
  have hlen : min (m * PGSIZE) (slice bytes e.fpos size).length =
      (slice bytes e.fpos (m * PGSIZE)).length := by
    rw [length_slice, length_slice]
    omega
  have hchunk : chunk size (m * PGSIZE) = min PGSIZE (size - m * PGSIZE) := by
    rw [chunk]
    split <;> omega
  rw [hlen, slice_add_length, hchunk, slice, slice, List.drop_take, List.take_take, List.drop_drop]

/-- What has been read after `m` chunks. -/
structure AfterChunks (data : List UInt8) (e : Ext4File) (D : Dest) (dst m : ℕ) (v : ReadLoop) :
    Prop where
  fpos : v.efp.fpos = e.fpos + min (m * PGSIZE) data.length
  dest : v.dest = D.store true dst (data.take (m * PGSIZE))
  nread : v.nread = min (m * PGSIZE) data.length

section

variable (hdata : slice bytes e.fpos size = data)
include hdata

/-- **One chunk**: it is stored if there is room for it; otherwise the loop ends with what there is
room for, and the length of the chunk. -/
theorem readChunk_after (hm : m * PGSIZE < size)
    (h : AfterChunks data e D dst m v)
    (hle : min (m * PGSIZE) data.length ≤ D.room dst data.length) :
    (min ((m + 1) * PGSIZE) data.length ≤ D.room dst data.length →
      ∃ w, readChunk bytes true dst size v (m * PGSIZE) = .ok w ∧
        AfterChunks data e D dst (m + 1) w) ∧
    (D.room dst data.length < min ((m + 1) * PGSIZE) data.length →
      ∃ w, readChunk bytes true dst size v (m * PGSIZE) = .error w ∧
        w.dest = D.store true dst (data.take (D.room dst data.length)) ∧
        w.rcnt = min PGSIZE (data.length - m * PGSIZE)) := by
  have hsucc : (m + 1) * PGSIZE = m * PGSIZE + PGSIZE := by rw [Nat.add_mul, Nat.one_mul]
  have hgot : slice bytes v.efp.fpos (chunk size (m * PGSIZE)) =
      (data.drop (m * PGSIZE)).take PGSIZE := by
    rw [h.fpos, ← hdata]
    exact slice_chunk hm
  have hlen : ((data.drop (m * PGSIZE)).take PGSIZE).length =
      min PGSIZE (data.length - m * PGSIZE) := by simp
  have hcopy := Dest.copyout_part (b := PGSIZE) hle
  rw [← h.dest, ← hsucc] at hcopy
  simp only [readChunk, if_true, ext4Fread_fst, hgot, hcopy, hlen, decide_eq_true_eq]
  constructor
  · intro hfits
    rw [if_pos hfits]
    refine ⟨_, rfl, ?_, ?_, ?_⟩
    · rw [ext4Fread_fpos, hgot, hlen, h.fpos]
      omega
    · dsimp only
      rcases Nat.le_total ((m + 1) * PGSIZE) data.length with hin | hout
      · rw [Nat.min_eq_right (by omega)]
      · rw [List.take_of_length_le (i := min _ _) (by omega), List.take_of_length_le (by omega)]
    · dsimp only
      rw [h.nread]
      omega
  · intro hstop
    rw [if_neg (not_le.2 hstop)]
    refine ⟨_, rfl, ?_, rfl⟩
    rw [Nat.min_eq_left (by omega)]

/-- The first chunks of a large read, as long as there is room. By induction on their number. -/
theorem readChunks_after
    (hm : m ≤ (size + PGSIZE - 1) / PGSIZE)
    (hle : min (m * PGSIZE) data.length ≤ D.room dst data.length) :
    ∃ v, ((List.range m).map (· * PGSIZE)).foldlM (readChunk bytes true dst size) ⟨e, D, 0, 0⟩ =
      .ok v ∧ AfterChunks data e D dst m v := by
  induction m with
  | zero => exact ⟨_, rfl, by simp, by simp, by simp⟩
  | succ m ih =>
    have hsucc : (m + 1) * PGSIZE = m * PGSIZE + PGSIZE := by rw [Nat.add_mul, Nat.one_mul]
    have hle' : min (m * PGSIZE) data.length ≤ D.room dst data.length := by omega
    obtain ⟨v, hv, hafter⟩ := ih (by omega) hle'
    obtain ⟨w, hw, hafter'⟩ :=
      (readChunk_after hdata (Ext4.lt_chunks hm) hafter hle').1 hle
    exact ⟨w, Ext4.foldlM_chunks_succ hv hw, hafter'⟩

theorem le_chunks :
    data.length ≤ (size + PGSIZE - 1) / PGSIZE * PGSIZE := by
  have hsize : data.length ≤ size := by
    rw [← hdata, length_slice]
    exact Nat.min_le_left _ _
  have hdone := Ext4.done_chunks size
  rw [Ext4.done] at hdone
  omega

/-- **A large read with room for all of it.** -/
theorem readChunks_done
    (hroom : D.room dst data.length = data.length) :
    ∃ v, (chunks size).foldlM (readChunk bytes true dst size) ⟨e, D, 0, 0⟩ = .ok v ∧
      v.dest = D.store true dst data ∧ v.nread = data.length := by
  have hall := le_chunks hdata
  obtain ⟨v, hv, hafter⟩ : ∃ v, (chunks size).foldlM (readChunk bytes true dst size)
      ⟨e, D, 0, 0⟩ = .ok v ∧ AfterChunks data e D dst ((size + PGSIZE - 1) / PGSIZE) v :=
    readChunks_after hdata (Nat.le_refl _) (by omega)
  refine ⟨v, hv, ?_, ?_⟩
  · rw [hafter.dest, List.take_of_length_le hall]
  · rw [hafter.nread, Nat.min_eq_right hall]

/-- **A large read without room for all of it** stores what there is room for, and leaves the length of
the chunk that did not fit in `*rcnt`. -/
theorem readChunks_stop
    (hroom : D.room dst data.length < data.length) :
    ∃ v, (chunks size).foldlM (readChunk bytes true dst size) ⟨e, D, 0, 0⟩ = .error v ∧
      v.dest = D.store true dst (data.take (D.room dst data.length)) ∧
      v.rcnt = min PGSIZE (data.length - D.room dst data.length / PGSIZE * PGSIZE) := by
  -- the chunk in which the room ends
  obtain ⟨j, hj⟩ : ∃ j, D.room dst data.length / PGSIZE = j := ⟨_, rfl⟩
  have hlow : j * PGSIZE ≤ D.room dst data.length := hj ▸ Nat.div_mul_le_self _ _
  have hhigh : D.room dst data.length < (j + 1) * PGSIZE := by
    rw [← hj, Nat.add_mul, Nat.one_mul]
    exact Nat.lt_div_mul_add (by decide)
  have hall := le_chunks hdata
  have hlt : j < (size + PGSIZE - 1) / PGSIZE := by
    refine Nat.lt_of_mul_lt_mul_right (a := PGSIZE) ?_
    omega
  obtain ⟨v, hv, hafter⟩ : ∃ v, ((List.range j).map (· * PGSIZE)).foldlM
      (readChunk bytes true dst size) ⟨e, D, 0, 0⟩ = .ok v ∧ AfterChunks data e D dst j v :=
    readChunks_after hdata hlt.le (by omega)
  obtain ⟨w, hw, hdest, hrcnt⟩ :=
    (readChunk_after hdata (Ext4.lt_chunks hlt) hafter (by omega)).2 (by omega)
  refine ⟨w, ?_, hdest, by rw [hrcnt, hj]⟩
  obtain ⟨l, hl⟩ : ∃ l, List.range ((size + PGSIZE - 1) / PGSIZE) = List.range j ++ j :: l := by
    obtain ⟨k, hk⟩ : ∃ k, (size + PGSIZE - 1) / PGSIZE = j + (k + 1) :=
      ⟨(size + PGSIZE - 1) / PGSIZE - j - 1, by omega⟩
    rw [hk, List.range_add, List.range_succ_eq_map]
    exact ⟨_, rfl⟩
  rw [chunks, hl, List.map_append, List.map_cons, List.foldlM_append, hv, ok_bind, List.foldlM_cons,
    hw]
  rfl

end

variable {a : ℕ}

theorem user_store_isSome (h : (D.user a).isSome = true) (user : Bool) (addr : ℕ)
    (d : List UInt8) : ((D.store user addr d).user a).isSome = true := by
  obtain _ | _ := user
  · exact h
  simp only [Dest.store, overlay]
  split
  next hin =>
    have hlt : a - addr < d.length := by omega
    simp [hlt]
  next => exact h

/-- The byte at `a` of user memory has been stored to, however the loop ends. -/
def Touches (a : ℕ) : Except ReadLoop ReadLoop → Prop :=
  Ends (fun w => (w.dest.user a).isSome = false) fun w => (w.dest.user a).isSome = true

theorem readChunk_touches {i : ℕ}
    (h : (((v.dest.store false dst (slice bytes v.efp.fpos (chunk size i))).copyout (dst + i)
      (slice bytes v.efp.fpos (chunk size i))).2.user a).isSome = true) :
    Touches a (readChunk bytes false dst size v i) := by
  rw [← ext4Fread_fst] at h
  simp only [readChunk, Bool.false_eq_true, if_false]
  split
  · exact h
  · exact fun hno => Bool.false_ne_true (hno.symm.trans h)

theorem readChunks_touches (l : List ℕ) (h : (v.dest.user a).isSome = true) :
    Touches a (l.foldlM (readChunk bytes false dst size) v) := by
  refine Ends.foldlM (I := fun _ (w : ReadLoop) => (w.dest.user a).isSome = true) ?_ l h
  intro i _ w hw
  refine readChunk_touches ?_
  rw [Dest.copyout_eq]
  dsimp only
  exact user_store_isSome (user_store_isSome hw _ _ _) _ _ _

theorem readChunks_nil (user : Bool) (dst size : ℕ) (l : List ℕ) (hend : bytes.length ≤ v.efp.fpos) :
    ∃ w, l.foldlM (readChunk bytes user dst size) v = .ok w ∧ w.dest = v.dest ∧
      w.nread = v.nread := by
  induction l generalizing v with
  | nil => exact ⟨v, rfl, rfl, rfl⟩
  | cons i l ih =>
    have hgot : (ext4Fread bytes v.efp (chunk size i)).1 = [] := by
      rw [ext4Fread_fst]
      exact slice_eq_nil.2 (.inr hend)
    have hfpos : bytes.length ≤ (ext4Fread bytes v.efp (chunk size i)).2.fpos := by
      rw [ext4Fread_fpos]
      omega
    obtain ⟨w, hw, hdest, hnread⟩ := ih (v := ⟨_, v.dest, 0, v.nread⟩) hfpos
    refine ⟨w, ?_, hdest, hnread⟩
    rw [List.foldlM_cons]
    have hread : readChunk bytes user dst size v i =
        .ok ⟨(ext4Fread bytes v.efp (chunk size i)).2, v.dest, 0, v.nread⟩ := by
      simp [readChunk, hgot]
    rw [hread, ok_bind, hw]

/-- **A large read into a buffer of the kernel**: the first page is stored there and copied to the user
as well. If the copy fails at once, the read ends. -/
theorem readChunks_kernel (D : Dest) (dst : ℕ) (hdata : slice bytes e.fpos size = data)
    (hsize : PGSIZE < size) (hne : data ≠ []) :
    (D.here dst = false → ∃ v, (chunks size).foldlM (readChunk bytes false dst size) ⟨e, D, 0, 0⟩ =
      .error v ∧ v.dest = D.store false dst (data.take PGSIZE) ∧ v.rcnt = min PGSIZE data.length) ∧
    (D.here dst = true →
      Touches dst ((chunks size).foldlM (readChunk bytes false dst size) ⟨e, D, 0, 0⟩)) := by
  obtain ⟨l, hl⟩ : ∃ l, chunks size = 0 :: l := by
    have hzero : (size + PGSIZE - 1) / PGSIZE ≠ 0 := Ext4.chunks_ne_zero (by omega)
    obtain ⟨k, hk⟩ := Nat.exists_eq_succ_of_ne_zero hzero
    rw [chunks, hk, Nat.succ_eq_add_one, List.range_succ_eq_map, List.map_cons, Nat.zero_mul]
    exact ⟨_, rfl⟩
  have hgot : slice bytes e.fpos (chunk size 0) = data.take PGSIZE := by
    have hchunk : chunk size 0 = min PGSIZE size := by
      rw [chunk]
      split <;> omega
    rw [← hdata, hchunk, slice, slice, List.take_take]
  have hpos : 0 < data.length := List.length_pos_iff.2 hne
  have hlen : (data.take PGSIZE).length = min PGSIZE data.length := List.length_take
  have hpage : 0 < PGSIZE := by decide
  rw [hl, List.foldlM_cons]
  constructor
  · intro hhere
    have hroom : D.room dst (min PGSIZE data.length) = 0 :=
      Dest.room_eq_iff.2 ⟨by omega, by simp, fun _ => hhere⟩
    refine ⟨⟨(ext4Fread bytes e (chunk size 0)).2, D.store false dst (data.take PGSIZE),
      min PGSIZE data.length, 0⟩, ?_, rfl, rfl⟩
    have hfail : ¬ 0 = min PGSIZE data.length := by omega
    have hread : readChunk bytes false dst size ⟨e, D, 0, 0⟩ 0 =
        .error ⟨(ext4Fread bytes e (chunk size 0)).2, D.store false dst (data.take PGSIZE),
          min PGSIZE data.length, 0⟩ := by
      simp [readChunk, ext4Fread_fst, hgot, Dest.copyout_eq, hroom, hfail]
    rw [hread]
    rfl
  · intro hhere
    -- the first byte is copied
    have hroom : 0 < D.room dst (min PGSIZE data.length) := by
      by_contra hzero
      have hno := (Dest.room_spec (D := D) dst (min PGSIZE data.length)).2.2 (by omega)
      rw [Nat.eq_zero_of_not_pos hzero, Nat.add_zero, hhere] at hno
      cases hno
    refine (readChunk_touches ?_).bind fun w hw => readChunks_touches l hw
    rw [hgot, Nat.add_zero, Dest.copyout_eq, Dest.room_store, hlen]
    have hsome : 0 < ((data.take PGSIZE).take (D.room dst (min PGSIZE data.length))).length := by
      rw [List.length_take, hlen]
      omega
    simp only [Dest.store, overlay]
    rw [if_pos (by omega), Nat.sub_self, List.getElem?_eq_getElem hsome]
    rfl

end

/-! ### `/proc/interrupts` -/

theorem sprintfLines_eq (D : Dest) (dst : ℕ) (lines : List (List UInt8)) (hne : lines ≠ []) :
    sprintfLines D dst lines = D.store false dst (lines.flatten ++ [0]) := by
  -- each line overwrites the null byte of the one before
  have hloop : ∀ (text : List UInt8) (lines : List (List UInt8)),
      (lines.foldl (fun x line => (x.1 + line.length, x.2.store false x.1 (line ++ [0])))
        (dst + text.length, D.store false dst (text ++ [0]))).2 =
          D.store false dst (text ++ lines.flatten ++ [0]) := by
    intro text lines
    induction lines generalizing text with
    | nil => simp
    | cons line lines ih =>
      have hstep : (D.store false dst (text ++ [0])).store false (dst + text.length)
          (line ++ [0]) = D.store false dst (text ++ line ++ [0]) := by
        rw [Dest.store_store (by simp), List.append_assoc]
      have hnext : dst + text.length + line.length = dst + (text ++ line).length := by
        rw [List.length_append, Nat.add_assoc]
      rw [List.foldl_cons]
      dsimp only
      rw [hstep, hnext, ih, List.flatten_cons]
      simp only [List.append_assoc]
  cases lines with
  | nil => exact (hne rfl).elim
  | cons line lines =>
    rw [sprintfLines, List.foldl_cons, hloop line lines, List.flatten_cons]

variable {intrcnt : ℕ → ℕ}

theorem intrLines_eq_nil : (intrLines intrcnt).flatten = [] ↔ intrLines intrcnt = [] := by
  constructor
  · intro h
    rw [List.flatten_eq_nil_iff] at h
    refine List.eq_nil_iff_forall_not_mem.2 fun line hline => ?_
    obtain ⟨i, -, rfl⟩ := List.mem_map.1 hline
    exact List.append_ne_nil_of_right_ne_nil _ (List.cons_ne_nil _ _) (h _ hline)
  · intro h
    rw [h, List.flatten_nil]

/-! ### All files -/

/-- The bytes that a file has for a read. -/
def ReadFile.offers (off : ℤ) (n : ℕ) : ReadFile → List UInt8
  | .inode bytes _ _ => slice bytes off.toNat n
  | .pipe found => (found.map ByteRing.contents).getD []
  | .console c waits => Cons.stream c waits
  | .devnull => []
  | .interrupts intrcnt _ => (intrLines intrcnt).flatten

/-- What a regular file needs: the offset is past the end, or all that is read can be copied, or
exactly the first page of two or more. A buffer of the kernel for more than a page is not at an
address that is mapped for the user. -/
def InodeFits (D : Dest) (user buffer : Bool) (addr n : ℕ) (off : ℤ) (data : List UInt8)
    (efp : Ext4File) : Prop :=
  off < 0 ∨ (efp.fsize : ℤ) < off ∨
    if user then buffer = false ∨ D.room addr data.length = data.length ∨
      D.room addr data.length = PGSIZE ∧ 2 * PGSIZE ≤ data.length
    else n ≤ PGSIZE ∨ data = [] ∨ D.here addr = false

/-- What `/proc/interrupts` needs: it is at its end, or the text is not longer than the buffer and can
be copied, or nothing of it can. For a buffer of the kernel there is no text. -/
def InterruptsFit (D : Dest) (user buffer : Bool) (addr n : ℕ) (intrcnt : ℕ → ℕ) (fpos : ℕ) : Prop :=
  lastIntr intrcnt = fpos ∨
    let text := (intrLines intrcnt).flatten
    if user then buffer = false ∨ D.room addr text.length = 0 ∨
      text.length ≤ n ∧ D.room addr text.length = text.length
    else text = []

/-- **What a read needs for the contract.** -/
def ReadFits (D : Dest) (user buffer : Bool) (addr n : ℕ) (off : ℤ) (f : ReadFile) : Prop :=
  match f with
  | .inode _ _ efp => InodeFits D user buffer addr n off (f.offers off n) efp
  | .pipe _ => True
  | .console c waits => user = true ∨ n = 0 ∨ D.here addr = false ∨
      ∀ b ∈ Cons.first c waits, b = ctrlD
  | .devnull => n = 0
  | .interrupts intrcnt fpos => InterruptsFit D user buffer addr n intrcnt fpos

theorem contract_nil_iff (hd : out.dest = .fresh mapped) :
    Contract user addr n data out ↔ out.r = -1 ∨ out.r = 0 := by
  have hstore : out.dest = (Dest.fresh mapped).store user addr [] := by rw [hd, Dest.store_nil]
  rw [contract_store_iff hstore]
  simp only [List.length_nil, Nat.zero_le, List.nil_prefix, and_true, true_and, Nat.cast_zero]
  exact Classical.or_iff_not_imp_left.symm

section

variable {bytes : List UInt8} {fpos : ℕ} {efp : Ext4File} {off : ℤ}

theorem ext4Fseek_eq (h : ¬ (off < 0 ∨ (efp.fsize : ℤ) < off)) :
    ext4Fseek efp off = some { efp with fpos := off.toNat } := by
  rw [ext4Fseek, if_neg (by omega)]

/-- **A read of a regular file into a buffer of the user** stores what there is room for. -/
theorem ext4Vfread_user (fpos : ℕ) (D : Dest) (addr : ℕ)
    (hoff : ¬ (off < 0 ∨ (efp.fsize : ℤ) < off)) (hdata : slice bytes off.toNat n = data) :
    (ext4Vfread bytes fpos efp D true true addr off n).1.dest =
        D.store true addr (data.take (D.room addr data.length)) ∧
      (ext4Vfread bytes fpos efp D true true addr off n).1.rcnt =
        if n ≤ PGSIZE ∨ D.room addr data.length = data.length then data.length
        else min PGSIZE (data.length - D.room addr data.length / PGSIZE * PGSIZE) := by
  rw [ext4Vfread, if_neg hoff, ext4Fseek_eq hoff]
  simp only [Bool.true_eq_false, and_false, if_false]
  by_cases hsmall : n ≤ PGSIZE
  · have hgot : (ext4Fread bytes { efp with fpos := off.toNat } n).1 = data := by
      rw [ext4Fread_fst, ← hdata]
    simp only [hsmall, if_true, true_or, hgot, Dest.eitherCopyout, Dest.copyout_eq]
    split <;> rename_i hcopy <;> rw [← (Prod.mk.inj hcopy).2] <;> exact ⟨rfl, rfl⟩
  simp only [hsmall, if_false, false_or]
  by_cases hall : D.room addr data.length = data.length
  · obtain ⟨v, hv, hdest, hnread⟩ := readChunks_done (e := { efp with fpos := off.toNat }) hdata hall
    rw [hv, if_pos hall, hall, List.take_length]
    exact ⟨hdest, hnread⟩
  have hle : D.room addr data.length ≤ data.length := (Dest.room_spec addr data.length).1
  obtain ⟨v, hv, hdest, hrcnt⟩ :=
    readChunks_stop (e := { efp with fpos := off.toNat }) hdata (Nat.lt_of_le_of_ne hle hall)
  rw [hv, if_neg hall]
  exact ⟨hdest, hrcnt⟩

theorem ext4Vfread_kernel (fpos : ℕ) (D : Dest) (buffer : Bool) (addr : ℕ)
    (hoff : ¬ (off < 0 ∨ (efp.fsize : ℤ) < off)) (hsmall : n ≤ PGSIZE)
    (hdata : slice bytes off.toNat n = data) :
    (ext4Vfread bytes fpos efp D false buffer addr off n).1.dest = D.store false addr data ∧
      (ext4Vfread bytes fpos efp D false buffer addr off n).1.rcnt = data.length := by
  have hgot : (ext4Fread bytes { efp with fpos := off.toNat } n).1 = data := by
    rw [ext4Fread_fst, ← hdata]
  rw [ext4Vfread, if_neg hoff, ext4Fseek_eq hoff]
  simp only [Bool.false_eq_true, false_and, if_false, hsmall, if_true, hgot, Dest.eitherCopyout,
    and_self]

theorem ext4Vfread_kernel_large (hoff : ¬ (off < 0 ∨ (efp.fsize : ℤ) < off)) (hlarge : ¬ n ≤ PGSIZE) :
    (ext4Vfread bytes fpos efp D false buffer addr off n).1 =
      match (chunks n).foldlM (readChunk bytes false addr n)
        ⟨{ efp with fpos := off.toNat }, D, 0, 0⟩ with
      | .error v => ⟨-1, v.rcnt, v.dest⟩
      | .ok v => ⟨EOK, v.nread, v.dest⟩ := by
  rw [ext4Vfread, if_neg hoff, ext4Fseek_eq hoff]
  simp only [Bool.false_eq_true, false_and, if_false, hlarge]
  cases (chunks n).foldlM (readChunk bytes false addr n)
    ⟨{ efp with fpos := off.toNat }, D, 0, 0⟩ <;> rfl

end

variable {bytes : List UInt8} {fpos : ℕ} {efp : Ext4File}

theorem inode_contract_user
    (hoff : ¬ (off < 0 ∨ (efp.fsize : ℤ) < off)) (hdata : slice bytes off.toNat n = data)
    (hr : out.r = (ext4Vfread bytes fpos efp (.fresh mapped) true true addr off n).1.rcnt)
    (hd : out.dest = (ext4Vfread bytes fpos efp (.fresh mapped) true true addr off n).1.dest) :
    Contract true addr n data out ↔ (Dest.fresh mapped).room addr data.length = data.length ∨
      (Dest.fresh mapped).room addr data.length = PGSIZE ∧ 2 * PGSIZE ≤ data.length := by
  have hn : data.length ≤ n := by
    rw [← hdata, length_slice]
    exact Nat.min_le_left _ _
  have hle : (Dest.fresh mapped).room addr data.length ≤ data.length :=
    (Dest.room_spec addr data.length).1
  obtain ⟨hdest, hrcnt⟩ := ext4Vfread_user fpos (.fresh mapped) addr hoff hdata
  rw [hdest] at hd
  rw [hrcnt] at hr
  rw [contract_store_iff hd, hr, List.length_take, Nat.min_eq_left hle]
  simp only [List.take_prefix, and_true, Nat.cast_inj]
  rw [and_iff_right (hle.trans hn), forall_prop_of_true (by omega)]
  split
  next hcase => omega
  next hcase =>
    simp only [PGSIZE] at hcase ⊢
    omega

theorem inode_contract_kernel
    (hoff : ¬ (off < 0 ∨ (efp.fsize : ℤ) < off)) (hdata : slice bytes off.toNat n = data)
    (hr : out.r = (ext4Vfread bytes fpos efp (.fresh mapped) false buffer addr off n).1.rcnt)
    (hd : out.dest = (ext4Vfread bytes fpos efp (.fresh mapped) false buffer addr off n).1.dest) :
    Contract false addr n data out ↔
      n ≤ PGSIZE ∨ data = [] ∨ (Dest.fresh mapped).here addr = false := by
  have hn : data.length ≤ n := by
    rw [← hdata, length_slice]
    exact Nat.min_le_left _ _
  by_cases hsmall : n ≤ PGSIZE
  · obtain ⟨hdest, hrcnt⟩ := ext4Vfread_kernel fpos (.fresh mapped) buffer addr hoff hsmall hdata
    rw [hdest] at hd
    rw [hrcnt] at hr
    rw [contract_store_iff hd, hr]
    simp [hn, hsmall]
  · rw [ext4Vfread_kernel_large hoff hsmall] at hr hd
    rw [or_iff_right hsmall]
    by_cases hnil : data = []
    · have hend : bytes.length ≤ off.toNat := by
        rw [hnil, slice_eq_nil] at hdata
        omega
      obtain ⟨w, hw, hdest, hnread⟩ := readChunks_nil (v := ⟨{ efp with fpos := off.toNat },
        .fresh mapped, 0, 0⟩) false addr n (chunks n) hend
      rw [hw] at hr hd
      rw [contract_nil_iff (hd.trans hdest), hr]
      simp [hnread, hnil]
    · rw [or_iff_right hnil]
      obtain ⟨hunmapped, hmapped⟩ := readChunks_kernel (e := { efp with fpos := off.toNat })
        (.fresh mapped) addr hdata (not_le.1 hsmall) hnil
      cases hhere : (Dest.fresh mapped).here addr with
      | false =>
        obtain ⟨v, hv, hdest, hrcnt⟩ := hunmapped hhere
        rw [hv] at hr hd
        have hr' : out.r = (data.take PGSIZE).length := by
          rw [hr, List.length_take, ← hrcnt]
        rw [contract_store_iff (hd.trans hdest), hr']
        simp only [iff_true, true_and]
        exact ⟨(List.length_take_le _ _).trans (not_le.1 hsmall).le, fun _ => List.take_prefix _ _⟩
      | true =>
        have htouch := hmapped hhere
        simp only [Bool.true_eq_false, iff_false]
        intro hc
        have hno : out.dest.user addr = none := hc.other addr
        rw [hd] at hno
        cases hf : (chunks n).foldlM (readChunk bytes false addr n)
            ⟨{ efp with fpos := off.toNat }, .fresh mapped, 0, 0⟩ with
        | ok v =>
          rw [hf] at hno htouch
          exact Option.not_isSome_iff_eq_none.2 hno htouch
        | error v =>
          rw [hf] at hno htouch
          exact htouch (Option.isSome_eq_false_iff.2 (Option.isNone_iff_eq_none.2 hno))

theorem inode_contract_iff
    (hr : out.r = (ext4Vfread bytes fpos efp (.fresh mapped) user buffer addr off n).1.rcnt)
    (hd : out.dest = (ext4Vfread bytes fpos efp (.fresh mapped) user buffer addr off n).1.dest) :
    Contract user addr n (slice bytes off.toNat n) out ↔
      InodeFits (.fresh mapped) user buffer addr n off (slice bytes off.toNat n) efp := by
  rw [InodeFits, ← or_assoc]
  by_cases hoff : off < 0 ∨ (efp.fsize : ℤ) < off
  · rw [ext4Vfread, if_pos hoff] at hr hd
    rw [contract_nil_iff hd, hr]
    simp [hoff]
  rw [or_iff_right hoff]
  obtain _ | _ := user
  · simp only [Bool.false_eq_true, if_false]
    exact inode_contract_kernel hoff rfl hr hd
  simp only [if_true]
  cases buffer with
  | false =>
    rw [ext4Vfread, if_neg hoff, ext4Fseek_eq hoff] at hr hd
    simp only [and_self, if_true] at hr hd
    rw [contract_nil_iff hd, hr]
    simp
  | true =>
    simp only [Bool.true_eq_false, false_or]
    exact inode_contract_user hoff rfl hr hd

theorem interrupts_contract_iff
    (hr : out.r = (procInterruptsRead intrcnt fpos (.fresh mapped) user buffer addr).1.rcnt)
    (hd : out.dest = (procInterruptsRead intrcnt fpos (.fresh mapped) user buffer addr).1.dest) :
    Contract user addr n (intrLines intrcnt).flatten out ↔
      InterruptsFit (.fresh mapped) user buffer addr n intrcnt fpos := by
  rw [procInterruptsRead] at hr hd
  rw [InterruptsFit]
  by_cases hend : lastIntr intrcnt = fpos
  · rw [if_pos hend] at hr hd
    rw [contract_nil_iff hd, hr]
    simp [hend]
  rw [if_neg hend] at hr hd
  rw [or_iff_right hend]
  cases user with
  | false =>
    simp only [Bool.false_eq_true, if_false] at hr hd ⊢
    by_cases hnil : intrLines intrcnt = []
    · rw [hnil] at hr hd ⊢
      have hfresh : out.dest = .fresh mapped := hd
      rw [contract_nil_iff hfresh, hr]
      simp
    rw [sprintfLines_eq _ _ _ hnil] at hd
    rw [contract_store_iff hd, hr]
    simp only [intrLines_eq_nil, hnil, iff_false]
    rintro ⟨-, hlen⟩
    have hlen' := (hlen (by omega)).1
    simp at hlen'
  | true =>
    simp only [if_true] at hr hd ⊢
    obtain _ | _ := buffer
    · simp only [if_true] at hr hd ⊢
      rw [contract_nil_iff hd, hr]
      simp
    simp only [Bool.true_eq_false, if_false, Dest.copyout_eq] at hr hd ⊢
    generalize (intrLines intrcnt).flatten = text at hr hd ⊢
    by_cases hall : (Dest.fresh mapped).room addr text.length = text.length
    · rw [decide_eq_true hall, hall, List.take_length] at hd
      rw [decide_eq_true hall] at hr
      rw [contract_store_iff hd, hr, hall]
      simp only [List.prefix_rfl, and_true, implies_true, false_or]
      omega
    · rw [decide_eq_false hall] at hr hd
      have hle : (Dest.fresh mapped).room addr text.length ≤ text.length :=
        (Dest.room_spec addr text.length).1
      rw [contract_store_iff hd, hr, List.length_take, Nat.min_eq_left hle]
      simp only [List.take_prefix, hall, and_true, and_false, false_or, or_false]
      omega

theorem console_contract_iff
    (h : consoleread true addr n c waits (.fresh mapped) = some (out.r, c', out.dest)) :
    Contract user addr n (Cons.stream c waits) out ↔
      user = true ∨ n = 0 ∨ (Dest.fresh mapped).here addr = false ∨
        ∀ b ∈ Cons.first c waits, b = ctrlD := by
  obtain ⟨k, hk, hlen, hr, hD, hzero⟩ := consolereadLoop_spec h
  have htake : ((Cons.stream c waits).take k).length = k := by
    rw [List.length_take, Nat.min_eq_left hlen]
  rw [Nat.add_zero] at hD hzero
  have hr' : out.r = -1 ∨ out.r = ((Cons.stream c waits).take k).length := by
    rw [htake]
    simpa using hr
  cases user with
  | true =>
    rw [contract_store_iff hD, htake]
    simp only [true_or, iff_true]
    exact ⟨hk, fun hne => ⟨by simpa using hr.resolve_left hne, List.take_prefix _ _⟩⟩
  | false =>
    rw [contract_other_iff hr' hD, ← List.length_eq_zero_iff, htake, hzero]
    simp

/-- **When `fileread` keeps its contract.** -/
theorem fileread_contract_iff {readable : Bool} {f : ReadFile} {off : ℤ}
    (h : fileread readable f (.fresh mapped) user buffer addr n off = some out) :
    Contract user addr n (f.offers off n) out ↔
      readable = false ∨ ReadFits (.fresh mapped) user buffer addr n off f := by
  unfold fileread at h
  by_cases hread : readable = false
  · rw [if_pos hread] at h
    cases h
    rw [contract_nil_iff rfl]
    simp [hread]
  rw [if_neg hread] at h
  rw [or_iff_right hread]
  cases f with
  | pipe found =>
    obtain _ | g := found
    · cases h
      rw [contract_nil_iff rfl]
      simp [ReadFits]
    cases h
    obtain ⟨k, hk, hlen, hi, hD⟩ := pipereadLoop_spec user addr n 0 g (.fresh mapped)
    rw [contract_store_iff hD, hi, List.length_take, Nat.min_eq_left hlen]
    simp [ReadFits, hk, ReadFile.offers, List.take_prefix]
  | console c waits =>
    obtain ⟨⟨r, c', D⟩, hc, rfl⟩ := Option.map_eq_some_iff.1 h
    exact console_contract_iff hc
  | devnull =>
    cases h
    rw [contract_nil_iff rfl]
    simp only [devnullread, ReadFits]
    omega
  | inode bytes fpos efp =>
    cases h
    exact inode_contract_iff rfl rfl
  | interrupts intrcnt fpos =>
    cases h
    exact interrupts_contract_iff rfl rfl

/-- The first page is mapped, and no other. -/
def onePage (v : ℕ) : Bool := v == 0

/-- A read of a regular file of three bytes. -/
theorem fileread_contract_three : ∃ out,
    fileread true (.inode [7, 8, 9] 0 ⟨0, 3⟩) (.fresh onePage) true true 100 10 0 = some out ∧
      out.r = 3 ∧ Contract true 100 10 [7, 8, 9] out := by
  have hfits : ReadFits (.fresh onePage) true true 100 10 0 (.inode [7, 8, 9] 0 ⟨0, 3⟩) :=
    .inr (.inr (.inr (.inl (by decide))))
  have hrun : (fileread true (.inode [7, 8, 9] 0 ⟨0, 3⟩) (.fresh onePage) true true 100 10 0).map
      ReadOut.r = some 3 := by decide +kernel
  obtain ⟨out, hread, hr⟩ := Option.map_eq_some_iff.1 hrun
  exact ⟨out, hread, hr, (fileread_contract_iff hread).2 (.inr hfits)⟩

/-- A console on which a line has been typed. -/
def typed : Cons := ⟨fun i => if i = 0 then 97 else 10, 0, 2⟩

/-- The counters after interrupts of the timer. -/
def timerOnly (i : ℕ) : ℕ := if i = 5 then 3 else 0

/-- What a read returns, and what it has stored at an address, of the user or of the kernel. -/
def readAt (f : ReadFile) (user : Bool) (addr n : ℕ) (target : Bool) (a : ℕ) :
    Option (ℤ × Option UInt8) :=
  (fileread true f (.fresh onePage) user true addr n 0).map fun out =>
    (out.r, out.dest.stored target a)

/-- A read that returns `r`, has stored `x` at an address, and does not keep the contract. -/
def Breaks (f : ReadFile) (user : Bool) (addr n : ℕ) (target : Bool) (a : ℕ) (r : ℤ)
    (x : Option UInt8) : Prop :=
  ∃ out, fileread true f (.fresh onePage) user true addr n 0 = some out ∧ out.r = r ∧
    out.dest.stored target a = x ∧ ¬ Contract user addr n (f.offers 0 n) out

theorem breaks_of_readAt {f : ReadFile} {target : Bool} {a : ℕ} {x : Option UInt8}
    (h : readAt f user addr n target a = some (r, x)) (hr : r ≠ -1)
    (hbad : (n : ℤ) < r ∨ ((f.offers 0 n).length : ℤ) < r ∨ x ≠ if target = user then
      (if addr ≤ a ∧ a < addr + r.toNat then (f.offers 0 n)[a - addr]? else none) else none) :
    Breaks f user addr n target a r x := by
  obtain ⟨out, hread, heq⟩ := Option.map_eq_some_iff.1 h
  cases heq
  refine ⟨out, hread, rfl, rfl, fun hc => ?_⟩
  obtain ⟨-, hn, hlen⟩ := hc.count hr
  rcases hbad with hbad | hbad | hbad
  · omega
  · omega
  refine hbad ?_
  split
  next heq => rw [heq, hc.bytes hr a]
  next hne =>
    rw [Bool.eq_not_of_ne hne]
    exact hc.other a

/-- **Reads that do not keep the contract.** The null device returns 5 and stores nothing. A regular
file returns 2 when the second byte cannot be stored. `/proc/interrupts` returns 10 for a buffer of one
byte, and 0 when it has stored a byte; it stores a null byte behind its text in a buffer of the
kernel. The console stores in user memory for a buffer of the kernel. -/
theorem fileread_breaks :
    Breaks .devnull true 100 5 true 100 5 none ∧
    Breaks (.inode [7, 8] 0 ⟨0, 2⟩) true 4095 2 true 4096 2 none ∧
    Breaks (.interrupts timerOnly 0) true 100 1 true 101 10 (some 58) ∧
    Breaks (.interrupts timerOnly 0) true 4095 100 true 4095 0 (some 53) ∧
    Breaks (.interrupts timerOnly 0) false 100 100 false 110 10 (some 0) ∧
    Breaks (.console typed []) false 100 5 true 100 2 (some 97) := by
  refine ⟨?_, ?_, ?_, ?_, ?_, ?_⟩ <;>
    exact breaks_of_readAt (by decide +kernel) (by decide) (by decide +kernel)

end XVapor.Read
