import XVapor.ImageErasure
import XVapor.SpaceMachine

/-!
# The Stack Pointer of a New Program

`execve` pushes the strings at multiples of sixteen and an auxiliary vector of `MAX_AT` pairs.
The pointers of `envp` and `argv`, each with a null pointer behind, and `argc` follow as words of
eight bytes, and no padding is made for them.

## Main results

* `entrySp_aligned_iff`: **the program starts with an aligned stack pointer** if and only if
  the number of strings is odd.
-/

namespace XVapor.Vm

variable {k k' : Kernel} {path : String} {argv envp ss : List (List UInt8)} {S S' : Space}
  {sp sp' top limit stackbase : ℕ} {img : Image} {l : Load} {aux : ℕ → List ℕ} {ws : List ℕ}

theorem u64_mod_sixteen (x : ℤ) : (u64 x : ℤ) % 16 = x % 16 := by
  unfold u64
  omega

theorem push_sp {d : List UInt8} (h : push S sp d = (true, S', sp')) :
    (sp' : ℤ) % 16 = (sp - d.length) % 16 := by
  obtain ⟨-, -, rfl⟩ : _ ∧ _ ∧ u64 (sp - d.length) = sp' := by simpa [push] using h
  exact u64_mod_sixteen _

theorem pushWords_sp (h : pushWords stackbase S sp ws = (true, S', sp')) :
    (sp' : ℤ) % 16 = (sp - 8 * ws.length) % 16 := by
  rw [pushWords] at h
  split at h
  · cases h
  have hsp := push_sp h
  simp [wordBytes] at hsp
  omega

theorem pushStrings_sp {ptrs ptrs' : List ℕ} (hsp : sp % 16 = 0)
    (h : pushStrings limit stackbase ss S sp ptrs = (true, S', sp', ptrs')) :
    sp' % 16 = 0 ∧ ptrs'.length = ptrs.length + ss.length := by
  induction ss generalizing S sp ptrs with
  | nil =>
    cases h
    exact ⟨hsp, rfl⟩
  | cons s ss ih =>
    simp only [pushStrings] at h
    split_ifs at h
    any_goals cases h
    obtain ⟨hsp', hlen⟩ := ih (by omega) h
    refine ⟨hsp', hlen.trans ?_⟩
    simp only [List.length_append, List.length_cons, List.length_nil]
    omega

/-- What alignment the initial stack leaves. -/
theorem fillStack_sp (htop : top % 16 = 0) (haux : ∀ sp, (aux sp).length = MAX_AT * 2)
    (h : fillStack S top stackbase aux argv envp = (true, S', sp)) :
    (sp : ℤ) % 16 = (-8 * (argv.length + envp.length)) % 16 := by
  rw [fillStack] at h
  split at h
  · cases h
  rename_i h1
  have htop16 := u64_mod_sixteen (top - 16)
  obtain ⟨hsp1, hlen1⟩ := pushStrings_sp (by omega) h1
  split at h
  · cases h
  rename_i S2 sp2 ustack h2
  obtain ⟨hsp2, hlen2⟩ := pushStrings_sp hsp1 h2
  have hgap := u64_mod_sixteen (sp2 - 16)
  dsimp only at h
  split at h
  · cases h
  rename_i h3
  have hsp3 := push_sp h3
  split at h
  · cases h
  rename_i h4
  have hsp4 := pushWords_sp h4
  have hsp5 := pushWords_sp h
  simp [haux, wordBytes, MAX_AT] at hsp3 hsp4 hsp5 hlen1 hlen2
  omega

theorem loadImage_ne_ready : loadImage k path ≠ .ok (.inl (.ready k' img)) := by
  intro h
  simp only [loadImage, loadProgram] at h
  split at h
  · cases h
  split at h
  · cases h
  split at h
  · cases h
  split at h
  · cases h
  obtain ⟨⟨_ | T, m⟩, -, h⟩ := bind_eq_ok.1 h
  · cases h
  obtain ⟨x, -, h⟩ := bind_eq_ok.1 h
  split at h
  · cases h
  split at h
  · obtain ⟨y, -, h⟩ := bind_eq_ok.1 h
    split at h <;> cases h
  · cases h

theorem prepare_sp (h : prepare k path argv envp = .ok (.ready k' img)) :
    (img.sp : ℤ) % 16 = (-8 * (argv.length + envp.length)) % 16 := by
  rw [prepare_eq] at h
  obtain ⟨_ | ⟨k1, x⟩, hx, h⟩ := bind_eq_ok.1 h
  · cases h
    exact absurd hx loadImage_ne_ready
  obtain ⟨⟨sz, S1⟩, h1, h⟩ := bind_eq_ok.1 h
  dsimp only at h
  split at h
  · cases h
  rename_i hsz
  obtain ⟨S2, -, h⟩ := bind_eq_ok.1 h
  have htop := uvmalloc_size h1 hsz (by omega)
  split at h
  · cases h
  rename_i hfill
  cases h
  refine fillStack_sp ?_ (fun sp => rfl) hfill
  rw [htop, PGSIZE]
  omega

/-- `trapframe->sp`: `argc` has been pushed. -/
def Image.entrySp (img : Image) : ℕ := u64 (img.sp - 8)

theorem entrySp_iff (h : prepare k path argv envp = .ok (.ready k' img)) :
    img.entrySp % 16 = 0 ↔ (argv.length + envp.length) % 2 = 1 := by
  have hsp := prepare_sp h
  have hentry := u64_mod_sixteen (img.sp - 8)
  rw [Image.entrySp]
  omega

/-- A call that succeeds has made an image and has installed it. -/
theorem execve_ready {p : Files.ProcId} {t : Tcb}
    (h : execve k p t path argv envp = .ok (true, k')) :
    ∃ k1 img, prepare k path argv envp = .ok (.ready k1 img) ∧
      install k1 p t img = .ok (true, k') := by
  obtain ⟨r, hr, h⟩ := bind_eq_ok.1 h
  cases r with
  | fail k1 => cases h
  | bad k1 S sz =>
    obtain ⟨m, -, h⟩ := bind_eq_ok.1 h
    cases h
  | ready k1 img => exact ⟨k1, img, hr, h⟩

/-- **The program starts with an aligned stack pointer** if and only if `argv` and `envp` have an
odd number of strings. -/
theorem entrySp_aligned_iff {p : Files.ProcId} {t : Tcb}
    (h : execve k p t path argv envp = .ok (true, k')) :
    ∃ k1 img, prepare k path argv envp = .ok (.ready k1 img) ∧
      install k1 p t img = .ok (true, k') ∧
      (img.entrySp % 16 = 0 ↔ (argv.length + envp.length) % 2 = 1) := by
  obtain ⟨k1, img, hprep, hinstall⟩ := execve_ready h
  exact ⟨k1, img, hprep, hinstall, entrySp_iff hprep⟩

theorem execve_small : ∀ argv ∈ [[], [[97]]],
    ∃ k', execve smallStart initproc initThread "/a" argv [] = .ok (true, k') := by
  have hrun : ∀ argv ∈ [[], [[97]]],
      ∃ r ∈ (execve smallStart initproc initThread "/a" argv []).toOption, r.1 = true := by
    decide +kernel
  intro argv hargv
  obtain ⟨⟨_, k'⟩, hr, rfl⟩ := hrun argv hargv
  exact ⟨k', toOption_eq_some.1 hr⟩

theorem entrySp_aligned_one : ∃ k1 img, prepare smallStart "/a" [[97]] [] = .ok (.ready k1 img) ∧
    img.entrySp % 16 = 0 := by
  obtain ⟨k', h⟩ := execve_small [[97]] (by simp)
  obtain ⟨k1, img, hprep, -, hsp⟩ := entrySp_aligned_iff h
  exact ⟨k1, img, hprep, hsp.2 rfl⟩

/-- **Without strings the stack pointer is not aligned.** -/
theorem entrySp_misaligned : ∃ k' k1 img,
    execve smallStart initproc initThread "/a" [] [] = .ok (true, k') ∧
      prepare smallStart "/a" [] [] = .ok (.ready k1 img) ∧ img.entrySp % 16 ≠ 0 := by
  obtain ⟨k', h⟩ := execve_small [] (by simp)
  obtain ⟨k1, img, hprep, -⟩ := execve_ready h
  exact ⟨k', k1, img, h, hprep, fun h0 => absurd ((entrySp_iff hprep).1 h0) (by decide)⟩

end XVapor.Vm
