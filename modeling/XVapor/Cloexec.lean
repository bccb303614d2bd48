import XVapor.FileMarks

/-!
# Close-on-Exec

The close-on-exec attribute is meant to belong to a descriptor: the call that creates it asks
for it, or does not. The mark that `execve` reads belongs to the file.

Next to the tables, a run keeps what the latest call that created a descriptor has asked for.
The marks agree with it as long as no call sets the flag of a file against its other
descriptors, and no call creates a descriptor of a file whose flag is not what it asks for.

## Main results

* `perDescriptor_of_reach`: in every run under the condition, an `execve` closes the descriptors
  for which it was asked.
-/

namespace XVapor.Files

variable {s s' : FsState} {p q : ProcId} {fd x : Fd} {top : BitVec 64} {b : Bool}
  {c : FileCall} {r : ℤ}

/-! ### What the calls ask for -/

/-- Whether a call that creates descriptors asks for close-on-exec. -/
def FileCall.cloexec : FileCall → Bool
  | .openFile flags _ _ => isCloexec flags
  | .dup3 _ _ flags => isCloexec flags
  | .fcntl _ .dupfdCloexec _ => true
  | _ => false

/-- The descriptors that a call of process `p` creates: the one that `dup3` returns, and those of
any process that were free. -/
def created (s s' : FsState) (p : ProcId) (c : FileCall) (r : ℤ) (q : ProcId) (fd : Fd) : Bool :=
  match c with
  | .dup3 _ _ _ => decide (q = p ∧ r = fd)
  | _ => ((s.proc q).ofile fd).isNone && ((s'.proc q).ofile fd).isSome

/-- The tables, with what the latest call that created a descriptor has asked for. -/
structure Requests where
  fs : FsState
  asked : ProcId → Fd → Bool

/-- The descriptors of a new process are copies of those of its parent. -/
def Requests.next (s : Requests) (p : ProcId) (c : FileCall) (r : ℤ) (fs' : FsState) :
    Requests where
  fs := fs'
  asked q fd :=
    if created s.fs fs' p c r q fd then if q = p then c.cloexec else s.asked p fd
    else s.asked q fd

/-- The calls of the runs: all but `pipe` and `F_SETFD`. -/
def FileCall.listed : FileCall → Bool
  | .pipe _ _ _ => false
  | .fcntl _ .setfd _ => false
  | _ => true

/-- The machine of the files, with what the calls have asked for. -/
def requestsMachine (top : BitVec 64) : Machine Requests (ProcId × FileCall) :=
  callMachine (⟨boot top, fun _ _ => false⟩ : Requests)
    (fun s a => (s.fs.proc a.1).state = .used ∧ a.2.listed = true) fun s a => do
      let (r, fs') ← call top s.fs a.1 a.2
      .ok (r, s.next a.1 a.2 r fs')

/-- The condition on a call. A duplicate is made of a file whose flag is what the call asks for,
`F_SETFL` leaves the flag as it is, and an `open` that asks for close-on-exec finds a file
system or no descriptor. -/
def FlagFits (s : FsState) (p : ProcId) : FileCall → Prop
  | .openFile flags _ .noFs => ∀ f s1 y, filealloc s = some (f, s1) → fdalloc s1 p f = .ok y →
      isCloexec flags = false
  | .dup n => ∀ fd f y, argfd (s.proc p) n = some (fd, f) → fdalloc s p f = .ok y →
      isCloexec (s.file f).flags = false
  | .dup3 oldfd newfd flags => ∀ fd f new, argfd (s.proc p) oldfd = some (fd, f) →
      toFd newfd = some new → new ≠ fd → isCloexec (s.file f).flags = isCloexec flags
  | .fcntl n .dupfd arg => ∀ fd f y, argfd (s.proc p) n = some (fd, f) →
      fdallocLteq s p f (arg.setWidth 32).toInt = .ok y → isCloexec (s.file f).flags = false
  | .fcntl n .dupfdCloexec arg => ∀ fd f y, argfd (s.proc p) n = some (fd, f) →
      fdallocLteq s p f (arg.setWidth 32).toInt = .ok y → isCloexec (s.file f).flags = true
  | .fcntl n .setfl arg => ∀ fd f, argfd (s.proc p) n = some (fd, f) →
      isCloexec (s.file f).flags = isCloexec (arg.setWidth 32)
  | _ => True

/-- The marks of the descriptors that a call creates are what it asks for, or those of the parent;
the other marks stay. -/
def Follows (s s' : FsState) (p : ProcId) (c : FileCall) (r : ℤ) : Prop :=
  ∀ q x b, mark s' q x = some b →
    if created s s' p c r q x then if q = p then b = c.cloexec else mark s p x = some b
    else mark s q x = some b

theorem created_eq_false (hc : ∀ o n fl, c ≠ .dup3 o n fl) (h : (s.proc q).ofile x ≠ none) :
    created s s' p c r q x = false := by
  obtain ⟨f, hf⟩ := Option.ne_none_iff_exists'.1 h
  unfold created
  split
  · exact absurd rfl (hc _ _ _)
  · simp [hf]

theorem created_eq_true (hc : ∀ o n fl, c ≠ .dup3 o n fl) (h : (s.proc q).ofile x = none)
    (hb : mark s' q x = some b) : created s s' p c r q x = true := by
  obtain ⟨f, hf, -⟩ := mark_eq_some.1 hb
  unfold created
  split
  · exact absurd rfl (hc _ _ _)
  · simp [h, hf]

theorem slot_ne_none_of_mark (h : mark s q x = some b) : (s.proc q).ofile x ≠ none := by
  intro hnone
  rw [mark_eq_none.2 hnone] at h
  nomatch h

theorem Fewer.follows (h : Fewer s s') (hc : ∀ o n fl, c ≠ .dup3 o n fl) : Follows s s' p c r := by
  intro q x b hb
  have hm := h q x b hb
  rw [created_eq_false hc (slot_ne_none_of_mark hm)]
  exact hm

theorem Adds.follows (h : Adds p fd c.cloexec s s') (hc : ∀ o n fl, c ≠ .dup3 o n fl) :
    Follows s s' p c r := by
  intro q x b hb
  by_cases hx : q = p ∧ x = fd
  · obtain ⟨rfl, rfl⟩ := hx
    rw [created_eq_true hc h.free hb, if_pos rfl, if_pos rfl]
    exact Option.some.inj (hb.symm.trans h.new)
  · rw [h.rest q x hx] at hb
    rw [created_eq_false hc (slot_ne_none_of_mark hb)]
    exact hb

theorem sysDup3_follows {oldfd newfd : ℤ} {flags : BitVec 32} (hs' : Sound s')
    (hfit : FlagFits s p (.dup3 oldfd newfd flags))
    (h : sysDup3 s p oldfd newfd flags = .ok (r, s')) :
    Follows s s' p (.dup3 oldfd newfd flags) r := by
  intro q x b hb
  obtain ⟨hf, hr⟩ | ⟨fd, f, new, hf, hnew, hne, rfl, hslot, hmarks⟩ :=
    sysDup3_cases hs'.ref h
  · have hno : created s s' p (.dup3 oldfd newfd flags) r q x = false :=
      decide_eq_false fun hx => by omega
    rw [hno]
    exact hf q x b hb
  · have hflag := hfit fd f new hf hnew hne
    by_cases hx : q = p ∧ x = new
    · obtain ⟨rfl, rfl⟩ := hx
      have hyes : created s s' q (.dup3 oldfd newfd flags) x q x = true := by simp [created]
      rw [hmarks, if_pos (by rw [hslot, if_pos ⟨rfl, rfl⟩])] at hb
      rw [hyes, if_pos rfl, if_pos rfl]
      exact (Option.some.inj hb).symm
    · have hno : created s s' p (.dup3 oldfd newfd flags) new q x = false :=
        decide_eq_false fun ⟨hq, hxn⟩ => hx ⟨hq, Fin.ext (by omega)⟩
      rw [hmarks, hslot, if_neg hx] at hb
      rw [hno]
      split at hb
      next hxf => exact mark_eq_some.2 ⟨f, hxf, hflag.trans (Option.some.inj hb)⟩
      next => exact hb

theorem sysFcntl_follows {n : ℤ} {cmd : FcntlCmd} {arg : BitVec 64} (hcmd : cmd ≠ .setfd)
    (hfit : FlagFits s p (.fcntl n cmd arg)) (h : sysFcntl s p n cmd arg = .ok (r, s')) :
    Follows s s' p (.fcntl n cmd arg) r := by
  have hstay : s = s' → Follows s s' p (.fcntl n cmd arg) r := by
    rintro rfl
    exact (Fewer.refl s).follows nofun
  rw [sysFcntl] at h
  split at h
  · exact hstay (Prod.mk.inj (Except.ok.inj h)).2
  rename_i fd f hf
  cases cmd with
  | dupfd | dupfdCloexec =>
    obtain hfewer | ⟨x, s1, hd, hadds⟩ := fcntlDup_cases h
    · exact hfewer.follows nofun
    · rw [hfit fd f _ hf hd] at hadds
      exact hadds.follows nofun
  | setfl =>
    obtain rfl := (Prod.mk.inj (Except.ok.inj h)).2
    refine Fewer.follows (fun q x b hb => ?_) nofun
    rw [marks_setFlags] at hb
    split at hb
    next hx => exact mark_eq_some.2 ⟨f, hx, (hfit fd f hf).trans (Option.some.inj hb)⟩
    next => exact hb
  | setfd => exact absurd rfl hcmd
  | getfd | getfl | unknown => exact hstay (Prod.mk.inj (Except.ok.inj h)).2

/-- **What a call does to the marks under the condition.** -/
theorem call_follows (hs : Sound s) (hs' : Sound s') (hp : (s.proc p).state = .used)
    (hl : c.listed = true) (hfit : FlagFits s p c) (h : call top s p c = .ok (r, s')) :
    Follows s s' p c r := by
  cases c with
  | openFile flags omode res =>
    obtain hf | ⟨f, s1, x, s2, ha, hd, hres⟩ := genericOpen_cases hs h
    · exact hf.follows nofun
    have hadds : Adds p x (isCloexec flags) s s' := by
      obtain ⟨rfl, hadds⟩ | ⟨-, hadds⟩ := hres
      · rwa [hfit f s1 _ ha hd]
      · exact hadds
    exact hadds.follows nofun
  | dev omode major =>
    obtain hf | ⟨x, hadds⟩ := sysDev_cases hs h
    · exact hf.follows nofun
    · exact hadds.follows nofun
  | dup n =>
    obtain hf | ⟨fd, f, x, s1, hf, hd, hadds⟩ := sysDup_cases h
    · exact hf.follows nofun
    · rw [hfit fd f _ hf hd] at hadds
      exact hadds.follows nofun
  | dup3 oldfd newfd flags =>
    exact sysDup3_follows hs' hfit h
  | fcntl n cmd arg =>
    refine sysFcntl_follows ?_ hfit h
    rintro rfl
    nomatch hl
  | pipe page fd1 copied => nomatch hl
  | close n => exact ((sysClose_drops h).fewer hs'.ref).follows nofun
  | mmap length prot flags n page =>
    have hmap : Fewer s (sysMmap top s p length prot flags n page).2 :=
      sysMmap_fewer length prot flags n page
    rw [congrArg Prod.snd (Except.ok.inj h)] at hmap
    exact hmap.follows nofun
  | munmap addr len walks => exact (doMunmap_fewer h).follows nofun
  | clone np pid res =>
    intro q x b hb
    obtain hm | ⟨hne, hfree, hm⟩ := doClone_marks hs hp h q x b hb
    · rw [created_eq_false (c := .clone np pid res) nofun (slot_ne_none_of_mark hm)]
      exact hm
    · rw [created_eq_true (c := .clone np pid res) nofun hfree hb, if_pos rfl, if_neg hne]
      exact hm
  | execve needDynamic commits => exact (execve_slots hs h).1.follows nofun
  | exit walks => exact ((procExit_drops h).fewer hs'.ref).follows nofun
  | wait pp =>
    have hwait : Fewer s (waitChild s pp).2 := by
      unfold waitChild
      split
      · exact (alike_setProc
        { s.proc pp with state := .unused, ofileCnt := 0, rlimCur := 0 } rfl).fewer
      · exact .refl s
    rw [congrArg Prod.snd (Except.ok.inj h)] at hwait
    exact hwait.follows nofun
  | prlimit cur =>
    obtain ⟨-, rfl⟩ : (0 : ℤ) = r ∧ _ = s' := by simpa [call, Files.prlimit] using h
    exact (alike_setProc { s.proc p with rlimCur := cur } rfl).fewer.follows nofun

/-! ### Runs -/

/-- Every descriptor that is open has the mark that was asked for. -/
def Requests.Agrees (s : Requests) : Prop := ∀ q x b, mark s.fs q x = some b → s.asked q x = b

variable {s s' : Requests}

theorem Requests.Agrees.next {fs' : FsState} (h : s.Agrees)
    (hf : Follows s.fs fs' p c r) : (s.next p c r fs').Agrees := by
  intro q x b hb
  have hstep := hf q x b hb
  simp only [Requests.next]
  split at hstep
  next hcr =>
    rw [if_pos hcr]
    split at hstep
    next hq => rw [if_pos hq, hstep]
    next hq => rw [if_neg hq, h p x b hstep]
  next hcr => rw [if_neg hcr, h q x b hstep]

variable {a : ProcId × FileCall}

theorem requestsMachine_step :
    (requestsMachine top).step s a = some s' ↔
      ((s.fs.proc a.1).state = .used ∧ a.2.listed = true) ∧
        ∃ r fs', call top s.fs a.1 a.2 = .ok (r, fs') ∧ s' = s.next a.1 a.2 r fs' := by
  rw [requestsMachine, mem_callMachine_step, decide_eq_true_eq]
  refine and_congr_right fun _ => ⟨fun ⟨r, hr⟩ => ?_, fun ⟨r, fs', hcall, heq⟩ => ⟨r, ?_⟩⟩
  · obtain ⟨⟨r', fs'⟩, hcall, hr⟩ := bind_eq_ok.1 hr
    obtain ⟨rfl, rfl⟩ := Prod.mk.inj (Except.ok.inj hr)
    exact ⟨r', fs', hcall, rfl⟩
  · rw [hcall, heq]
    rfl

theorem Sound.call {fs fs' : FsState} (hs : Sound fs) (hp : (fs.proc p).state = .used)
    (hl : c.listed = true) (h : Files.call top fs p c = .ok (r, fs')) : Sound fs' := by
  have hcounted : Counted fs p c := by
    cases c with
    | fcntl n cmd arg =>
      cases cmd with
      | setfd => nomatch hl
      | _ => trivial
    | pipe page fd1 copied => nomatch hl
    | _ => trivial
  have hends := call_ends top hs hp c hcounted
  rw [h] at hends
  exact hends.1

/-- **Close-on-exec belongs to the descriptor.** A successful `execve` of any process closes the
descriptors for which it was asked, and no others; and no call changes what it does with a
descriptor that the call does not create. -/
structure PerDescriptor (top : BitVec 64) (s : Requests) : Prop where
  closes : ∀ p needDynamic fs', (s.fs.proc p).state = .used →
    Files.execve s.fs p needDynamic true = .ok (0, fs') → ∀ x,
      (fs'.proc p).ofile x = if s.asked p x then none else (s.fs.proc p).ofile x
  others : ∀ p c r fs', (s.fs.proc p).state = .used → c.listed = true → FlagFits s.fs p c →
    call top s.fs p c = .ok (r, fs') → ∀ q x, created s.fs fs' p c r q x = false →
      (fs'.proc q).ofile x ≠ none → mark fs' q x = mark s.fs q x

theorem perDescriptor_of_agrees (hs : Sound s.fs) (hag : s.Agrees) :
    PerDescriptor top s := by
  refine ⟨fun p nd fs' _ h x => ?_, fun p c r fs' hp hl hfit h q x hno hopen => ?_⟩
  · rw [(execve_slots hs h).2 rfl]
    rcases hm : mark s.fs p x with _ | b
    · rw [mark_eq_none.1 hm, ite_self, ite_self]
    rw [hag p x b hm]
    cases b with
    | true => rfl
    | false => rw [if_neg nofun, if_neg nofun]
  · obtain ⟨b, hb⟩ := Option.ne_none_iff_exists'.1 (fun hnone => hopen (mark_eq_none.1 hnone))
    have hstep := call_follows hs (hs.call hp hl h) hp hl hfit h q x b hb
    rw [if_neg (by rw [hno]; exact nofun)] at hstep
    rw [hb, hstep]

/-- The condition on a step. -/
def RequestFits (s : Requests) (a : ProcId × FileCall) : Prop := FlagFits s.fs a.1 a.2

theorem agrees_boot (top : BitVec 64) :
    Sound (boot top) ∧ Requests.Agrees ⟨boot top, fun _ _ => false⟩ := by
  refine ⟨(sound_boot top).1, fun q x b hb => ?_⟩
  obtain ⟨f, hf, -⟩ := mark_eq_some.1 hb
  have hnone : ((boot top).proc q).ofile x = none := by
    rw [boot, allocproc, (alike_setProc { emptyTables.proc initproc with
      state := .used, ofileCnt := 0, rlimCur := BitVec.allOnes 64, vmas := [], maxVma := top }
      rfl).slot]
    rfl
  rw [hnone] at hf
  cases hf

/-- **Close-on-exec belongs to the descriptor in every run in which** every duplicate is made of a
file whose flag is what the call asks for, `F_SETFL` leaves the flag as it is, and an `open`
that asks for close-on-exec finds a file system or no descriptor. -/
theorem perDescriptor_of_reach {s : Requests} (h : (requestsMachine top).Reach RequestFits s) :
    PerDescriptor top s := by
  suffices hinv : Sound s.fs ∧ s.Agrees from perDescriptor_of_agrees hinv.1 hinv.2
  refine h.invariant (I := fun s => Sound s.fs ∧ s.Agrees) ?_ ?_
  · rintro s rfl
    exact agrees_boot top
  · intro s a s' hi hfit hstep
    obtain ⟨⟨hp, hl⟩, r, fs', hcall, rfl⟩ := requestsMachine_step.1 hstep
    have hs' : Sound fs' := hi.1.call hp hl hcall
    exact ⟨hs', hi.2.next (call_follows hi.1 hs' hp hl hfit hcall)⟩

/-- The first process opens two files, the first with `O_CLOEXEC`. -/
def openTwo : List (ProcId × FileCall) :=
  [(initproc, .openFile O_CLOEXEC 0 .opened), (initproc, .openFile 0 0 .opened)]

/-- Its `execve` closes the first, and leaves the second. -/
theorem perDescriptor_openTwo : ∃ s fs',
    (requestsMachine mmapMaxAddrStart).exec ⟨boot mmapMaxAddrStart, fun _ _ => false⟩ openTwo =
      some s ∧
    Files.execve s.fs initproc false true = .ok (0, fs') ∧
    (fs'.proc initproc).ofile ⟨0, by decide⟩ = none ∧
    (fs'.proc initproc).ofile ⟨1, by decide⟩ ≠ none := by
  obtain ⟨s, hs, hused, h0, h1, hslot, ⟨r, fs'⟩, hfs, rfl⟩ :
      ∃ s ∈ (requestsMachine mmapMaxAddrStart).exec ⟨boot mmapMaxAddrStart, fun _ _ => false⟩
          openTwo, (s.fs.proc initproc).state = .used ∧ s.asked initproc ⟨0, by decide⟩ = true ∧
        s.asked initproc ⟨1, by decide⟩ = false ∧ (s.fs.proc initproc).ofile ⟨1, by decide⟩ ≠ none ∧
        ∃ y ∈ (Files.execve s.fs initproc false true).toOption, y.1 = 0 := by
    decide +kernel
  have hfs := toOption_eq_some.1 hfs
  have hfits : (requestsMachine mmapMaxAddrStart).Along RequestFits
      ⟨boot mmapMaxAddrStart, fun _ _ => false⟩ openTwo :=
    ⟨trivial, fun _ _ => ⟨trivial, fun _ _ => trivial⟩⟩
  have hreach : (requestsMachine mmapMaxAddrStart).Reach RequestFits s :=
    (Machine.Reach.init rfl).exec_along hfits hs
  have hcloses := (perDescriptor_of_reach hreach).closes initproc false fs' hused hfs
  refine ⟨s, fs', hs, hfs, ?_, ?_⟩
  · rw [hcloses, h0, if_pos rfl]
  · rwa [hcloses, h1, if_neg nofun]

/-! ### Duplicates -/

/-- The second process of the table. -/
def child : ProcId := ⟨1, one_lt_nproc⟩

/-- A file is opened without `O_CLOEXEC`, and the process is forked. -/
def openFork : List (ProcId × FileCall) :=
  [(initproc, .openFile 0 0 .opened), (initproc, .clone child 2 (.pages 0))]

/-- **The duplicates share the attribute.** A `dup` of a descriptor that was opened with
`O_CLOEXEC` is closed by `execve`, although nothing has asked for it. A `dup3` with `O_CLOEXEC`
in a child marks the descriptor of its parent. -/
theorem dup_shares_cloexec :
    (∃ s fs', (requestsMachine mmapMaxAddrStart).exec ⟨boot mmapMaxAddrStart, fun _ _ => false⟩
        [(initproc, .openFile O_CLOEXEC 0 .opened), (initproc, .dup 0)] = some s ∧
      s.asked initproc ⟨1, by decide⟩ = false ∧
      (s.fs.proc initproc).ofile ⟨1, by decide⟩ ≠ none ∧
      Files.execve s.fs initproc false true = .ok (0, fs') ∧
      (fs'.proc initproc).ofile ⟨1, by decide⟩ = none) ∧
    ∃ s s', (requestsMachine mmapMaxAddrStart).exec ⟨boot mmapMaxAddrStart, fun _ _ => false⟩
        openFork = some s ∧
      (requestsMachine mmapMaxAddrStart).step s (child, .dup3 0 1 O_CLOEXEC) = some s' ∧
      mark s.fs initproc ⟨0, by decide⟩ = some false ∧
      mark s'.fs initproc ⟨0, by decide⟩ = some true := by
  constructor
  · obtain ⟨s, hs, hasked, hslot, ⟨r, fs'⟩, hfs, rfl, hnone⟩ :
        ∃ s ∈ (requestsMachine mmapMaxAddrStart).exec ⟨boot mmapMaxAddrStart, fun _ _ => false⟩
            [(initproc, .openFile O_CLOEXEC 0 .opened), (initproc, .dup 0)],
          s.asked initproc ⟨1, by decide⟩ = false ∧
          (s.fs.proc initproc).ofile ⟨1, by decide⟩ ≠ none ∧
          ∃ y ∈ (Files.execve s.fs initproc false true).toOption, y.1 = 0 ∧
            (y.2.proc initproc).ofile ⟨1, by decide⟩ = none := by
      decide +kernel
    exact ⟨s, fs', hs, hasked, hslot, toOption_eq_some.1 hfs, hnone⟩
  · obtain ⟨s, hs, hmark, s', hs', hmark'⟩ :
        ∃ s ∈ (requestsMachine mmapMaxAddrStart).exec ⟨boot mmapMaxAddrStart, fun _ _ => false⟩
            openFork, mark s.fs initproc ⟨0, by decide⟩ = some false ∧
          ∃ s' ∈ (requestsMachine mmapMaxAddrStart).step s (child, .dup3 0 1 O_CLOEXEC),
            mark s'.fs initproc ⟨0, by decide⟩ = some true := by
      decide +kernel
    exact ⟨s, s', hs, hs', hmark, hmark'⟩

end XVapor.Files
