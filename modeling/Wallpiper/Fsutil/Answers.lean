import Wallpiper.Fsutil.SyncDirTree

/-!
# What an answer says

Every call has an answer.  A device may fail, but a failure that strikes between
two parts of a file is kept apart: then the file stays incomplete.
-/

namespace Wallpiper.Fsutil

open Foundations Foundations.CText

/-- The call moves bytes of a file that is not yet copied completely. -/
def inCopy (fs : FileSystem) : SysCall → Bool
  | .write .. => true
  | .read p off =>
      match fs.node p with
      | some (.file content _) => decide (off < content.length)
      | _ => false
  | _ => false

/-- An answer of the system.  If `faulty` is set, any device may fail, but not
during a copy. -/
def SysStep (umask : UInt32) (faulty : Bool) (fs : FileSystem) (c : SysCall) (r : SysReply c)
    (fs' : FileSystem) : Prop :=
  fs.answer umask c r = some fs' ∨
    faulty = true ∧ failing c r = true ∧ inCopy fs c = false ∧ fs' = fs

/-! ## The answers, one call at a time -/

section

variable (umask : UInt32) (fs : FileSystem) (p : Path)

theorem answer_opendir (opened : Bool) :
    fs.answer umask (.opendir p) opened =
      if opened = decide (p ≠ [] ∧ fs.node p = some .dir) then some fs else none := rfl

theorem answer_readdir (names : List Name) :
    fs.answer umask (.readdir p) names =
      if names.Perm (dot :: dotDot :: fs.children p) then some fs else none := rfl

theorem answer_mkdir_made :
    fs.answer umask (.mkdir p) MkdirReply.made =
      if fs.node p = none then fs.put p .dir else none := rfl

theorem answer_mkdir_eexist :
    fs.answer umask (.mkdir p) MkdirReply.eexist =
      if (fs.node p).isSome then some fs else none := rfl

theorem answer_mkdir_failed :
    fs.answer umask (.mkdir p) MkdirReply.failed =
      if fs.node p = none ∧ (fs.put p .dir).isNone then some fs else none := rfl

theorem answer_lstat (kind : Option FileKind) :
    fs.answer umask (.lstat p) kind =
      if kind = (fs.node p).map Node.kind then some fs else none := rfl

theorem answer_stat (found : Bool) :
    fs.answer umask (.stat p) found =
      if found = (fs.node p).isSome then some fs else none := rfl

theorem answer_openRead (opened : Bool) :
    fs.answer umask (.openRead p) opened =
      if opened = fs.isFile p then some fs else none := rfl

theorem answer_openWrite_true (mode : UInt32) :
    fs.answer umask (.openWrite p mode) true = fs.truncate umask p mode := rfl

theorem answer_openWrite_false (mode : UInt32) :
    fs.answer umask (.openWrite p mode) false =
      if (fs.truncate umask p mode).isNone then some fs else none := rfl

end

theorem exists_answer (umask : UInt32) (fs : FileSystem) (c : SysCall) :
    ∃ r fs', fs.answer umask c r = some fs' := by
  cases c with
  | opendir p => exact ⟨_, fs, if_pos rfl⟩
  | readdir p => exact ⟨_, fs, if_pos (List.Perm.refl _)⟩
  | mkdir p =>
      by_cases hnone : fs.node p = none
      · cases hput : fs.put p .dir with
        | none => exact ⟨MkdirReply.failed, fs, if_pos ⟨hnone, by rw [hput]; rfl⟩⟩
        | some fs' => exact ⟨MkdirReply.made, fs', (if_pos hnone).trans hput⟩
      · exact ⟨MkdirReply.eexist, fs, if_pos (Option.isSome_iff_ne_none.mpr hnone)⟩
  | lstat p => exact ⟨_, fs, if_pos rfl⟩
  | stat p => exact ⟨_, fs, if_pos rfl⟩
  | openRead p => exact ⟨_, fs, if_pos rfl⟩
  | openWrite p mode =>
      cases htruncate : fs.truncate umask p mode with
      | none => exact ⟨false, fs, if_pos (by rw [htruncate]; rfl)⟩
      | some fs' => exact ⟨true, fs', htruncate⟩
  | read p off =>
      cases hnode : fs.node p with
      | none => exact ⟨(none : Option Bytes), fs, by simp only [FileSystem.answer, hnode]⟩
      | some node =>
          cases node with
          | dir => exact ⟨(none : Option Bytes), fs, by simp only [FileSystem.answer, hnode]⟩
          | special => exact ⟨(none : Option Bytes), fs, by simp only [FileSystem.answer, hnode]⟩
          | file content mode =>
              refine ⟨some ((content.drop off).take 65536), fs, ?_⟩
              simp only [FileSystem.answer, hnode]
              refine if_pos ⟨List.length_take_le _ _, List.take_prefix _ _, ?_⟩
              intro hnil
              rcases List.take_eq_nil_iff.mp hnil with hzero | hnil
              · exact absurd hzero (by omega)
              · exact hnil
  | write p data =>
      cases hnode : fs.node p with
      | none => exact ⟨(none : Option ℕ), fs, by simp only [FileSystem.answer, hnode]⟩
      | some node =>
          cases node with
          | dir => exact ⟨(none : Option ℕ), fs, by simp only [FileSystem.answer, hnode]⟩
          | special => exact ⟨(none : Option ℕ), fs, by simp only [FileSystem.answer, hnode]⟩
          | file content mode =>
              cases data with
              | nil =>
                  refine ⟨(none : Option ℕ), fs, ?_⟩
                  simp only [FileSystem.answer, hnode, if_true]
              | cons c data =>
                  obtain ⟨fs', hput⟩ := FileSystem.put_existing
                    (.file (content ++ (c :: data).take 1) mode) hnode (by simp)
                  refine ⟨some 1, fs', ?_⟩
                  simp only [FileSystem.answer, hnode]
                  exact (if_pos ⟨Nat.one_pos, by simp⟩).trans hput
  | chmod p mode =>
      cases hnode : fs.node p with
      | none => exact ⟨(), fs, by simp only [FileSystem.answer, hnode]⟩
      | some node =>
          cases node with
          | dir => exact ⟨(), fs, by simp only [FileSystem.answer, hnode]⟩
          | special => exact ⟨(), fs, by simp only [FileSystem.answer, hnode]⟩
          | file content old =>
              obtain ⟨fs', hput⟩ := FileSystem.put_existing (.file content mode) hnode (by simp)
              exact ⟨(), fs', by simp only [FileSystem.answer, hnode]; exact hput⟩

section

variable {umask : UInt32} {faulty : Bool} {fs fs' : FileSystem} {p : Path}

/-- It is enough to look at the answers that a call gets. -/
theorem returns_sys {atCall : FileSystem → SysCall → Prop} {c : SysCall}
    {Q : SysReply c → FileSystem → Prop} (hcall : atCall fs c)
    (h : ∀ r fs', SysStep umask faulty fs c r fs' → Q r fs') :
    Program.Returns (SysStep umask faulty) atCall Q (Program.perform c) fs := by
  obtain ⟨r, fs', hanswer⟩ := exists_answer umask fs c
  exact Program.returns_perform hcall ⟨r, fs', .inl hanswer⟩ h

theorem sysStep_opendir {opened : Bool} (h : SysStep umask faulty fs (.opendir p) opened fs') :
    fs' = fs ∧ (opened = true → fs.node p = some .dir) ∧
      (faulty = false → p ≠ [] → fs.node p = some .dir → opened = true) := by
  rcases h with hanswer | ⟨hfaulty, hfailing, _, rfl⟩
  · rw [answer_opendir] at hanswer
    split at hanswer
    · rename_i hopened
      obtain rfl := Option.some.inj hanswer
      refine ⟨rfl, ?_, ?_⟩
      · intro htrue
        rw [hopened, decide_eq_true_eq] at htrue
        exact htrue.2
      · intro _ hne hdir
        rw [hopened, decide_eq_true_eq]
        exact ⟨hne, hdir⟩
    · exact absurd hanswer (by simp)
  · have hclosed : opened = false := (Bool.not_eq_true' opened).mp hfailing
    rw [hclosed, hfaulty]
    simp

theorem sysStep_readdir {names : List Name}
    (h : SysStep umask faulty fs (.readdir p) names fs') :
    fs' = fs ∧ names.Perm (dot :: dotDot :: fs.children p) := by
  rcases h with hanswer | ⟨_, hfailing, _, _⟩
  · rw [answer_readdir] at hanswer
    split at hanswer
    · rename_i hperm
      exact ⟨(Option.some.inj hanswer).symm, hperm⟩
    · exact absurd hanswer (by simp)
  · exact absurd hfailing Bool.false_ne_true

theorem sysStep_mkdir {reply : MkdirReply} (h : SysStep umask faulty fs (.mkdir p) reply fs') :
    reply = .made ∧ fs.node p = none ∧ (∀ q, fs'.node q = if q = p then some .dir else fs.node q) ∨
      reply = .eexist ∧ (fs.node p).isSome ∧ fs' = fs ∨
      reply = .failed ∧ fs' = fs ∧
        (faulty = false → fs.node p = none ∧ fs.put p .dir = none) := by
  rcases h with hanswer | ⟨hfaulty, hfailing, _, rfl⟩
  · cases reply with
    | made =>
        rw [answer_mkdir_made] at hanswer
        split at hanswer
        · rename_i hnone
          exact .inl ⟨rfl, hnone, FileSystem.put_eq_some hanswer⟩
        · exact absurd hanswer (by simp)
    | eexist =>
        rw [answer_mkdir_eexist] at hanswer
        split at hanswer
        · rename_i hsome
          exact .inr (.inl ⟨rfl, hsome, (Option.some.inj hanswer).symm⟩)
        · exact absurd hanswer (by simp)
    | failed =>
        rw [answer_mkdir_failed] at hanswer
        split at hanswer
        · rename_i hfailed
          refine .inr (.inr ⟨rfl, (Option.some.inj hanswer).symm, fun _ ↦ ⟨hfailed.1, ?_⟩⟩)
          exact Option.isNone_iff_eq_none.mp hfailed.2
        · exact absurd hanswer (by simp)
  · have hreply : reply = .failed := beq_iff_eq.mp hfailing
    exact .inr (.inr ⟨hreply, rfl, fun hno ↦ absurd hno (ne_false_of_eq_true hfaulty)⟩)

theorem sysStep_lstat {kind : Option FileKind}
    (h : SysStep umask faulty fs (.lstat p) kind fs') :
    fs' = fs ∧ (kind = (fs.node p).map Node.kind ∨ faulty = true ∧ kind = none) := by
  rcases h with hanswer | ⟨hfaulty, hfailing, _, rfl⟩
  · rw [answer_lstat] at hanswer
    split at hanswer
    · rename_i hkind
      exact ⟨(Option.some.inj hanswer).symm, .inl hkind⟩
    · exact absurd hanswer (by simp)
  · exact ⟨rfl, .inr ⟨hfaulty, Option.isNone_iff_eq_none.mp hfailing⟩⟩

theorem sysStep_stat {found : Bool} (h : SysStep umask faulty fs (.stat p) found fs') :
    fs' = fs ∧ found = (fs.node p).isSome := by
  rcases h with hanswer | ⟨_, hfailing, _, _⟩
  · rw [answer_stat] at hanswer
    split at hanswer
    · rename_i hfound
      exact ⟨(Option.some.inj hanswer).symm, hfound⟩
    · exact absurd hanswer (by simp)
  · exact absurd hfailing Bool.false_ne_true

theorem sysStep_openRead {opened : Bool} (h : SysStep umask faulty fs (.openRead p) opened fs') :
    fs' = fs ∧ (opened = fs.isFile p ∨ faulty = true ∧ opened = false) := by
  rcases h with hanswer | ⟨hfaulty, hfailing, _, rfl⟩
  · rw [answer_openRead] at hanswer
    split at hanswer
    · rename_i hopened
      exact ⟨(Option.some.inj hanswer).symm, .inl hopened⟩
    · exact absurd hanswer (by simp)
  · exact ⟨rfl, .inr ⟨hfaulty, (Bool.not_eq_true' opened).mp hfailing⟩⟩

/-- A file that was missing is made empty, if its directory is there. -/
theorem sysStep_openWrite {mode : UInt32} {opened : Bool} (hnone : fs.node p = none)
    (h : SysStep umask faulty fs (.openWrite p mode) opened fs') :
    opened = true ∧ (∀ q, fs'.node q =
        if q = p then some (.file [] (mode &&& ~~~umask)) else fs.node q) ∨
      opened = false ∧ fs' = fs ∧
        (faulty = false → fs.put p (.file [] (mode &&& ~~~umask)) = none) := by
  have htruncate : fs.truncate umask p mode = fs.put p (.file [] (mode &&& ~~~umask)) := by
    simp only [FileSystem.truncate, hnone]
  rcases h with hanswer | ⟨hfaulty, hfailing, _, rfl⟩
  · cases opened with
    | true =>
        rw [answer_openWrite_true, htruncate] at hanswer
        exact .inl ⟨rfl, FileSystem.put_eq_some hanswer⟩
    | false =>
        rw [answer_openWrite_false, htruncate] at hanswer
        split at hanswer
        · rename_i hfailed
          exact .inr ⟨rfl, (Option.some.inj hanswer).symm,
            fun _ ↦ Option.isNone_iff_eq_none.mp hfailed⟩
        · exact absurd hanswer (by simp)
  · exact .inr ⟨(Bool.not_eq_true' opened).mp hfailing, rfl,
      fun hno ↦ absurd hno (ne_false_of_eq_true hfaulty)⟩

/-- A read moves on in the file; it can fail only at its end. -/
theorem sysStep_read {content : Bytes} {mode : UInt32} {off : ℕ} {reply : Option Bytes}
    (hfile : fs.node p = some (.file content mode))
    (h : SysStep umask faulty fs (.read p off) reply fs') :
    fs' = fs ∧ ((∃ bytes, reply = some bytes ∧ bytes <+: content.drop off ∧
        (bytes = [] → content.length ≤ off)) ∨
      reply = none ∧ faulty = true ∧ content.length ≤ off) := by
  rcases h with hanswer | ⟨hfaulty, hfailing, hout, rfl⟩
  · cases reply with
    | none => exact absurd hanswer (by simp [FileSystem.answer, hfile])
    | some bytes =>
        simp only [FileSystem.answer, hfile] at hanswer
        split at hanswer
        · rename_i hbytes
          refine ⟨(Option.some.inj hanswer).symm, .inl ⟨bytes, rfl, hbytes.2.1, ?_⟩⟩
          exact fun hnil ↦ List.drop_eq_nil_iff.mp (hbytes.2.2 hnil)
        · exact absurd hanswer (by simp)
  · refine ⟨rfl, .inr ⟨Option.isNone_iff_eq_none.mp hfailing, hfaulty, ?_⟩⟩
    simpa [inCopy, hfile] using hout

/-- A write makes progress. -/
theorem sysStep_write {content data : Bytes} {mode : UInt32} {reply : Option ℕ}
    (hfile : fs.node p = some (.file content mode)) (hdata : data ≠ [])
    (h : SysStep umask faulty fs (.write p data) reply fs') :
    ∃ k, reply = some (k + 1) ∧ k + 1 ≤ data.length ∧ ∀ q, fs'.node q =
      if q = p then some (.file (content ++ data.take (k + 1)) mode) else fs.node q := by
  rcases h with hanswer | ⟨_, _, hout, _⟩
  · cases reply with
    | none => exact absurd hanswer (by simp [FileSystem.answer, hfile, hdata])
    | some k =>
        simp only [FileSystem.answer, hfile] at hanswer
        split at hanswer
        · rename_i hk
          obtain ⟨k, rfl⟩ : ∃ k', k = k' + 1 := ⟨k - 1, by omega⟩
          exact ⟨k, rfl, hk.2, FileSystem.put_eq_some hanswer⟩
        · exact absurd hanswer (by simp)
  · exact absurd hout (by simp [inCopy])

theorem sysStep_chmod {content : Bytes} {old mode : UInt32} {reply : Unit}
    (hfile : fs.node p = some (.file content old))
    (h : SysStep umask faulty fs (.chmod p mode) reply fs') :
    ∀ q, fs'.node q = if q = p then some (.file content mode) else fs.node q := by
  rcases h with hanswer | ⟨_, hfailing, _, _⟩
  · simp only [FileSystem.answer, hfile] at hanswer
    exact FileSystem.put_eq_some hanswer
  · exact absurd hfailing Bool.false_ne_true

end

end Wallpiper.Fsutil
