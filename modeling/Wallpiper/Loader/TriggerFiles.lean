import Mathlib.Data.List.Basic
import Mathlib.Logic.Function.Basic
import Wallpiper.Foundations.Runs
import Wallpiper.Foundations.Claims

/-!
# Trigger files

The daemon hands tray clicks and menu commands to the loader through two files
of four bytes.  It truncates, writes and closes the file; the loader's watcher,
notified of changes in the directory, opens, reads, closes and deletes it and
posts what it read.  The two take no common lock.
-/

namespace Wallpiper.Loader

open Foundations

inductive TriggerKind where
  | click
  | command
  deriving DecidableEq, Repr

/-- A file's bytes and the number of the command that they were written for. -/
structure TriggerFile where
  bytes : List UInt8
  command : Option ℕ
  deriving DecidableEq, Repr

def TriggerFile.empty : TriggerFile := ⟨[], none⟩

def triggerBytes (value : UInt32) : List UInt8 :=
  [value.toUInt8, (value >>> 8).toUInt8, (value >>> 16).toUInt8, (value >>> 24).toUInt8]

/-- The four bytes as the little-endian number they are read into. -/
def readTrigger : List UInt8 → UInt32
  | [b₀, b₁, b₂, b₃] =>
      UInt32.ofNat (b₀.toNat + 256 * b₁.toNat + 65536 * b₂.toNat + 16777216 * b₃.toNat)
  | _ => 0

inductive TriggerPost where
  | trayClick (pressed : Bool)
  | wmCommand (id : UInt16)
  deriving DecidableEq, Repr

def triggerPost : TriggerKind → UInt32 → TriggerPost
  | .click, eventCode => .trayClick (eventCode ≠ 0)
  | .command, commandId => .wmCommand commandId.toUInt16

/-- Where the daemon is in `wp_tray_write_click` or `wp_tray_send_menu_command`. -/
inductive TriggerWriter where
  | idle
  | opened (kind : TriggerKind) (value : UInt32) (number inode : ℕ)
  | written (number : ℕ)
  deriving DecidableEq, Repr

/-- Where the watcher is in `handle_click_trigger` or `handle_command_trigger`,
with the files that are still to be handled. -/
inductive TriggerWatcher where
  | handling (todo : List TriggerKind)
  | opened (kind : TriggerKind) (inode : ℕ) (todo : List TriggerKind)
  | read (kind : TriggerKind) (file : TriggerFile) (todo : List TriggerKind)
  | closed (kind : TriggerKind) (file : TriggerFile) (todo : List TriggerKind)
  | deleted (kind : TriggerKind) (file : TriggerFile) (todo : List TriggerKind)
  deriving DecidableEq, Repr

/-- Files are reached by name through inodes.  Commands are numbered as they
are started; a post is recorded with the number of the command it was read
from. -/
structure TriggerState where
  name : TriggerKind → Option ℕ
  file : ℕ → TriggerFile
  inodes : ℕ
  writer : TriggerWriter
  watcher : TriggerWatcher
  commands : List (TriggerKind × UInt32)
  finished : List ℕ
  posts : List (Option ℕ × TriggerPost)

def TriggerState.initial : TriggerState :=
  { name := fun _ ↦ none, file := fun _ ↦ .empty, inodes := 0, writer := .idle
    watcher := .handling [], commands := [], finished := [], posts := [] }

inductive TriggerLabel where
  | openTruncate (kind : TriggerKind) (value : UInt32)
  | write
  | close
  | notify (matchedClick matchedCommand : Bool)
  | watcherOpen
  | watcherRead
  | watcherClose
  | watcherDelete
  | watcherPost
  deriving DecidableEq, Repr

/-- Opening truncates the file of that name, or creates one. -/
def openTruncate (s : TriggerState) (kind : TriggerKind) (value : UInt32) : TriggerState :=
  let number := s.commands.length
  match s.name kind with
  | some i =>
      { s with
        file := Function.update s.file i .empty
        writer := .opened kind value number i
        commands := s.commands ++ [(kind, value)] }
  | none =>
      { s with
        name := Function.update s.name kind (some s.inodes)
        file := Function.update s.file s.inodes .empty
        inodes := s.inodes + 1
        writer := .opened kind value number s.inodes
        commands := s.commands ++ [(kind, value)] }

/-- A notification is handled click first. -/
def matchedFiles (matchedClick matchedCommand : Bool) : List TriggerKind :=
  (if matchedClick then [.click] else []) ++ if matchedCommand then [.command] else []

/-- What was read is posted if it is all of the four bytes. -/
def postTrigger (kind : TriggerKind) (file : TriggerFile) : List (Option ℕ × TriggerPost) :=
  if file.bytes.length ≠ 4 then []
  else [(file.command, triggerPost kind (readTrigger file.bytes))]

def triggerStep (s : TriggerState) : TriggerLabel → Option TriggerState
  | .openTruncate kind value =>
      match s.writer with
      | .idle => some (openTruncate s kind value)
      | _ => none
  | .write =>
      match s.writer with
      | .opened _ value number i =>
          some { s with
            file := Function.update s.file i ⟨triggerBytes value, some number⟩
            writer := .written number }
      | _ => none
  | .close =>
      match s.writer with
      | .written number =>
          some { s with writer := .idle, finished := s.finished ++ [number] }
      | _ => none
  | .notify matchedClick matchedCommand =>
      match s.watcher with
      | .handling [] =>
          some { s with watcher := .handling (matchedFiles matchedClick matchedCommand) }
      | _ => none
  | .watcherOpen =>
      match s.watcher with
      | .handling (kind :: todo) =>
          some { s with
            watcher :=
              match s.name kind with
              | some i => .opened kind i todo
              | none => .handling todo }
      | _ => none
  | .watcherRead =>
      match s.watcher with
      | .opened kind i todo =>
          some { s with
            watcher := .read kind ⟨(s.file i).bytes.take 4, (s.file i).command⟩ todo }
      | _ => none
  | .watcherClose =>
      match s.watcher with
      | .read kind file todo => some { s with watcher := .closed kind file todo }
      | _ => none
  | .watcherDelete =>
      match s.watcher with
      | .closed kind file todo =>
          some { s with
            name := Function.update s.name kind none
            watcher := .deleted kind file todo }
      | _ => none
  | .watcherPost =>
      match s.watcher with
      | .deleted kind file todo =>
          some { s with watcher := .handling todo, posts := s.posts ++ postTrigger kind file }
      | _ => none

def writeTrigger (kind : TriggerKind) (value : UInt32) : List TriggerLabel :=
  [.openTruncate kind value, .write, .close]

def wpTrayWriteClick (eventCode : UInt32) : List TriggerLabel := writeTrigger .click eventCode

def wpTraySendMenuCommand (id : UInt32) : List TriggerLabel := writeTrigger .command id

/-! ## Where a command is -/

/-- The command whose bytes a file holds. -/
def TriggerState.held (s : TriggerState) (kind : TriggerKind) : Option ℕ :=
  (s.name kind).bind fun i ↦ (s.file i).command

def TriggerState.inFile (s : TriggerState) (number : ℕ) : Bool :=
  s.held .click == some number || s.held .command == some number

/-- The command that the watcher has read in full and not posted yet. -/
def TriggerWatcher.unposted : TriggerWatcher → Option ℕ
  | .read _ file _ => if file.bytes.length = 4 then file.command else none
  | .closed _ file _ => if file.bytes.length = 4 then file.command else none
  | .deleted _ file _ => if file.bytes.length = 4 then file.command else none
  | _ => none

/-- How often the command was posted or is about to be. -/
def TriggerState.postings (s : TriggerState) (number : ℕ) : ℕ :=
  (s.posts.map Prod.fst).count (some number) + [s.watcher.unposted].count (some number)

/-- Every finished command that is not in its file any more was read in full
and is posted once, and every post is that of its command. -/
structure CommandsKept (s : TriggerState) : Prop where
  once : ∀ number ∈ s.finished, s.inFile number = false → s.postings number = 1
  faithful : ∀ number post, (some number, post) ∈ s.posts →
    ∃ kind value, s.commands[number]? = some (kind, value) ∧ post = triggerPost kind value

/-- The inode that the daemon has truncated and not written yet. -/
def TriggerWriter.truncated : TriggerWriter → Option ℕ
  | .opened _ _ _ i => some i
  | _ => none

def TriggerWatcher.reads : TriggerWatcher → Option ℕ
  | .opened _ i _ => some i
  | _ => none

/-- The daemon does not open a file before the last command was taken from it,
and the watcher does not read one that was truncated and not written. -/
def TakesTurns (s : TriggerState) : TriggerLabel → Prop
  | .openTruncate kind _ => s.name kind = none
  | .watcherRead => s.watcher.reads = none ∨ s.watcher.reads ≠ s.writer.truncated
  | _ => True

instance (s : TriggerState) : ∀ l, Decidable (TakesTurns s l)
  | .openTruncate kind _ => inferInstanceAs (Decidable (s.name kind = none))
  | .watcherRead => inferInstanceAs
      (Decidable (s.watcher.reads = none ∨ s.watcher.reads ≠ s.writer.truncated))
  | .write => inferInstanceAs (Decidable True)
  | .close => inferInstanceAs (Decidable True)
  | .notify _ _ => inferInstanceAs (Decidable True)
  | .watcherOpen => inferInstanceAs (Decidable True)
  | .watcherClose => inferInstanceAs (Decidable True)
  | .watcherDelete => inferInstanceAs (Decidable True)
  | .watcherPost => inferInstanceAs (Decidable True)

theorem readTrigger_triggerBytes (value : UInt32) : readTrigger (triggerBytes value) = value := by
  apply UInt32.toNat_inj.mp
  have hlt := value.toNat_lt
  simp only [readTrigger, triggerBytes, UInt32.toNat_ofNat', UInt32.toNat_toUInt8,
    UInt32.toNat_shiftRight, UInt32.reduceToNat, Nat.shiftRight_eq_div_pow, Nat.reduceMod,
    Nat.reducePow]
  omega

/-! ## One place for every command -/

/-- The file holds the bytes of a command of its kind. -/
def TriggerState.Holds (s : TriggerState) (kind : TriggerKind) (file : TriggerFile) : Prop :=
  ∃ number value, file = ⟨triggerBytes value, some number⟩ ∧
    s.commands[number]? = some (kind, value)

def TriggerWriter.opening : TriggerWriter → Option ℕ
  | .opened _ _ number _ => some number
  | _ => none

/-- The command whose file the watcher has deleted. -/
def TriggerWatcher.taken : TriggerWatcher → Option ℕ
  | .deleted _ file _ => file.command
  | _ => none

/-- The places of commands: being written, in a file, taken by the watcher, or
posted. -/
def TriggerState.places (s : TriggerState) : List (Option ℕ) :=
  [s.writer.opening, s.held .click, s.held .command, s.watcher.taken] ++ s.posts.map Prod.fst

/-- What holds while daemon and watcher take turns. -/
structure TriggerSound (s : TriggerState) : Prop where
  opened : ∀ kind value number i, s.writer = .opened kind value number i →
    s.name kind = some i ∧ s.file i = .empty ∧ s.commands[number]? = some (kind, value)
  filled : ∀ kind i, s.name kind = some i → s.writer.truncated = some i ∨ s.Holds kind (s.file i)
  apart : ∀ i, s.name .click = some i → s.name .command ≠ some i
  created : ∀ kind i, s.name kind = some i → i < s.inodes
  reading : ∀ kind i todo, s.watcher = .opened kind i todo → s.name kind = some i
  copied : ∀ kind file todo, s.watcher = .read kind file todo ∨ s.watcher = .closed kind file todo →
    ∃ i, s.name kind = some i ∧ s.file i = file ∧ s.Holds kind file
  taken : ∀ kind file todo, s.watcher = .deleted kind file todo → s.Holds kind file
  once : ∀ number, s.places.count (some number) = if number < s.commands.length then 1 else 0
  finished : ∀ number ∈ s.finished,
    number < s.commands.length ∧ s.writer.opening ≠ some number
  written : ∀ number, s.writer = .written number → number < s.commands.length
  faithful : ∀ number post, (some number, post) ∈ s.posts →
    ∃ kind value, s.commands[number]? = some (kind, value) ∧ post = triggerPost kind value

/-- A command that is in neither file and not being written is taken or
posted. -/
theorem TriggerSound.kept {s : TriggerState} (h : TriggerSound s) : CommandsKept s := by
  refine ⟨?_, h.faithful⟩
  intro number hnumber hfile
  obtain ⟨hlt, hopening⟩ := h.finished number hnumber
  have honce := h.once number
  rw [if_pos hlt] at honce
  rw [TriggerState.inFile, Bool.or_eq_false_iff] at hfile
  have hclick : s.held .click ≠ some number := by simpa using hfile.1
  have hcommand : s.held .command ≠ some number := by simpa using hfile.2
  have hcopied : ∀ kind file todo, s.watcher = .read kind file todo ∨
      s.watcher = .closed kind file todo → file.command ≠ some number := by
    intro kind file todo hwatcher
    obtain ⟨i, hname, hfile, _⟩ := h.copied kind file todo hwatcher
    have hheld : s.held kind = file.command := by
      rw [TriggerState.held, hname, Option.bind_some, hfile]
    rw [← hheld]
    cases kind with
    | click => exact hclick
    | command => exact hcommand
  have htaken : [s.watcher.unposted].count (some number) =
      [s.watcher.taken].count (some number) := by
    cases hwatcher : s.watcher with
    | handling todo => rfl
    | opened kind i todo => rfl
    | read kind file todo =>
        have hne := hcopied kind file todo (.inl hwatcher)
        simp only [TriggerWatcher.unposted, TriggerWatcher.taken]
        split
        · simp [hne]
        · rfl
    | closed kind file todo =>
        have hne := hcopied kind file todo (.inr hwatcher)
        simp only [TriggerWatcher.unposted, TriggerWatcher.taken]
        split
        · simp [hne]
        · rfl
    | deleted kind file todo =>
        obtain ⟨n, value, rfl, _⟩ := h.taken kind file todo hwatcher
        rfl
  rw [TriggerState.postings, htaken]
  simp only [TriggerState.places, List.count_append, List.count_cons, List.count_nil,
    beq_iff_eq, hclick, hcommand, hopening, if_false] at honce ⊢
  omega

/-! ## Steps -/

theorem TriggerState.count_places (s : TriggerState) (number : ℕ) :
    s.places.count (some number) =
      [s.writer.opening].count (some number) + [s.held .click].count (some number) +
        [s.held .command].count (some number) + [s.watcher.taken].count (some number) +
        (s.posts.map Prod.fst).count (some number) := by
  simp only [places, List.count_append, List.count_cons, List.count_nil]
  omega

theorem count_none (number : ℕ) : [none].count (some number) = 0 := by
  simp

theorem count_some (m number : ℕ) :
    [some m].count (some number) = if m = number then 1 else 0 := by
  simp [List.count_cons]

theorem holds_not_empty {s : TriggerState} {kind : TriggerKind} :
    ¬ s.Holds kind .empty := by
  rintro ⟨number, value, heq, _⟩
  exact absurd (TriggerFile.mk.inj heq).2 (by simp)

theorem TriggerState.Holds.mono {s s' : TriggerState} {kind : TriggerKind} {file : TriggerFile}
    (h : s.Holds kind file) {new : List (TriggerKind × UInt32)}
    (hcommands : s'.commands = s.commands ++ new) : s'.Holds kind file := by
  obtain ⟨number, value, hfile, hcommand⟩ := h
  refine ⟨number, value, hfile, ?_⟩
  rw [hcommands, List.getElem?_append_left (List.getElem?_eq_some_iff.mp hcommand).1, hcommand]

/-- The other name and its file are left alone. -/
theorem TriggerSound.old_of_name {s : TriggerState} (h : TriggerSound s) {kind : TriggerKind}
    (hname : s.name kind = none) {k : TriggerKind} {i : ℕ} (hk : s.name k = some i) :
    k ≠ kind ∧ i ≠ s.inodes := by
  constructor
  · rintro rfl
    exact absurd (hname.symm.trans hk) (by simp)
  · exact Nat.ne_of_lt (h.created k i hk)

/-- A new file holds no command yet. -/
theorem TriggerSound.held_openTruncate {s : TriggerState} (h : TriggerSound s)
    {kind : TriggerKind} (hname : s.name kind = none) (value : UInt32) (k : TriggerKind) :
    (Loader.openTruncate s kind value).held k = s.held k := by
  simp only [TriggerState.held, Loader.openTruncate, hname]
  by_cases heq : k = kind
  · subst heq
    simp [hname, TriggerFile.empty]
  · rw [Function.update_of_ne heq]
    cases hk : s.name k with
    | none => rfl
    | some i =>
        have hne := (h.old_of_name hname hk).2
        rw [Option.bind_some, Option.bind_some, Function.update_of_ne hne]

theorem TriggerSound.openTruncate {s : TriggerState} (h : TriggerSound s)
    (hidle : s.writer = .idle) {kind : TriggerKind} (hname : s.name kind = none) (value : UInt32) :
    TriggerSound (openTruncate s kind value) := by
  have hmono : ∀ k file, s.Holds k file → (Loader.openTruncate s kind value).Holds k file := by
    intro k file hold
    have hcommands : (Loader.openTruncate s kind value).commands =
        s.commands ++ [(kind, value)] := by
      rw [Loader.openTruncate, hname]
    exact hold.mono hcommands
  have hold : ∀ k i, s.name k = some i → k ≠ kind ∧ i ≠ s.inodes :=
    fun k i hk ↦ h.old_of_name hname hk
  have hnew : ∀ k i, Function.update s.name kind (some s.inodes) k = some i →
      k = kind ∧ i = s.inodes ∨ s.name k = some i := by
    intro k i hk
    rcases update_some_cases hk with hnew | ⟨_, hk⟩
    · exact .inl hnew
    · exact .inr hk
  have hheld : ∀ k, (Loader.openTruncate s kind value).held k = s.held k :=
    h.held_openTruncate hname value
  simp only [Loader.openTruncate, hname] at hmono hheld ⊢
  refine ⟨?opened, ?filled, ?apart, ?created, ?reading, ?copied, ?taken, ?once, ?finished,
    ?written, ?faithful⟩
  case opened =>
    intro k v n i hwriter
    obtain ⟨rfl, rfl, rfl, rfl⟩ := TriggerWriter.opened.inj hwriter
    exact ⟨Function.update_self .., Function.update_self .., List.getElem?_concat_length⟩
  case filled =>
    intro k i hk
    rcases hnew k i hk with ⟨rfl, rfl⟩ | hk
    · exact .inl rfl
    · rcases h.filled k i hk with htruncated | hholds
      · rw [hidle] at htruncated
        exact absurd htruncated (by simp [TriggerWriter.truncated])
      · have hfile := Function.update_of_ne (hold k i hk).2 TriggerFile.empty s.file
        rw [← hfile] at hholds
        exact .inr (hmono k _ hholds)
  case apart =>
    intro i hclick hcommand
    rcases hnew .click i hclick with ⟨hk, hi⟩ | hclick
    · rcases hnew .command i hcommand with ⟨hk', _⟩ | hcommand
      · exact absurd (hk.trans hk'.symm) (by simp)
      · exact (hold .command i hcommand).2 hi
    · rcases hnew .command i hcommand with ⟨_, hi⟩ | hcommand
      · exact (hold .click i hclick).2 hi
      · exact h.apart i hclick hcommand
  case created =>
    intro k i hk
    rcases hnew k i hk with ⟨_, rfl⟩ | hk
    · exact Nat.lt_succ_self _
    · exact Nat.lt_succ_of_lt (h.created k i hk)
  case reading =>
    intro k i todo hwatcher
    have hk := h.reading k i todo hwatcher
    exact (Function.update_of_ne (hold k i hk).1 _ _).trans hk
  case copied =>
    intro k file todo hwatcher
    obtain ⟨i, hk, hfile, hholds⟩ := h.copied k file todo hwatcher
    exact ⟨i, (Function.update_of_ne (hold k i hk).1 _ _).trans hk,
      (Function.update_of_ne (hold k i hk).2 _ _).trans hfile, hmono k file hholds⟩
  case taken =>
    intro k file todo hwatcher
    exact hmono k file (h.taken k file todo hwatcher)
  case once =>
    intro n
    have honce := h.once n
    simp only [TriggerState.count_places, hidle, TriggerWriter.opening, count_none] at honce
    simp only [TriggerState.count_places, hheld, TriggerWriter.opening, count_some,
      List.length_append, List.length_singleton]
    split_ifs at honce ⊢
    all_goals omega
  case finished =>
    intro n hn
    have hlt := (h.finished n hn).1
    refine ⟨?_, ?_⟩
    · rw [List.length_append]
      exact Nat.lt_add_right _ hlt
    · intro heq
      exact absurd (Option.some.inj heq) (Nat.ne_of_gt hlt)
  case written =>
    intro n hwriter
    exact absurd hwriter (by simp)
  case faithful =>
    intro n post hpost
    obtain ⟨k, v, hcommand, rfl⟩ := h.faithful n post hpost
    refine ⟨k, v, ?_, rfl⟩
    rw [List.getElem?_append_left (List.getElem?_eq_some_iff.mp hcommand).1, hcommand]

/-- Two names do not share a file. -/
theorem TriggerSound.name_inj {s : TriggerState} (h : TriggerSound s) {k kind : TriggerKind}
    {i : ℕ} (hk : s.name k = some i) (hkind : s.name kind = some i) : k = kind := by
  cases k with
  | click =>
      cases kind with
      | click => rfl
      | command => exact absurd hkind (h.apart i hk)
  | command =>
      cases kind with
      | click => exact absurd hk (h.apart i hkind)
      | command => rfl

/-- The command goes from the daemon to its file. -/
theorem TriggerSound.write {s : TriggerState} (h : TriggerSound s) {kind : TriggerKind}
    {value : UInt32} {number i : ℕ} (hwriter : s.writer = .opened kind value number i) :
    TriggerSound { s with
      file := Function.update s.file i ⟨triggerBytes value, some number⟩
      writer := .written number } := by
  obtain ⟨hname, hempty, hcommand⟩ := h.opened kind value number i hwriter
  have hother : ∀ k i', s.name k = some i' → k ≠ kind → i' ≠ i := by
    rintro k i' hk hne rfl
    exact hne (h.name_inj hk hname)
  have hheld : ∀ k, k ≠ kind → ({ s with
      file := Function.update s.file i ⟨triggerBytes value, some number⟩
      writer := .written number } : TriggerState).held k = s.held k := by
    intro k hne
    simp only [TriggerState.held]
    cases hk : s.name k with
    | none => rfl
    | some i' =>
        rw [Option.bind_some, Option.bind_some, Function.update_of_ne (hother k i' hk hne)]
  have hnone : s.held kind = none := by
    rw [TriggerState.held, hname, Option.bind_some, hempty]
    rfl
  have hsome : ({ s with
      file := Function.update s.file i ⟨triggerBytes value, some number⟩
      writer := .written number } : TriggerState).held kind = some number := by
    simp only [TriggerState.held, hname, Option.bind_some, Function.update_self]
  refine ⟨?opened, ?filled, h.apart, h.created, h.reading, ?copied, h.taken, ?once, ?finished,
    ?written, h.faithful⟩
  case opened =>
    intro k v n i' hopened
    exact absurd hopened (by simp)
  case filled =>
    intro k i' hk
    by_cases hne : k = kind
    · subst hne
      obtain rfl := Option.some.inj (hname.symm.trans hk)
      exact .inr ⟨number, value, Function.update_self .., hcommand⟩
    · have hi := hother k i' hk hne
      have hfile := Function.update_of_ne hi ⟨triggerBytes value, some number⟩ s.file
      rcases h.filled k i' hk with htruncated | hholds
      · rw [hwriter] at htruncated
        exact absurd (Option.some.inj htruncated).symm hi
      · rw [← hfile] at hholds
        exact .inr hholds
  case copied =>
    intro k file todo hwatcher
    obtain ⟨i', hk, hfile, hholds⟩ := h.copied k file todo hwatcher
    have hi : i' ≠ i := by
      rintro rfl
      rw [hempty] at hfile
      exact holds_not_empty (hfile ▸ hholds)
    exact ⟨i', hk, (Function.update_of_ne hi _ _).trans hfile, hholds⟩
  case once =>
    intro n
    have honce := h.once n
    cases kind with
    | click =>
        simp only [TriggerState.count_places, hwriter, TriggerWriter.opening, hnone,
          count_none] at honce
        simp only [TriggerState.count_places, TriggerWriter.opening, hsome,
          hheld .command (by simp), count_none]
        omega
    | command =>
        simp only [TriggerState.count_places, hwriter, TriggerWriter.opening, hnone,
          count_none] at honce
        simp only [TriggerState.count_places, TriggerWriter.opening, hsome,
          hheld .click (by simp), count_none]
        omega
  case finished =>
    intro n hn
    exact ⟨(h.finished n hn).1, by simp [TriggerWriter.opening]⟩
  case written =>
    intro n hn
    obtain rfl := TriggerWriter.written.inj hn
    exact (List.getElem?_eq_some_iff.mp hcommand).1

theorem TriggerSound.close {s : TriggerState} (h : TriggerSound s) {number : ℕ}
    (hwriter : s.writer = .written number) :
    TriggerSound { s with writer := .idle, finished := s.finished ++ [number] } := by
  have hopening : s.writer.opening = none := by
    rw [hwriter]
    rfl
  refine ⟨?opened, ?filled, h.apart, h.created, h.reading, h.copied, h.taken, ?once, ?finished,
    ?written, h.faithful⟩
  case opened =>
    intro k v n i hopened
    exact absurd hopened (by simp)
  case filled =>
    intro k i hk
    have hfilled := h.filled k i hk
    rw [hwriter] at hfilled
    exact hfilled
  case once =>
    intro n
    have honce := h.once n
    rw [TriggerState.count_places, hopening] at honce
    rw [TriggerState.count_places, ← honce]
    rfl
  case finished =>
    intro n hn
    refine ⟨?_, by simp [TriggerWriter.opening]⟩
    rcases List.mem_append.mp hn with hn | hn
    · exact (h.finished n hn).1
    · obtain rfl := List.mem_singleton.mp hn
      exact h.written n hwriter
  case written =>
    intro n hn
    exact absurd hn (by simp)

/-- The watcher goes on to a state in which it has taken nothing. -/
theorem TriggerSound.watch {s : TriggerState} (h : TriggerSound s) {watcher : TriggerWatcher}
    (hbefore : s.watcher.taken = none) (hafter : watcher.taken = none)
    (hreading : ∀ kind i todo, watcher = .opened kind i todo → s.name kind = some i)
    (hcopied : ∀ kind file todo, watcher = .read kind file todo ∨ watcher = .closed kind file todo →
      ∃ i, s.name kind = some i ∧ s.file i = file ∧ s.Holds kind file)
    (hdeleted : ∀ kind file todo, watcher ≠ .deleted kind file todo) :
    TriggerSound { s with watcher := watcher } := by
  refine ⟨h.opened, h.filled, h.apart, h.created, hreading, hcopied, ?_, ?_, h.finished,
    h.written, h.faithful⟩
  · intro kind file todo hwatcher
    exact absurd hwatcher (hdeleted kind file todo)
  · intro n
    have honce := h.once n
    rw [TriggerState.count_places, hbefore] at honce
    rw [TriggerState.count_places, hafter, ← honce]
    rfl

theorem TriggerSound.watcherOpen {s : TriggerState} (h : TriggerSound s) {kind : TriggerKind}
    {todo : List TriggerKind} (hwatcher : s.watcher = .handling (kind :: todo)) :
    TriggerSound { s with
      watcher :=
        match s.name kind with
        | some i => .opened kind i todo
        | none => .handling todo } := by
  have hbefore : s.watcher.taken = none := by
    rw [hwatcher]
    rfl
  split
  · rename_i i hname
    apply h.watch hbefore rfl
    · intro k i' todo' heq
      obtain ⟨rfl, rfl, rfl⟩ := TriggerWatcher.opened.inj heq
      exact hname
    · intro k file todo' heq
      exact absurd heq (by simp)
    · intro k file todo'
      simp
  · apply h.watch hbefore rfl
    · intro k i' todo' heq
      exact absurd heq (by simp)
    · intro k file todo' heq
      exact absurd heq (by simp)
    · intro k file todo'
      simp

/-- A file that is not being written holds a whole command. -/
theorem TriggerSound.watcherRead {s : TriggerState} (h : TriggerSound s) {kind : TriggerKind}
    {i : ℕ} {todo : List TriggerKind} (hwatcher : s.watcher = .opened kind i todo)
    (hturns : TakesTurns s .watcherRead) :
    TriggerSound { s with
      watcher := .read kind ⟨(s.file i).bytes.take 4, (s.file i).command⟩ todo } := by
  have hname := h.reading kind i todo hwatcher
  have hholds : s.Holds kind (s.file i) := by
    rcases h.filled kind i hname with htruncated | hholds
    · rw [TakesTurns, hwatcher, TriggerWatcher.reads, htruncated] at hturns
      exact absurd hturns (by simp)
    · exact hholds
  have hread : (⟨(s.file i).bytes.take 4, (s.file i).command⟩ : TriggerFile) = s.file i := by
    obtain ⟨number, value, hfile, _⟩ := hholds
    rw [hfile]
    rfl
  have hbefore : s.watcher.taken = none := by
    rw [hwatcher]
    rfl
  rw [hread]
  apply h.watch hbefore rfl
  · intro k i' todo' heq
    exact absurd heq (by simp)
  · intro k file todo' heq
    rcases heq with heq | heq
    · obtain ⟨rfl, rfl, rfl⟩ := TriggerWatcher.read.inj heq
      exact ⟨i, hname, rfl, hholds⟩
    · exact absurd heq (by simp)
  · intro k file todo'
    simp

theorem TriggerSound.watcherClose {s : TriggerState} (h : TriggerSound s) {kind : TriggerKind}
    {file : TriggerFile} {todo : List TriggerKind} (hwatcher : s.watcher = .read kind file todo) :
    TriggerSound { s with watcher := .closed kind file todo } := by
  have hbefore : s.watcher.taken = none := by
    rw [hwatcher]
    rfl
  apply h.watch hbefore rfl
  · intro k i' todo' heq
    exact absurd heq (by simp)
  · intro k file' todo' heq
    rcases heq with heq | heq
    · exact absurd heq (by simp)
    · obtain ⟨rfl, rfl, rfl⟩ := TriggerWatcher.closed.inj heq
      exact h.copied _ _ _ (.inl hwatcher)
  · intro k file' todo'
    simp

/-- The command goes from its file to the watcher. -/
theorem TriggerSound.watcherDelete {s : TriggerState} (h : TriggerSound s) {kind : TriggerKind}
    {file : TriggerFile} {todo : List TriggerKind} (hwatcher : s.watcher = .closed kind file todo) :
    TriggerSound { s with
      name := Function.update s.name kind none
      watcher := .deleted kind file todo } := by
  obtain ⟨i, hname, hfile, hholds⟩ := h.copied kind file todo (.inr hwatcher)
  obtain ⟨number, value, rfl, hcommand⟩ := hholds
  have hkept : ∀ k i', Function.update s.name kind none k = some i' →
      k ≠ kind ∧ s.name k = some i' :=
    fun k i' hk ↦ (update_none_iff.mp hk).symm
  have hbefore : s.held kind = some number := by
    rw [TriggerState.held, hname, Option.bind_some, hfile]
  have hafter : ({ s with
      name := Function.update s.name kind none
      watcher := .deleted kind ⟨triggerBytes value, some number⟩ todo } :
        TriggerState).held kind = none := by
    simp only [TriggerState.held, Function.update_self, Option.bind_none]
  have hother : ∀ k, k ≠ kind → ({ s with
      name := Function.update s.name kind none
      watcher := .deleted kind ⟨triggerBytes value, some number⟩ todo } :
        TriggerState).held k = s.held k := by
    intro k hne
    simp only [TriggerState.held, Function.update_of_ne hne]
  refine ⟨?opened, ?filled, ?apart, ?created, ?reading, ?copied, ?taken, ?once, h.finished,
    h.written, h.faithful⟩
  case opened =>
    intro k v n i' hwriter
    obtain ⟨hk, hempty, hstarted⟩ := h.opened k v n i' hwriter
    have hne : k ≠ kind := by
      rintro rfl
      obtain rfl := Option.some.inj (hname.symm.trans hk)
      rw [hempty] at hfile
      exact holds_not_empty (s := s) ⟨number, value, hfile, hcommand⟩
    exact ⟨(Function.update_of_ne hne _ _).trans hk, hempty, hstarted⟩
  case filled =>
    intro k i' hk
    exact h.filled k i' (hkept k i' hk).2
  case apart =>
    intro i' hclick hcommand'
    exact h.apart i' (hkept _ i' hclick).2 (hkept _ i' hcommand').2
  case created =>
    intro k i' hk
    exact h.created k i' (hkept k i' hk).2
  case reading =>
    intro k i' todo' heq
    exact absurd heq (by simp)
  case copied =>
    intro k file' todo' heq
    exact absurd heq (by simp)
  case taken =>
    intro k file' todo' heq
    obtain ⟨rfl, rfl, rfl⟩ := TriggerWatcher.deleted.inj heq
    exact ⟨number, value, rfl, hcommand⟩
  case once =>
    intro n
    have honce := h.once n
    cases kind with
    | click =>
        simp only [TriggerState.count_places, hwatcher, TriggerWatcher.taken, hbefore,
          count_none] at honce
        simp only [TriggerState.count_places, TriggerWatcher.taken, hafter,
          hother .command (by simp), count_none]
        omega
    | command =>
        simp only [TriggerState.count_places, hwatcher, TriggerWatcher.taken, hbefore,
          count_none] at honce
        simp only [TriggerState.count_places, TriggerWatcher.taken, hafter,
          hother .click (by simp), count_none]
        omega

/-- The command goes from the watcher to the posts. -/
theorem TriggerSound.watcherPost {s : TriggerState} (h : TriggerSound s) {kind : TriggerKind}
    {file : TriggerFile} {todo : List TriggerKind}
    (hwatcher : s.watcher = .deleted kind file todo) :
    TriggerSound { s with
      watcher := .handling todo, posts := s.posts ++ postTrigger kind file } := by
  obtain ⟨number, value, hcontents, hcommand⟩ := h.taken kind file todo hwatcher
  have hpost : postTrigger kind file = [(some number, triggerPost kind value)] := by
    rw [hcontents, postTrigger, readTrigger_triggerBytes]
    rfl
  rw [hpost]
  refine ⟨h.opened, h.filled, h.apart, h.created, ?reading, ?copied, ?taken, ?once, h.finished,
    h.written, ?faithful⟩
  case reading =>
    intro k i todo' heq
    exact absurd heq (by simp)
  case copied =>
    intro k file' todo' heq
    exact absurd heq (by simp)
  case taken =>
    intro k file' todo' heq
    exact absurd heq (by simp)
  case once =>
    intro n
    have honce := h.once n
    have hheld : ∀ k, ({ s with
        watcher := .handling todo
        posts := s.posts ++ [(some number, triggerPost kind value)] } : TriggerState).held k =
          s.held k := fun _ ↦ rfl
    simp only [TriggerState.count_places, hwatcher, TriggerWatcher.taken, hcontents] at honce
    simp only [TriggerState.count_places, TriggerWatcher.taken, hheld, count_none,
      List.map_append, List.map_cons, List.map_nil, List.count_append]
    omega
  case faithful =>
    intro n post hmem
    rcases List.mem_append.mp hmem with hmem | hmem
    · exact h.faithful n post hmem
    · obtain ⟨hn, rfl⟩ := Prod.mk.inj (List.mem_singleton.mp hmem)
      obtain rfl := Option.some.inj hn
      exact ⟨kind, value, hcommand, rfl⟩

theorem TriggerSound.step {s s' : TriggerState} {l : TriggerLabel} (h : TriggerSound s)
    (hturns : TakesTurns s l) (hstep : triggerStep s l = some s') : TriggerSound s' := by
  cases l with
  | openTruncate kind value =>
      simp only [triggerStep] at hstep
      split at hstep
      · rename_i hidle
        exact Option.some.inj hstep ▸ h.openTruncate hidle hturns value
      · exact absurd hstep (by simp)
  | write =>
      simp only [triggerStep] at hstep
      split at hstep
      · rename_i hwriter
        exact Option.some.inj hstep ▸ h.write hwriter
      · exact absurd hstep (by simp)
  | close =>
      simp only [triggerStep] at hstep
      split at hstep
      · rename_i hwriter
        exact Option.some.inj hstep ▸ h.close hwriter
      · exact absurd hstep (by simp)
  | notify matchedClick matchedCommand =>
      simp only [triggerStep] at hstep
      split at hstep
      · rename_i hwatcher
        obtain rfl := Option.some.inj hstep
        have hbefore : s.watcher.taken = none := by
          rw [hwatcher]
          rfl
        apply h.watch hbefore rfl
        · intro k i todo heq
          exact absurd heq (by simp)
        · intro k file todo heq
          exact absurd heq (by simp)
        · intro k file todo
          simp
      · exact absurd hstep (by simp)
  | watcherOpen =>
      simp only [triggerStep] at hstep
      split at hstep
      · rename_i hwatcher
        exact Option.some.inj hstep ▸ h.watcherOpen hwatcher
      · exact absurd hstep (by simp)
  | watcherRead =>
      simp only [triggerStep] at hstep
      split at hstep
      · rename_i hwatcher
        exact Option.some.inj hstep ▸ h.watcherRead hwatcher hturns
      · exact absurd hstep (by simp)
  | watcherClose =>
      simp only [triggerStep] at hstep
      split at hstep
      · rename_i hwatcher
        exact Option.some.inj hstep ▸ h.watcherClose hwatcher
      · exact absurd hstep (by simp)
  | watcherDelete =>
      simp only [triggerStep] at hstep
      split at hstep
      · rename_i hwatcher
        exact Option.some.inj hstep ▸ h.watcherDelete hwatcher
      · exact absurd hstep (by simp)
  | watcherPost =>
      simp only [triggerStep] at hstep
      split at hstep
      · rename_i hwatcher
        exact Option.some.inj hstep ▸ h.watcherPost hwatcher
      · exact absurd hstep (by simp)

/-! ## Runs -/

theorem triggerSound_initial : TriggerSound .initial := by
  refine ⟨?opened, ?filled, ?apart, ?created, ?reading, ?copied, ?taken, ?once, ?finished,
    ?written, ?faithful⟩
  case opened =>
    intro k v n i heq
    exact absurd heq (by simp [TriggerState.initial])
  case filled =>
    intro k i hk
    exact absurd hk (by simp [TriggerState.initial])
  case apart =>
    intro i hclick
    exact absurd hclick (by simp [TriggerState.initial])
  case created =>
    intro k i hk
    exact absurd hk (by simp [TriggerState.initial])
  case reading =>
    intro k i todo heq
    exact absurd heq (by simp [TriggerState.initial])
  case copied =>
    intro k file todo heq
    exact absurd heq (by simp [TriggerState.initial])
  case taken =>
    intro k file todo heq
    exact absurd heq (by simp [TriggerState.initial])
  case once =>
    intro n
    simp [TriggerState.places, TriggerState.initial, TriggerState.held, TriggerWriter.opening,
      TriggerWatcher.taken]
  case finished =>
    intro n hn
    exact absurd hn List.not_mem_nil
  case written =>
    intro n heq
    exact absurd heq (by simp [TriggerState.initial])
  case faithful =>
    intro n post hpost
    exact absurd hpost List.not_mem_nil

/-- No command is lost or posted twice as long as daemon and watcher take
turns. -/
theorem commands_kept_of_turns (ls : List TriggerLabel)
    (h : Guarded triggerStep TakesTurns .initial ls) :
    Always triggerStep CommandsKept .initial ls := by
  have hsound : Always triggerStep TriggerSound .initial ls :=
    always_of_guarded (fun _ _ _ hs hg ht ↦ hs.step hg ht) triggerSound_initial h
  exact hsound.mono fun _ hs ↦ hs.kept

/-- A command and a click are handed over one after the other. -/
theorem commands_kept_of_turns_command_click :
    Always triggerStep CommandsKept .initial
      (wpTraySendMenuCommand 40001 ++ [.notify false true, .watcherOpen, .watcherRead,
        .watcherClose, .watcherDelete] ++ wpTrayWriteClick 1 ++ [.watcherPost, .notify true false,
        .watcherOpen, .watcherRead, .watcherClose, .watcherDelete, .watcherPost]) :=
  commands_kept_of_turns _ (by decide +kernel)

/-- The watcher reads the file before it is written and deletes it, and the
command is lost; and a command is lost when the next one overwrites it. -/
theorem commands_lost :
    (¬ Always triggerStep CommandsKept .initial [.openTruncate .command 5, .notify false true,
      .watcherOpen, .watcherRead, .watcherClose, .watcherDelete, .watcherPost, .write, .close]) ∧
      ¬ Always triggerStep CommandsKept .initial (wpTraySendMenuCommand 5 ++
        wpTraySendMenuCommand 6) := by
  have hlost : ∀ {ls : List TriggerLabel}, (exec triggerStep .initial ls).map
      (fun s ↦ decide (∀ n ∈ s.finished, s.inFile n = false → s.postings n = 1)) = some false →
        ¬ Always triggerStep CommandsKept .initial ls := by
    intro ls hrun h
    obtain ⟨s, hs, hnot⟩ := Option.map_eq_some_iff.mp hrun
    exact absurd (h.exec hs).once (of_decide_eq_false hnot)
  exact ⟨hlost (by decide +kernel), hlost (by decide +kernel)⟩

end Wallpiper.Loader
