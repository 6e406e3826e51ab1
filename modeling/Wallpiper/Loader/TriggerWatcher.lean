import Wallpiper.Loader.NotifyBuffer

/-!
# The watcher of the trigger files

The watcher waits for records of changes, scans them and handles the files that
they name.  Changes before it first waits are not recorded, and records for which
there is no room are dropped.  Where neither happens to a trigger file, none is
left behind.  What a file held is posted to the window that the hooks have seen
last, and is dropped while they have seen none.
-/

namespace Wallpiper.Loader

open Foundations Foundations.CText

/-- A command that was read, and the window it was posted to if any. -/
structure TriggerOutcome where
  command : Option ℕ
  post : TriggerPost
  window : Option UInt64
  deriving DecidableEq

/-- The files, the records that the watcher has not fetched yet and the windows
`g_tray_hwnd` and `g_menu_owner_hwnd`; `tests` are the values of its window that
the handler has looked at since it deleted the file. -/
structure TriggerWatch where
  files : TriggerState
  attached : Bool
  unread : List FileNotify
  window : TriggerKind → UInt64
  tests : List UInt64
  outcomes : List TriggerOutcome

inductive TriggerAct
  /-- `ReadDirectoryChangesW` is called for the first time -/
  | attach
  /-- a step at the files, and the padding of a record for it -/
  | files (l : TriggerLabel) (padding : Bytes)
  /-- any other change is recorded, or one more time -/
  | noticed (r : FileNotify)
  /-- the records are dropped, and the call gives no bytes or fails -/
  | overflow
  /-- the call gives `k` records, with stale bytes behind them -/
  | fetch (k : ℕ) (stale : Bytes)
  /-- a hook has written the icon or shows a menu, and sets the window -/
  | window (kind : TriggerKind) (hwnd : UInt64)
  /-- the handler tests its window -/
  | test
  /-- the handler posts or returns -/
  | post

def TriggerLabel.opens : TriggerLabel → Bool
  | .openTruncate _ _ => true
  | _ => false

/-- The file is in the directory that is watched. -/
def TriggerConfig.Watched (cfg : TriggerConfig) (kind : TriggerKind) : Prop :=
  ∃ path dir, cfg.path kind = some path ∧ directoryW path.units = some dir ∧
    resolveWatchDirectory cfg = some dir

/-- The record of a file that is created. -/
def createdRecord (cfg : TriggerConfig) (s : TriggerState) (padding : Bytes) :
    TriggerLabel → List FileNotify
  | .openTruncate kind _ =>
      match s.name kind, cfg.path kind with
      | none, some path =>
          if directoryW path.units = resolveWatchDirectory cfg then
            [⟨fileActionAdded, basenameW path.units, padding⟩]
          else []
      | _, _ => []
  | _ => []

/-- `handle_click_trigger` tests the window, and `post_tray_click` once more. -/
def TriggerKind.tests : TriggerKind → ℕ
  | .click => 2
  | .command => 1

/-- The kind of file whose command is to be posted next. -/
def TriggerWatcher.posting : TriggerWatcher → Option TriggerKind
  | .deleted kind _ _ => some kind
  | _ => none

namespace TriggerWatch

def start : TriggerWatch := ⟨.initial, false, [], fun _ ↦ 0, [], []⟩

/-- The window is looked up once more for `PostMessageW`. -/
def postWindow (s : TriggerWatch) (kind : TriggerKind) : Option UInt64 :=
  if 0 ∈ s.tests then none else some (s.window kind)

section Steps

variable (lstrcmpiW : List UInt16 → List UInt16 → Int) (cfg : TriggerConfig)

def step (s : TriggerWatch) : TriggerAct → Option TriggerWatch
  | .attach => some { s with attached := true }
  | .files (.notify _ _) _ => none
  | .files .watcherPost _ => none
  | .files l padding =>
      (triggerStep s.files l).map fun files ↦
        { s with
          files
          unread :=
            if s.attached then s.unread ++ createdRecord cfg s.files padding l else s.unread }
  | .noticed r => some { s with unread := if s.attached then s.unread ++ [r] else s.unread }
  | .overflow => some { s with unread := [] }
  | .fetch k stale =>
      let records := s.unread.take k
      let notifyBuf := notifyBytes records ++ stale
      if s.attached ∧ records ≠ [] ∧ notifyBuf.length = 4096 then do
        let (matchedCommand, matchedClick) ← scanNotifyBuffer lstrcmpiW cfg notifyBuf
        let files ← triggerStep s.files (.notify matchedClick matchedCommand)
        return { s with files, unread := s.unread.drop k }
      else none
  | .window kind hwnd => some { s with window := Function.update s.window kind hwnd }
  | .test =>
      match s.files.watcher with
      | .deleted kind file _ =>
          if file.bytes.length = 4 ∧ s.tests.length < kind.tests ∧ 0 ∉ s.tests then
            some { s with tests := s.tests ++ [s.window kind] }
          else none
      | _ => none
  | .post =>
      match s.files.watcher with
      | .deleted kind file _ =>
          if file.bytes.length ≠ 4 ∨ 0 ∈ s.tests ∨ s.tests.length = kind.tests then
            (triggerStep s.files .watcherPost).map fun files ↦
              { s with
                files
                tests := []
                outcomes := s.outcomes ++ (postTrigger kind file).map fun (command, post) ↦
                  ⟨command, post, s.postWindow kind⟩ }
          else none
      | _ => none

end Steps

/-- No trigger file is created before the watcher waits, and no records are
dropped while one is there. -/
def Noticed (s : TriggerWatch) : TriggerAct → Prop
  | .files l _ => l.opens = true → s.attached = true
  | .overflow => s.files.name .click = none ∧ s.files.name .command = none
  | _ => True

/-- Daemon and watcher take turns at the files. -/
def TakesTurns (s : TriggerWatch) : TriggerAct → Prop
  | .files l _ => Loader.TakesTurns s.files l
  | _ => True

/-- The window of a command is known when it is tested and posted. -/
def Known (s : TriggerWatch) : TriggerAct → Prop
  | .test | .post => ∀ kind ∈ s.files.watcher.posting, s.window kind ≠ 0
  | _ => True

instance (s : TriggerWatch) : DecidablePred s.Noticed
  | .attach => inferInstanceAs (Decidable True)
  | .files _ _ => inferInstanceAs (Decidable (_ → _))
  | .noticed _ => inferInstanceAs (Decidable True)
  | .overflow => inferInstanceAs (Decidable (_ ∧ _))
  | .fetch _ _ => inferInstanceAs (Decidable True)
  | .window _ _ => inferInstanceAs (Decidable True)
  | .test => inferInstanceAs (Decidable True)
  | .post => inferInstanceAs (Decidable True)

instance (s : TriggerWatch) : DecidablePred s.TakesTurns
  | .attach => inferInstanceAs (Decidable True)
  | .files l _ => inferInstanceAs (Decidable (Loader.TakesTurns s.files l))
  | .noticed _ => inferInstanceAs (Decidable True)
  | .overflow => inferInstanceAs (Decidable True)
  | .fetch _ _ => inferInstanceAs (Decidable True)
  | .window _ _ => inferInstanceAs (Decidable True)
  | .test => inferInstanceAs (Decidable True)
  | .post => inferInstanceAs (Decidable True)

instance (s : TriggerWatch) : DecidablePred s.Known
  | .attach => inferInstanceAs (Decidable True)
  | .files _ _ => inferInstanceAs (Decidable True)
  | .noticed _ => inferInstanceAs (Decidable True)
  | .overflow => inferInstanceAs (Decidable True)
  | .fetch _ _ => inferInstanceAs (Decidable True)
  | .window _ _ => inferInstanceAs (Decidable True)
  | .test => inferInstanceAs (Decidable (∀ _ ∈ s.files.watcher.posting, _))
  | .post => inferInstanceAs (Decidable (∀ _ ∈ s.files.watcher.posting, _))

end TriggerWatch

/-! ## Files on their way -/

/-- The files that the watcher is to delete. -/
def TriggerWatcher.pending : TriggerWatcher → List TriggerKind
  | .handling todo => todo
  | .opened kind _ todo => kind :: todo
  | .read kind _ todo => kind :: todo
  | .closed kind _ todo => kind :: todo
  | .deleted _ _ todo => todo

/-- A file that is there after a step has just been created, or it was there and
the watcher still is to delete it if it was. -/
theorem pending_of_triggerStep {s s' : TriggerState} {l : TriggerLabel}
    (h : triggerStep s l = some s') (hl : ∀ click command, l ≠ .notify click command)
    {kind : TriggerKind} (hname : s'.name kind ≠ none) :
    (s.name kind ≠ none ∧ (kind ∈ s.watcher.pending → kind ∈ s'.watcher.pending)) ∨
      s.name kind = none ∧ ∃ value, l = .openTruncate kind value := by
  cases l with
  | openTruncate k value =>
      simp only [triggerStep] at h
      split at h
      · obtain rfl := Option.some.inj h
        unfold openTruncate at hname ⊢
        split at hname
        · exact .inl ⟨hname, fun hpending ↦ by simpa using hpending⟩
        · rename_i hnone
          obtain rfl | hne := eq_or_ne kind k
          · exact .inr ⟨hnone, value, rfl⟩
          · simp only [Function.update_of_ne hne] at hname
            exact .inl ⟨hname, id⟩
      · cases h
  | write =>
      simp only [triggerStep] at h
      split at h
      · obtain rfl := Option.some.inj h
        exact .inl ⟨hname, id⟩
      · cases h
  | close =>
      simp only [triggerStep] at h
      split at h
      · obtain rfl := Option.some.inj h
        exact .inl ⟨hname, id⟩
      · cases h
  | notify click command => exact absurd rfl (hl click command)
  | watcherOpen =>
      simp only [triggerStep] at h
      split at h
      · rename_i k todo hwatcher
        obtain rfl := Option.some.inj h
        refine .inl ⟨hname, fun hpending ↦ ?_⟩
        rw [hwatcher] at hpending
        split
        · exact hpending
        · rename_i hnone
          exact (List.mem_cons.mp hpending).resolve_left fun heq ↦ hname (heq ▸ hnone)
      · cases h
  | watcherRead =>
      simp only [triggerStep] at h
      split at h
      · rename_i hwatcher
        obtain rfl := Option.some.inj h
        rw [hwatcher]
        exact .inl ⟨hname, id⟩
      · cases h
  | watcherClose =>
      simp only [triggerStep] at h
      split at h
      · rename_i hwatcher
        obtain rfl := Option.some.inj h
        rw [hwatcher]
        exact .inl ⟨hname, id⟩
      · cases h
  | watcherDelete =>
      simp only [triggerStep] at h
      split at h
      · rename_i k file todo hwatcher
        obtain rfl := Option.some.inj h
        obtain rfl | hne := eq_or_ne kind k
        · exact absurd (Function.update_self ..) hname
        · simp only [Function.update_of_ne hne] at hname
          rw [hwatcher]
          exact .inl ⟨hname, fun hpending ↦ (List.mem_cons.mp hpending).resolve_left hne⟩
      · cases h
  | watcherPost =>
      simp only [triggerStep] at h
      split at h
      · rename_i hwatcher
        obtain rfl := Option.some.inj h
        rw [hwatcher]
        exact .inl ⟨hname, id⟩
      · cases h

namespace TriggerWatch

variable {lstrcmpiW : List UInt16 → List UInt16 → Int} {cfg : TriggerConfig}

/-- A watched file that is there is on its way to be deleted. -/
def OnTheWay (lstrcmpiW : List UInt16 → List UInt16 → Int) (cfg : TriggerConfig)
    (s : TriggerWatch) : Prop :=
  ∀ kind, cfg.Watched kind → s.files.name kind ≠ none →
    kind ∈ s.files.watcher.pending ∨ anyConcerns lstrcmpiW cfg kind s.unread = true

theorem anyConcerns_append {kind : TriggerKind} {rs more : List FileNotify} :
    anyConcerns lstrcmpiW cfg kind (rs ++ more) =
      (anyConcerns lstrcmpiW cfg kind rs || anyConcerns lstrcmpiW cfg kind more) := by
  rw [anyConcerns, List.any_append]
  rfl

/-- The name of a trigger file is short enough to be compared as it is. -/
theorem shown_basenameW (path : WideText 260) (action : UInt32) (padding : Bytes) :
    FileNotify.shown ⟨action, basenameW path.units, padding⟩ = basenameW path.units := by
  have hsuffix := basenameW_suffix path.units
  have hlength := hsuffix.length_le
  have hlt := path.length_lt
  have htake : (basenameW path.units).take 259 = basenameW path.units :=
    List.take_of_length_le (by omega)
  rw [FileNotify.shown, htake, List.takeWhile_eq_self_iff]
  intro u hu
  have hne : u ≠ 0 := fun h ↦ path.no_nul (h ▸ hsuffix.subset hu)
  simpa using hne

/-- The record of a new file names it. -/
theorem concerns_createdRecord (hrefl : ∀ name, lstrcmpiW name name = 0) {kind : TriggerKind}
    (hwatched : cfg.Watched kind) {s : TriggerState} (hname : s.name kind = none) (value : UInt32)
    (padding : Bytes) :
    anyConcerns lstrcmpiW cfg kind
      (createdRecord cfg s padding (.openTruncate kind value)) = true := by
  obtain ⟨path, dir, hpath, hdir, hresolve⟩ := hwatched
  have hrecord : createdRecord cfg s padding (.openTruncate kind value) =
      [⟨fileActionAdded, basenameW path.units, padding⟩] := by
    simp only [createdRecord, hname, hpath]
    rw [if_pos (hdir.trans hresolve.symm)]
  rw [hrecord, anyConcerns, List.any_cons, shown_basenameW]
  simp [TriggerConfig.concerns, TriggerConfig.fname, hpath, hrefl, isWrite]

theorem OnTheWay.files {s : TriggerWatch} {files : TriggerState} {l : TriggerLabel}
    {padding : Bytes} (hrefl : ∀ name, lstrcmpiW name name = 0) (hs : OnTheWay lstrcmpiW cfg s)
    (hl : ∀ click command, l ≠ .notify click command) (hnoticed : s.Noticed (.files l padding))
    (h : triggerStep s.files l = some files) :
    OnTheWay lstrcmpiW cfg { s with
      files
      unread :=
        if s.attached then s.unread ++ createdRecord cfg s.files padding l else s.unread } := by
  intro kind hwatched hname
  rcases pending_of_triggerStep h hl hname with ⟨hbefore, hpending⟩ | ⟨hnone, value, rfl⟩
  · refine (hs kind hwatched hbefore).imp hpending fun hany ↦ ?_
    split
    · rw [anyConcerns_append, hany, Bool.true_or]
    · exact hany
  · have hattached : s.attached = true := hnoticed rfl
    refine .inr ?_
    rw [if_pos hattached, anyConcerns_append, concerns_createdRecord hrefl hwatched hnone,
      Bool.or_true]

theorem step_fetch {s s' : TriggerWatch} {k : ℕ} {stale : Bytes}
    (h : step lstrcmpiW cfg s (.fetch k stale) = some s') :
    ∃ files, triggerStep s.files
        (.notify (anyConcerns lstrcmpiW cfg .click (s.unread.take k))
          (anyConcerns lstrcmpiW cfg .command (s.unread.take k))) = some files ∧
      s' = { s with files, unread := s.unread.drop k } := by
  simp only [TriggerWatch.step] at h
  obtain ⟨⟨-, hne, hlength⟩, h⟩ := Option.ite_none_right_eq_some.mp h
  rw [scanNotifyBuffer_records hne hlength] at h
  simp only [Option.bind_eq_bind, Option.bind_some, Option.bind_eq_some_iff] at h
  obtain ⟨files, hfiles, h⟩ := h
  exact ⟨files, hfiles, (Option.some.inj h).symm⟩

/-- The files of the records that were fetched are handled next. -/
theorem OnTheWay.fetch {s : TriggerWatch} {files : TriggerState} {k : ℕ}
    (hs : OnTheWay lstrcmpiW cfg s)
    (h : triggerStep s.files
      (.notify (anyConcerns lstrcmpiW cfg .click (s.unread.take k))
        (anyConcerns lstrcmpiW cfg .command (s.unread.take k))) = some files) :
    OnTheWay lstrcmpiW cfg { s with files, unread := s.unread.drop k } := by
  simp only [triggerStep] at h
  split at h
  · rename_i hwatcher
    obtain rfl := Option.some.inj h
    intro kind hwatched hname
    have hany := (hs kind hwatched hname).resolve_left (by rw [hwatcher]; exact List.not_mem_nil)
    rw [← List.take_append_drop k s.unread, anyConcerns_append, Bool.or_eq_true] at hany
    refine hany.imp_left fun htaken ↦ ?_
    cases kind with
    | click => simp [TriggerWatcher.pending, matchedFiles, htaken]
    | command => simp [TriggerWatcher.pending, matchedFiles, htaken]
  · cases h

theorem step_files {s s' : TriggerWatch} {l : TriggerLabel} {padding : Bytes}
    (h : step lstrcmpiW cfg s (.files l padding) = some s') :
    (∀ click command, l ≠ .notify click command) ∧
      ∃ files, triggerStep s.files l = some files ∧ s' = { s with
        files
        unread :=
          if s.attached then s.unread ++ createdRecord cfg s.files padding l else s.unread } := by
  cases l with
  | notify click command => cases h
  | watcherPost => cases h
  | _ =>
      obtain ⟨files, hfiles, rfl⟩ := Option.map_eq_some_iff.mp h
      exact ⟨fun _ _ h ↦ (by cases h), files, hfiles, rfl⟩

theorem step_test {s s' : TriggerWatch} (h : step lstrcmpiW cfg s .test = some s') :
    ∃ kind ∈ s.files.watcher.posting, s' = { s with tests := s.tests ++ [s.window kind] } := by
  simp only [TriggerWatch.step] at h
  split at h
  · rename_i kind file todo hwatcher
    obtain ⟨-, h⟩ := Option.ite_none_right_eq_some.mp h
    refine ⟨kind, ?_, (Option.some.inj h).symm⟩
    rw [hwatcher]
    rfl
  · cases h

/-- What is posted goes to one window or to none. -/
theorem step_post {s s' : TriggerWatch} (h : step lstrcmpiW cfg s .post = some s') :
    ∃ kind ∈ s.files.watcher.posting, ∃ files, triggerStep s.files .watcherPost = some files ∧
      ∃ posts, files.posts = s.files.posts ++ posts ∧ s' = { s with
        files
        tests := []
        outcomes := s.outcomes ++ posts.map fun post ↦ ⟨post.1, post.2, s.postWindow kind⟩ } := by
  simp only [TriggerWatch.step] at h
  split at h
  · rename_i kind file todo hwatcher
    obtain ⟨-, h⟩ := Option.ite_none_right_eq_some.mp h
    obtain ⟨files, hfiles, rfl⟩ := Option.map_eq_some_iff.mp h
    refine ⟨kind, by rw [hwatcher]; rfl, files, hfiles, postTrigger kind file, ?_, rfl⟩
    simp only [triggerStep, hwatcher] at hfiles
    rw [← Option.some.inj hfiles]
  · cases h

theorem OnTheWay.step {s s' : TriggerWatch} {act : TriggerAct}
    (hrefl : ∀ name, lstrcmpiW name name = 0) (hs : OnTheWay lstrcmpiW cfg s)
    (hnoticed : s.Noticed act) (h : step lstrcmpiW cfg s act = some s') :
    OnTheWay lstrcmpiW cfg s' := by
  cases act with
  | attach =>
      obtain rfl := Option.some.inj h
      exact hs
  | files l padding =>
      obtain ⟨hl, files, hfiles, rfl⟩ := step_files h
      exact hs.files hrefl hl hnoticed hfiles
  | noticed r =>
      obtain rfl := Option.some.inj h
      intro kind hwatched hname
      refine (hs kind hwatched hname).imp_right fun hany ↦ ?_
      split
      · rw [anyConcerns_append, hany, Bool.true_or]
      · exact hany
  | overflow =>
      obtain rfl := Option.some.inj h
      intro kind _ hname
      cases kind with
      | click => exact absurd hnoticed.1 hname
      | command => exact absurd hnoticed.2 hname
  | fetch k stale =>
      obtain ⟨files, hfiles, rfl⟩ := step_fetch h
      exact hs.fetch hfiles
  | window kind hwnd =>
      obtain rfl := Option.some.inj h
      exact hs
  | test =>
      obtain ⟨kind, -, rfl⟩ := step_test h
      exact hs
  | post =>
      obtain ⟨kind, -, files, hfiles, posts, -, rfl⟩ := step_post h
      -- the watcher creates no file, so no record is due
      have hopens : s.Noticed (.files .watcherPost []) := fun hopens ↦ by cases hopens
      have hposted := hs.files hrefl (fun _ _ hl ↦ by cases hl) hopens hfiles
      simpa [OnTheWay, createdRecord] using hposted

/-- A run in which the two take turns keeps what holds of the files. -/
theorem triggerSound_step {s s' : TriggerWatch} {act : TriggerAct} (hs : TriggerSound s.files)
    (hturns : s.TakesTurns act) (h : step lstrcmpiW cfg s act = some s') :
    TriggerSound s'.files := by
  cases act with
  | attach =>
      obtain rfl := Option.some.inj h
      exact hs
  | files l padding =>
      obtain ⟨-, files, hfiles, rfl⟩ := step_files h
      exact hs.step hturns hfiles
  | noticed r =>
      obtain rfl := Option.some.inj h
      exact hs
  | overflow =>
      obtain rfl := Option.some.inj h
      exact hs
  | fetch k stale =>
      obtain ⟨files, hfiles, rfl⟩ := step_fetch h
      have hnotify : Loader.TakesTurns s.files
          (.notify (anyConcerns lstrcmpiW cfg .click (s.unread.take k))
            (anyConcerns lstrcmpiW cfg .command (s.unread.take k))) := trivial
      exact hs.step hnotify hfiles
  | window kind hwnd =>
      obtain rfl := Option.some.inj h
      exact hs
  | test =>
      obtain ⟨kind, -, rfl⟩ := step_test h
      exact hs
  | post =>
      obtain ⟨kind, -, files, hfiles, posts, -, rfl⟩ := step_post h
      have hpost : Loader.TakesTurns s.files .watcherPost := trivial
      exact hs.step hpost hfiles

/-! ## The windows -/

/-- Only posting adds a post. -/
theorem posts_of_triggerStep {s s' : TriggerState} {l : TriggerLabel}
    (h : triggerStep s l = some s') (hl : l ≠ .watcherPost) : s'.posts = s.posts := by
  cases l with
  | watcherPost => exact absurd rfl hl
  | openTruncate kind value =>
      simp only [triggerStep] at h
      split at h
      · obtain rfl := Option.some.inj h
        unfold openTruncate
        split <;> rfl
      · cases h
  | _ =>
      simp only [triggerStep] at h
      split at h
      · obtain rfl := Option.some.inj h
        rfl
      · cases h

/-- There is an outcome for every post. -/
def Accounted (s : TriggerWatch) : Prop :=
  s.outcomes.map (fun outcome ↦ (outcome.command, outcome.post)) = s.files.posts

theorem Accounted.step {s s' : TriggerWatch} {act : TriggerAct} (hs : s.Accounted)
    (h : step lstrcmpiW cfg s act = some s') : s'.Accounted := by
  cases act with
  | files l padding =>
      obtain ⟨-, files, hfiles, rfl⟩ := step_files h
      have hl : l ≠ .watcherPost := by
        rintro rfl
        cases h
      exact hs.trans (posts_of_triggerStep hfiles hl).symm
  | fetch k stale =>
      obtain ⟨files, hfiles, rfl⟩ := step_fetch h
      exact hs.trans (posts_of_triggerStep hfiles (by simp)).symm
  | test =>
      obtain ⟨kind, -, rfl⟩ := step_test h
      exact hs
  | post =>
      obtain ⟨kind, -, files, hfiles, posts, hposts, rfl⟩ := step_post h
      rw [Accounted, List.map_append, hs, hposts, List.map_map]
      exact congrArg _ (List.map_id _)
  | _ =>
      obtain rfl := Option.some.inj h
      exact hs

/-- No command has been dropped, and none is about to be. -/
structure Delivers (s : TriggerWatch) : Prop where
  tests : 0 ∉ s.tests
  outcomes : ∀ outcome ∈ s.outcomes, ∃ hwnd, outcome.window = some hwnd ∧ hwnd ≠ 0

/-- While its window is known, each command goes to a window. -/
theorem Delivers.step {s s' : TriggerWatch} {act : TriggerAct} (hs : s.Delivers)
    (hknown : s.Known act) (h : step lstrcmpiW cfg s act = some s') : s'.Delivers := by
  cases act with
  | files l padding =>
      obtain ⟨-, files, hfiles, rfl⟩ := step_files h
      exact ⟨hs.tests, hs.outcomes⟩
  | fetch k stale =>
      obtain ⟨files, hfiles, rfl⟩ := step_fetch h
      exact ⟨hs.tests, hs.outcomes⟩
  | test =>
      obtain ⟨kind, hkind, rfl⟩ := step_test h
      have hwindow := hknown kind hkind
      refine ⟨fun hzero ↦ ?_, hs.outcomes⟩
      rcases List.mem_append.mp hzero with hbefore | hnew
      · exact hs.tests hbefore
      · exact hwindow (List.mem_singleton.mp hnew).symm
  | post =>
      obtain ⟨kind, hkind, files, hfiles, posts, hposts, rfl⟩ := step_post h
      have hwindow := hknown kind hkind
      refine ⟨List.not_mem_nil, fun outcome houtcome ↦ ?_⟩
      rcases List.mem_append.mp houtcome with hbefore | hnew
      · exact hs.outcomes outcome hbefore
      · obtain ⟨post, -, rfl⟩ := List.mem_map.mp hnew
        exact ⟨s.window kind, if_neg hs.tests, hwindow⟩
  | _ =>
      obtain rfl := Option.some.inj h
      exact ⟨hs.tests, hs.outcomes⟩

theorem delivers_start : start.Delivers :=
  ⟨List.not_mem_nil, fun _ h ↦ absurd h List.not_mem_nil⟩

end TriggerWatch

/-- A command that was posted once is found once among the posts. -/
theorem CommandsKept.posted {s : TriggerState} (hs : CommandsKept s) {number : ℕ}
    (hcount : (s.posts.map Prod.fst).count (some number) = 1) :
    ∃ kind value, s.commands[number]? = some (kind, value) ∧
      s.posts.filter (·.1 = some number) = [(some number, triggerPost kind value)] := by
  have hlength : (s.posts.filter (·.1 = some number)).length = 1 := by
    rw [← List.countP_eq_length_filter, ← hcount, List.count, List.countP_map]
    exact List.countP_congr fun post _ ↦ by simp
  obtain ⟨⟨n, post⟩, hposts⟩ := List.length_eq_one_iff.mp hlength
  have hmem : (n, post) ∈ s.posts.filter (·.1 = some number) := by
    rw [hposts]
    exact List.mem_singleton_self _
  obtain ⟨hmem, hn⟩ := List.mem_filter.mp hmem
  obtain rfl : n = some number := of_decide_eq_true hn
  obtain ⟨kind, value, hcommand, rfl⟩ := hs.faithful number post hmem
  exact ⟨kind, value, hcommand, hposts⟩

theorem TriggerWatch.Accounted.outcome {s : TriggerWatch} (hs : s.Accounted) {number : ℕ}
    {post : TriggerPost}
    (h : s.files.posts.filter (·.1 = some number) = [(some number, post)]) :
    ∃ window, s.outcomes.filter (·.command = some number) = [⟨some number, post, window⟩] := by
  rw [← hs, List.filter_map, List.map_eq_singleton_iff] at h
  obtain ⟨⟨command, post', window⟩, houtcome, hpair⟩ := h
  obtain ⟨rfl, rfl⟩ := Prod.mk.inj hpair
  exact ⟨window, houtcome⟩

/-- Whenever the watcher waits and has fetched every record, no watched trigger
file is left.  If the two take turns at the files, each command that was written
has been read precisely once, and it was posted once if its window was known. -/
theorem triggers_taken {lstrcmpiW : List UInt16 → List UInt16 → Int}
    (hrefl : ∀ name, lstrcmpiW name name = 0) {cfg : TriggerConfig} {acts : List TriggerAct}
    {s : TriggerWatch} (h : exec (TriggerWatch.step lstrcmpiW cfg) .start acts = some s)
    (hnoticed : Guarded (TriggerWatch.step lstrcmpiW cfg) TriggerWatch.Noticed .start acts)
    (hidle : s.files.watcher = .handling []) (hunread : s.unread = []) :
    (∀ kind, cfg.Watched kind → s.files.name kind = none) ∧
      ((∀ kind, cfg.Watched kind) →
        Guarded (TriggerWatch.step lstrcmpiW cfg) TriggerWatch.TakesTurns .start acts →
        ∀ number ∈ s.files.finished, ∃ kind value window,
          s.files.commands[number]? = some (kind, value) ∧
            s.outcomes.filter (·.command = some number) =
              [⟨some number, triggerPost kind value, window⟩] ∧
            (Guarded (TriggerWatch.step lstrcmpiW cfg) TriggerWatch.Known .start acts →
              ∃ hwnd, window = some hwnd ∧ hwnd ≠ 0)) := by
  have hway : TriggerWatch.OnTheWay lstrcmpiW cfg s := by
    refine exec_invariant_guarded (fun s act t hs hg ht ↦ hs.step hrefl hg ht) ?_ hnoticed h
    exact fun kind _ hname ↦ absurd rfl hname
  have hnone : ∀ kind, cfg.Watched kind → s.files.name kind = none := by
    intro kind hwatched
    by_contra hname
    rcases hway kind hwatched hname with hpending | hany
    · rw [hidle] at hpending
      exact List.not_mem_nil hpending
    · rw [hunread] at hany
      cases hany
  refine ⟨hnone, fun hwatched hturns number hnumber ↦ ?_⟩
  have hsound : TriggerSound s.files :=
    exec_invariant_guarded (I := fun s : TriggerWatch ↦ TriggerSound s.files)
      (fun s act t hs hg ht ↦ TriggerWatch.triggerSound_step hs hg ht) triggerSound_initial
      hturns h
  have hclick := hnone .click (hwatched .click)
  have hcommand := hnone .command (hwatched .command)
  have hfile : s.files.inFile number = false := by
    simp [TriggerState.inFile, TriggerState.held, hclick, hcommand]
  have hcount := hsound.kept.once number hnumber hfile
  have hunposted : s.files.watcher.unposted = none := by
    rw [hidle]
    rfl
  rw [TriggerState.postings, hunposted, count_none, Nat.add_zero] at hcount
  obtain ⟨kind, value, hgiven, hposts⟩ := hsound.kept.posted hcount
  have haccounted : s.Accounted :=
    exec_invariant (fun s act t hs ht ↦ hs.step ht) (show TriggerWatch.start.Accounted from rfl) h
  obtain ⟨window, houtcome⟩ := haccounted.outcome hposts
  refine ⟨kind, value, window, hgiven, houtcome, fun hknown ↦ ?_⟩
  have hdelivers : s.Delivers :=
    exec_invariant_guarded (fun s act t hs hg ht ↦ hs.step hg ht) TriggerWatch.delivers_start
      hknown h
  have hmem : ⟨some number, triggerPost kind value, window⟩ ∈ s.outcomes := by
    refine List.mem_of_mem_filter (p := (·.command = some number)) ?_
    rw [houtcome]
    exact List.mem_singleton_self _
  exact hdelivers.outcomes _ hmem

/-- Two paths in one directory. -/
def twoTriggers : TriggerKind → Option {units : List UInt16 // 0 ∉ units}
  | .command => some ⟨[90, 58, 92, 114, 92, 99], by decide⟩
  | .click => some ⟨[90, 58, 92, 114, 92, 107], by decide⟩

def compareUnits (a b : List UInt16) : Int := if a = b then 0 else if a < b then -1 else 1

/-- A menu is shown and an icon is added; a command is written while another file
changes, and then a click. -/
def commandThenClick : List TriggerAct :=
  [.attach, .window .command 7, .files (.openTruncate .command 40001) [0, 0],
    .noticed ⟨fileActionModified, [120], [0, 0]⟩, .files .write [],
    .fetch 2 (List.replicate 4064 0), .files .close [], .files .watcherOpen [],
    .files .watcherRead [], .files .watcherClose [], .files .watcherDelete [],
    .files (.openTruncate .click 1) [0, 0], .test, .window .click 9, .post, .files .write [],
    .files .close [], .fetch 1 (List.replicate 4080 0), .files .watcherOpen [],
    .files .watcherRead [], .files .watcherClose [], .files .watcherDelete [], .test, .test,
    .post]

def twoTriggerConfig : TriggerConfig := ⟨fun kind ↦ getEnvPath (twoTriggers kind) 260⟩

theorem watched_twoTriggers : ∀ kind, twoTriggerConfig.Watched kind := by
  have hdir : resolveWatchDirectory twoTriggerConfig = some [90, 58, 92, 114] := by decide
  have hpaths : ∀ kind, ∃ path ∈ twoTriggerConfig.path kind,
      directoryW path.units = some [90, 58, 92, 114] := by
    rintro (_ | _)
    · exact ⟨_, rfl, by decide⟩
    · exact ⟨_, rfl, by decide⟩
  intro kind
  obtain ⟨path, hpath, hfront⟩ := hpaths kind
  exact ⟨path, _, hpath, hfront, hdir⟩

theorem triggers_taken_commandThenClick :
    loadTriggerConfig twoTriggers = some twoTriggerConfig ∧ ∃ s,
      exec (TriggerWatch.step compareUnits twoTriggerConfig) .start commandThenClick = some s ∧
        s.files.finished = [0, 1] ∧ (∀ kind, s.files.name kind = none) ∧
        ∀ number ∈ s.files.finished, ∃ kind value hwnd,
          s.files.commands[number]? = some (kind, value) ∧
            s.outcomes.filter (·.command = some number) =
              [⟨some number, triggerPost kind value, some hwnd⟩] ∧ hwnd ≠ 0 := by
  have hrun : ∃ s ∈ exec (TriggerWatch.step compareUnits twoTriggerConfig) .start commandThenClick,
      s.files.watcher = .handling [] ∧ s.unread.length = 0 ∧ s.files.finished = [0, 1] := by
    decide +kernel
  have hnoticed : Guarded (TriggerWatch.step compareUnits twoTriggerConfig) TriggerWatch.Noticed
      .start commandThenClick := by
    decide +kernel
  have hturns : Guarded (TriggerWatch.step compareUnits twoTriggerConfig) TriggerWatch.TakesTurns
      .start commandThenClick := by
    decide +kernel
  have hknown : Guarded (TriggerWatch.step compareUnits twoTriggerConfig) TriggerWatch.Known
      .start commandThenClick := by
    decide +kernel
  obtain ⟨s, hs, hidle, hunread, hfinished⟩ := hrun
  obtain ⟨hnone, hposted⟩ := triggers_taken (fun _ ↦ if_pos rfl) hs hnoticed hidle
    (List.length_eq_zero_iff.mp hunread)
  refine ⟨rfl, s, hs, hfinished, fun kind ↦ hnone kind (watched_twoTriggers kind), ?_⟩
  intro number hnumber
  obtain ⟨kind, value, window, hgiven, houtcome, hdelivered⟩ :=
    hposted watched_twoTriggers hturns number hnumber
  obtain ⟨hwnd, rfl, hne⟩ := hdelivered hknown
  exact ⟨kind, value, hwnd, hgiven, houtcome, hne⟩

end Wallpiper.Loader
