import Wallpiper.Loader.ImportTable

/-!
# Process creation

The hooks on `CreateProcessA` and `CreateProcessW` add a switch to the command
line of the wallpaper UI and write a line to a log.  Both texts are put into
local buffers of a fixed size by `wsprintf`, which writes at most 1024 characters
and the NUL whatever the buffer's size is.  A write behind a buffer is a fault
here, as is a read of a buffer that has no NUL.
-/

namespace Wallpiper.Loader

open Foundations.CText

inductive SpawnFault where
  /-- a character is written behind the end of a buffer -/
  | overflow
  /-- a buffer without a NUL is read -/
  | unterminated
  deriving DecidableEq, Repr

variable {α : Type}

/-- `wsprintf` into a buffer of `size` characters. -/
def wsprintf (size : ℕ) (text : List α) : Except SpawnFault (List α) :=
  let written := text.take 1024
  if written.length + 1 ≤ size then .ok written else .error .overflow

/-- The length returned and, where the buffer is large enough, the value put in
it; otherwise the length is the size that is needed. -/
def getEnvironmentVariable (value : Option Bytes) (size : ℕ) : ℕ × Bytes :=
  match value with
  | none => (0, [])
  | some v => if v.length < size then (v.length, v) else (v.length + 1, [])

/-- The inner loop of a search, up to the end of the needle. -/
def containsAt [DecidableEq α] (upper : α → α) : List α → List α → Bool
  | _, [] => true
  | [], _ :: _ => false
  | a :: as, b :: bs => if upper a ≠ upper b then false else containsAt upper as bs

/-- `ansi_contains_ci` and `wide_contains_ci`. -/
def containsCi [DecidableEq α] (upper : α → α) (haystack needle : List α) : Bool :=
  if needle.length = 0 ∨ haystack.length < needle.length then false
  else (List.range (haystack.length - needle.length + 1)).any fun i ↦
    containsAt upper (haystack.drop i) needle

/-- What a hook says in characters of its own kind. -/
structure HookText (α : Type) where
  upper : α → α
  exe : List α
  option : List α
  /-- the text of a narrow string -/
  narrow : Bytes → List α

def ansiHook : HookText UInt8 where
  upper := upperCase
  exe := bytesOf "wallpaperui.exe"
  option := bytesOf " --force-device-scale-factor="
  narrow := id

def upperCaseW (c : UInt16) : UInt16 := if 97 ≤ c ∧ c ≤ 122 then c - 32 else c

/-- The conversions between narrow and wide strings: `%hs`, the narrow form of
a wide string, and what is in a buffer of some size when the form does not fit. -/
structure CodePage where
  wide : Bytes → List UInt16
  ansi : List UInt16 → Bytes
  leaves : List UInt16 → ℕ → Bytes

def wideHook (page : CodePage) : HookText UInt16 where
  upper := upperCaseW
  exe := (bytesOf "wallpaperui.exe").map UInt8.toUInt16
  option := (bytesOf " --force-device-scale-factor=").map UInt8.toUInt16
  narrow := page.wide

/-- The command line that is passed on. -/
def patchCommandLine [DecidableEq α] (hook : HookText α) (scale : Option Bytes)
    (app cmd : Option (List α)) : Except SpawnFault (Option (List α)) :=
  let isWallpaperui := app.any (containsCi hook.upper · hook.exe) ||
    cmd.any (containsCi hook.upper · hook.exe)
  match cmd with
  | none => .ok none
  | some text =>
      if isWallpaperui then
        let scaleLen := getEnvironmentVariable scale 32
        if 0 < scaleLen.1 ∧ scaleLen.1 < 32 then do
          let patched ← wsprintf 1024 (text ++ (hook.option ++ hook.narrow scaleLen.2))
          .ok (some patched)
        else .ok (some text)
      else .ok (some text)

/-- What the real function answers. -/
structure SpawnAnswer where
  ok : Int32
  processId : UInt32

structure SpawnSystem where
  /-- the value of `WALLPIPER_WE_UI_SCALE_FACTOR` -/
  scale : Option Bytes
  /-- the answer of the real function, where it has been found -/
  real : Option SpawnAnswer
  lastError : UInt32

def SpawnSystem.ok (system : SpawnSystem) : Int32 := (system.real.map SpawnAnswer.ok).getD 0

def SpawnSystem.err (system : SpawnSystem) : UInt32 :=
  if system.ok ≠ 0 then 0 else system.lastError

def SpawnSystem.pid (system : SpawnSystem) : UInt32 :=
  if system.ok ≠ 0 then (system.real.map SpawnAnswer.processId).getD 0 else 0

structure SpawnRun (α : Type) where
  /-- the command line that the real function is called with, if it is called -/
  passed : Option (Option (List α))
  logbuf : Bytes
  ok : Int32

/-- The line for the log; `name` ends in `A` or `W`. -/
def spawnLog (name : Bytes) (system : SpawnSystem) (app cmd cwd : Bytes) : Bytes :=
  name ++ (bytesOf ": app=" ++ (app ++ (bytesOf " cmdline=" ++ (cmd ++ (bytesOf " cwd=" ++ (cwd ++
    (bytesOf " -> ok=" ++ (decimalInt system.ok.toInt ++
      (bytesOf " err=" ++ (decimal system.err.toNat ++
        (bytesOf " pid=" ++ decimal system.pid.toNat)))))))))))

def nullString : Bytes := bytesOf "(null)"

def fakeCreateProcessA (system : SpawnSystem) (app cmd cwd : Option Bytes) :
    Except SpawnFault (SpawnRun UInt8) := do
  let cmd ← patchCommandLine ansiHook system.scale app cmd
  let logbuf ← wsprintf 768 (spawnLog (bytesOf "fake_CreateProcessA") system
    (app.getD nullString) (cmd.getD nullString) (cwd.getD nullString))
  .ok ⟨system.real.map fun _ ↦ cmd, logbuf, system.ok⟩

/-- `WideCharToMultiByte` into a buffer that starts with a NUL, where there is a
string. -/
def wideCharToMultiByte (page : CodePage) (size : ℕ) : Option (List UInt16) → Bytes
  | none => [0]
  | some s => if (page.ansi s).length + 1 ≤ size then page.ansi s ++ [0] else page.leaves s size

/-- `buf[0] ? buf : "(null)"`, read up to its NUL. -/
def bufferText (buf : Bytes) : Except SpawnFault Bytes :=
  if 0 ∈ buf then .ok (if cString buf = [] then nullString else cString buf)
  else .error .unterminated

def fakeCreateProcessW (page : CodePage) (system : SpawnSystem)
    (app cmd cwd : Option (List UInt16)) : Except SpawnFault (SpawnRun UInt16) := do
  let cmd ← patchCommandLine (wideHook page) system.scale app cmd
  let appBuf ← bufferText (wideCharToMultiByte page 260 app)
  let cmdBuf ← bufferText (wideCharToMultiByte page 512 cmd)
  let cwdBuf ← bufferText (wideCharToMultiByte page 260 cwd)
  let logbuf ← wsprintf 768
    (spawnLog (bytesOf "fake_CreateProcessW") system appBuf cmdBuf cwdBuf)
  .ok ⟨system.real.map fun _ ↦ cmd, logbuf, system.ok⟩

/-! ## Transparency -/

/-- The executable's name stands somewhere in the string, in whatever case; the string
may name another program. -/
def NamesUi (hook : HookText α) (s : Option (List α)) : Prop :=
  ∃ text ∈ s, hook.exe.map hook.upper <:+: text.map hook.upper

/-- The scale that is set; one that is empty or has 32 characters and more is
not taken. -/
def scaleFactor (scale : Option Bytes) : Option Bytes :=
  scale.filter fun v ↦ 0 < v.length ∧ v.length < 32

/-- The switch that the command line is to be followed by. -/
def SwitchDue (hook : HookText α) (scale : Option Bytes) (app cmd : Option (List α))
    (v : Bytes) : Prop :=
  scaleFactor scale = some v ∧ (NamesUi hook app ∨ NamesUi hook cmd)

/-- The original command line, or the original and exactly the switch. -/
structure PassedRight (hook : HookText α) (scale : Option Bytes)
    (app cmd passed : Option (List α)) : Prop where
  due : ∀ text v, cmd = some text → SwitchDue hook scale app cmd v →
    passed = some (text ++ (hook.option ++ hook.narrow v))
  same : (cmd = none ∨ ∀ v, ¬SwitchDue hook scale app cmd v) → passed = cmd

/-- The hook stays inside its buffers, and calls the real function, where there
is one, with the right command line. -/
def Transparent (hook : HookText α) (system : SpawnSystem) (app cmd : Option (List α))
    (run : Except SpawnFault (SpawnRun α)) : Prop :=
  ∃ r, run = .ok r ∧ r.passed.isSome = system.real.isSome ∧
    ∀ passed ∈ r.passed, PassedRight hook system.scale app cmd passed

/-- The command line with the switch has at most 1023 characters. -/
def PatchFits (hook : HookText α) (scale : Option Bytes) (app cmd : Option (List α)) : Prop :=
  ∀ text v, cmd = some text → SwitchDue hook scale app cmd v →
    text.length + hook.option.length + (hook.narrow v).length ≤ 1023

/-- The characters of a log line with these strings. -/
def logLength (system : SpawnSystem) (app cmd cwd : Bytes) : ℕ :=
  56 + app.length + cmd.length + cwd.length + (decimalInt system.ok.toInt).length +
    (decimal system.err.toNat).length + (decimal system.pid.toNat).length

structure FitsA (system : SpawnSystem) (app cmd cwd : Option Bytes) : Prop where
  patch : PatchFits ansiHook system.scale app cmd
  log : ∀ passed, PassedRight ansiHook system.scale app cmd passed →
    logLength system (app.getD nullString) (passed.getD nullString) (cwd.getD nullString) ≤ 767

/-- The narrow strings end inside their buffers. -/
structure FitsW (page : CodePage) (system : SpawnSystem)
    (app cmd cwd : Option (List UInt16)) : Prop where
  patch : PatchFits (wideHook page) system.scale app cmd
  log : ∀ passed, PassedRight (wideHook page) system.scale app cmd passed →
    ∃ appText cmdText cwdText, bufferText (wideCharToMultiByte page 260 app) = .ok appText ∧
      bufferText (wideCharToMultiByte page 512 passed) = .ok cmdText ∧
        bufferText (wideCharToMultiByte page 260 cwd) = .ok cwdText ∧
          logLength system appText cmdText cwdText ≤ 767

theorem wsprintf_eq {size : ℕ} (hsize : size ≤ 1024) (text : List α) :
    wsprintf size text = if text.length + 1 ≤ size then .ok text else .error .overflow := by
  by_cases hfits : text.length + 1 ≤ size
  · have htake : text.take 1024 = text := List.take_of_length_le (by omega)
    rw [wsprintf, htake, if_pos hfits]
  · have hlong : ¬(text.take 1024).length + 1 ≤ size := by
      rw [List.length_take]
      omega
    rw [wsprintf, if_neg hfits]
    exact if_neg hlong

theorem PassedRight.unique {hook : HookText α} {scale : Option Bytes}
    {app cmd passed passed' : Option (List α)} (h : PassedRight hook scale app cmd passed)
    (h' : PassedRight hook scale app cmd passed') : passed = passed' := by
  cases cmd with
  | none => rw [h.same (Or.inl rfl), h'.same (Or.inl rfl)]
  | some text =>
      by_cases hdue : ∃ v, SwitchDue hook scale app (some text) v
      · obtain ⟨v, hv⟩ := hdue
        rw [h.due text v rfl hv, h'.due text v rfl hv]
      · have hnone := not_exists.mp hdue
        rw [h.same (Or.inr hnone), h'.same (Or.inr hnone)]

theorem not_transparent_error {hook : HookText α} {system : SpawnSystem}
    {app cmd : Option (List α)} (e : SpawnFault) :
    ¬Transparent hook system app cmd (.error e) := by
  rintro ⟨r, hrun, -⟩
  cases hrun

/-- A run that has passed on the right command line, and writes its log. -/
theorem transparent_log_iff {hook : HookText α} {system : SpawnSystem}
    {app cmd passed : Option (List α)} (hright : PassedRight hook system.scale app cmd passed)
    (text : Bytes) :
    Transparent hook system app cmd (do
        let logbuf ← wsprintf 768 text
        .ok ⟨system.real.map fun _ ↦ passed, logbuf, system.ok⟩) ↔
      text.length ≤ 767 := by
  have hsize : 768 ≤ 1024 := by omega
  rw [wsprintf_eq hsize]
  by_cases hfits : text.length ≤ 767
  · have hroom : text.length + 1 ≤ 768 := by omega
    rw [if_pos hroom]
    refine iff_of_true ⟨_, rfl, Option.isSome_map, fun passed' hpassed ↦ ?_⟩ hfits
    obtain ⟨-, -, rfl⟩ := Option.map_eq_some_iff.mp hpassed
    exact hright
  · have hroom : ¬text.length + 1 ≤ 768 := by omega
    rw [if_neg hroom]
    exact iff_of_false (not_transparent_error _) hfits

/-! ## The search -/

variable [DecidableEq α]

theorem containsAt_iff (upper : α → α) (rest needle : List α) :
    containsAt upper rest needle = true ↔ needle.map upper <+: rest.map upper := by
  induction needle generalizing rest with
  | nil =>
      have hnil : containsAt upper rest [] = true := by cases rest <;> rfl
      exact iff_of_true hnil (List.nil_prefix)
  | cons b bs ih =>
      cases rest with
      | nil => simp [containsAt]
      | cons a as =>
          rw [containsAt, List.map_cons, List.map_cons, List.cons_prefix_cons]
          by_cases hab : upper a = upper b
          · rw [if_neg (not_not.mpr hab), ih]
            exact ⟨fun h ↦ ⟨hab.symm, h⟩, fun h ↦ h.2⟩
          · rw [if_pos hab]
            exact ⟨fun h ↦ absurd h Bool.false_ne_true, fun h ↦ absurd h.1.symm hab⟩

/-- The search finds a needle exactly where it stands in some case. -/
theorem containsCi_iff (upper : α → α) (haystack : List α) {needle : List α}
    (hne : needle ≠ []) :
    containsCi upper haystack needle = true ↔ needle.map upper <:+: haystack.map upper := by
  have hpos : 0 < needle.length := List.length_pos_iff.mpr hne
  by_cases hlen : haystack.length < needle.length
  · rw [containsCi, if_pos (Or.inr hlen)]
    refine iff_of_false Bool.false_ne_true fun h ↦ ?_
    have hle := h.length_le
    rw [List.length_map, List.length_map] at hle
    omega
  · rw [containsCi, if_neg (by omega), List.any_eq_true]
    constructor
    · rintro ⟨i, -, hat⟩
      have hprefix := (containsAt_iff upper _ _).mp hat
      rw [List.map_drop] at hprefix
      exact hprefix.isInfix.trans (List.drop_suffix i _).isInfix
    · rintro ⟨front, back, hsplit⟩
      have hsum := congrArg List.length hsplit
      simp only [List.length_append, List.length_map] at hsum
      refine ⟨front.length, List.mem_range.mpr (by omega), ?_⟩
      rw [containsAt_iff, List.map_drop, ← hsplit, List.append_assoc, List.drop_left]
      exact List.prefix_append _ _

/-- The test of the hooks. -/
theorem any_containsCi_iff (hook : HookText α) (hne : hook.exe ≠ [])
    (s : Option (List α)) :
    s.any (containsCi hook.upper · hook.exe) = true ↔ NamesUi hook s := by
  cases s with
  | none => simp [NamesUi]
  | some text =>
      rw [Option.any_some, containsCi_iff hook.upper text hne]
      simp [NamesUi]

/-! ## The command line -/

/-- The scale is taken from the environment when it has a length that fits. -/
theorem scaleFactor_iff (scale : Option Bytes) (v : Bytes) :
    scaleFactor scale = some v ↔
      (0 < (getEnvironmentVariable scale 32).1 ∧ (getEnvironmentVariable scale 32).1 < 32) ∧
        (getEnvironmentVariable scale 32).2 = v := by
  cases scale with
  | none => simp [scaleFactor, getEnvironmentVariable]
  | some w =>
      by_cases hw : w.length < 32
      · simp only [scaleFactor, getEnvironmentVariable, if_pos hw, Option.filter_eq_some_iff,
          Option.some.injEq, decide_eq_true_eq]
        constructor
        · rintro ⟨rfl, hlen⟩
          exact ⟨hlen, rfl⟩
        · rintro ⟨hlen, rfl⟩
          exact ⟨rfl, hlen⟩
      · simp only [scaleFactor, getEnvironmentVariable, if_neg hw, Option.filter_eq_some_iff,
          Option.some.injEq, decide_eq_true_eq]
        constructor
        · rintro ⟨rfl, hlen⟩
          exact absurd hlen.2 hw
        · rintro ⟨hlen, -⟩
          omega

/-- Where no switch is due the command line is left alone. -/
theorem patchCommandLine_same {hook : HookText α} (hne : hook.exe ≠ []) {scale : Option Bytes}
    {app : Option (List α)} {text : List α}
    (h : ∀ v, ¬SwitchDue hook scale app (some text) v) :
    patchCommandLine hook scale app (some text) = .ok (some text) := by
  rw [patchCommandLine]
  by_cases hui : (app.any (containsCi hook.upper · hook.exe) ||
      (some text).any (containsCi hook.upper · hook.exe)) = true
  · have hnames : NamesUi hook app ∨ NamesUi hook (some text) := by
      rcases Bool.or_eq_true_iff.mp hui with happ | hcmd
      · exact Or.inl ((any_containsCi_iff hook hne app).mp happ)
      · exact Or.inr ((any_containsCi_iff hook hne _).mp hcmd)
    have hlen : ¬(0 < (getEnvironmentVariable scale 32).1 ∧
        (getEnvironmentVariable scale 32).1 < 32) := fun hlen ↦
      h _ ⟨(scaleFactor_iff scale _).mpr ⟨hlen, rfl⟩, hnames⟩
    rw [if_pos hui]
    exact if_neg hlen
  · rw [if_neg hui]

/-- A switch that is due is added, where there is room for it. -/
theorem patchCommandLine_due {hook : HookText α} (hne : hook.exe ≠ []) {scale : Option Bytes}
    {app : Option (List α)} {text : List α} {v : Bytes}
    (h : SwitchDue hook scale app (some text) v) :
    patchCommandLine hook scale app (some text) =
      if text.length + hook.option.length + (hook.narrow v).length ≤ 1023 then
        .ok (some (text ++ (hook.option ++ hook.narrow v)))
      else .error .overflow := by
  obtain ⟨hscale, hnames⟩ := h
  obtain ⟨hlen, hvalue⟩ := (scaleFactor_iff scale v).mp hscale
  have hui : (app.any (containsCi hook.upper · hook.exe) ||
      (some text).any (containsCi hook.upper · hook.exe)) = true := by
    rw [Bool.or_eq_true]
    exact hnames.imp (any_containsCi_iff hook hne app).mpr (any_containsCi_iff hook hne _).mpr
  have hprint := wsprintf_eq (le_refl 1024) (text ++ (hook.option ++ hook.narrow v))
  have hcount : (text ++ (hook.option ++ hook.narrow v)).length + 1 ≤ 1024 ↔
      text.length + hook.option.length + (hook.narrow v).length ≤ 1023 := by
    rw [List.length_append, List.length_append]
    omega
  rw [patchCommandLine, if_pos hui]
  change (if 0 < (getEnvironmentVariable scale 32).1 ∧ (getEnvironmentVariable scale 32).1 < 32
    then _ else _) = _
  rw [if_pos hlen, hvalue, hprint]
  simp only [hcount]
  split <;> rfl

theorem patchCommandLine_cases {hook : HookText α} (hne : hook.exe ≠ []) (scale : Option Bytes)
    (app cmd : Option (List α)) :
    (PatchFits hook scale app cmd ∧ ∃ passed, patchCommandLine hook scale app cmd = .ok passed ∧
        PassedRight hook scale app cmd passed) ∨
      (¬PatchFits hook scale app cmd ∧
        patchCommandLine hook scale app cmd = .error .overflow) := by
  cases cmd with
  | none =>
      refine Or.inl ⟨?_, none, rfl, ⟨?_, fun _ ↦ rfl⟩⟩
      · intro text v htext
        cases htext
      · intro text v htext
        cases htext
  | some text =>
      by_cases hdue : ∃ v, SwitchDue hook scale app (some text) v
      · obtain ⟨v, hv⟩ := hdue
        have hrun := patchCommandLine_due hne hv
        have honly : ∀ v', SwitchDue hook scale app (some text) v' → v' = v := fun v' hv' ↦
          Option.some.inj (hv'.1.symm.trans hv.1)
        by_cases hfits : text.length + hook.option.length + (hook.narrow v).length ≤ 1023
        · rw [if_pos hfits] at hrun
          refine Or.inl ⟨?_, _, hrun, ⟨?_, ?_⟩⟩
          · intro text' v' htext hv'
            obtain rfl := Option.some.inj htext
            obtain rfl := honly v' hv'
            exact hfits
          · intro text' v' htext hv'
            obtain rfl := Option.some.inj htext
            rw [honly v' hv']
          · rintro (hnone | hnone)
            · cases hnone
            · exact absurd hv (hnone v)
        · rw [if_neg hfits] at hrun
          exact Or.inr ⟨fun h ↦ hfits (h text v rfl hv), hrun⟩
      · have hnone := not_exists.mp hdue
        refine Or.inl ⟨fun text' v htext hv ↦ ?_, _, patchCommandLine_same hne hnone, ⟨?_, ?_⟩⟩
        · obtain rfl := Option.some.inj htext
          exact absurd hv (hnone v)
        · intro text' v htext hv
          obtain rfl := Option.some.inj htext
          exact absurd hv (hnone v)
        · exact fun _ ↦ rfl

/-! ## The hooks -/

theorem spawnLog_length {name : Bytes} (hname : name.length = 19) (system : SpawnSystem)
    (app cmd cwd : Bytes) : (spawnLog name system app cmd cwd).length =
      logLength system app cmd cwd := by
  have happ : (bytesOf ": app=").length = 6 := by decide
  have hcmd : (bytesOf " cmdline=").length = 9 := by decide
  have hcwd : (bytesOf " cwd=").length = 5 := by decide
  have hok : (bytesOf " -> ok=").length = 7 := by decide
  have herr : (bytesOf " err=").length = 5 := by decide
  have hpid : (bytesOf " pid=").length = 5 := by decide
  simp only [spawnLog, logLength, List.length_append, hname, happ, hcmd, hcwd, hok, herr, hpid]
  omega

theorem ansiHook_exe : ansiHook.exe ≠ [] := by decide

theorem wideHook_exe (page : CodePage) : (wideHook page).exe ≠ [] :=
  mt List.map_eq_nil_iff.mp ansiHook_exe

/-- The hook on the narrow function. -/
theorem fakeCreateProcessA_iff (system : SpawnSystem) (app cmd cwd : Option Bytes) :
    Transparent ansiHook system app cmd (fakeCreateProcessA system app cmd cwd) ↔
      FitsA system app cmd cwd := by
  rcases patchCommandLine_cases ansiHook_exe system.scale app cmd with
    ⟨hpatch, passed, hrun, hright⟩ | ⟨hpatch, hrun⟩
  · have hname : (bytesOf "fake_CreateProcessA").length = 19 := by decide
    have hlog := transparent_log_iff hright (spawnLog (bytesOf "fake_CreateProcessA") system
      (app.getD nullString) (passed.getD nullString) (cwd.getD nullString))
    rw [spawnLog_length hname] at hlog
    rw [fakeCreateProcessA, hrun]
    refine hlog.trans ⟨fun hfits ↦ ⟨hpatch, fun passed' hright' ↦ ?_⟩, fun h ↦ h.log _ hright⟩
    rw [hright'.unique hright]
    exact hfits
  · rw [fakeCreateProcessA, hrun]
    exact iff_of_false (not_transparent_error _) fun h ↦ hpatch h.patch

/-- The texts of the three buffers, when all of them end inside. -/
theorem bufferTexts_cases (a b c : Bytes) :
    (∃ s t u, bufferText a = .ok s ∧ bufferText b = .ok t ∧ bufferText c = .ok u) ∨
      (¬∃ s t u, bufferText a = .ok s ∧ bufferText b = .ok t ∧ bufferText c = .ok u) ∧
        ∀ {β : Type} (f : Bytes → Bytes → Bytes → Except SpawnFault β), ∃ e, (do
          let s ← bufferText a
          let t ← bufferText b
          let u ← bufferText c
          f s t u) = .error e := by
  cases ha : bufferText a with
  | error e =>
      right
      refine ⟨?_, fun f ↦ ⟨e, rfl⟩⟩
      rintro ⟨s, t, u, hs, -⟩
      cases hs
  | ok s =>
      cases hb : bufferText b with
      | error e =>
          right
          refine ⟨?_, fun f ↦ ⟨e, rfl⟩⟩
          rintro ⟨s, t, u, -, ht, -⟩
          cases ht
      | ok t =>
          cases hc : bufferText c with
          | error e =>
              right
              refine ⟨?_, fun f ↦ ⟨e, rfl⟩⟩
              rintro ⟨s, t, u, -, -, hu⟩
              cases hu
          | ok u => exact Or.inl ⟨s, t, u, rfl, rfl, rfl⟩

/-- The hook on the wide function. -/
theorem fakeCreateProcessW_iff (page : CodePage) (system : SpawnSystem)
    (app cmd cwd : Option (List UInt16)) :
    Transparent (wideHook page) system app cmd (fakeCreateProcessW page system app cmd cwd) ↔
      FitsW page system app cmd cwd := by
  rcases patchCommandLine_cases (wideHook_exe page) system.scale app cmd with
    ⟨hpatch, passed, hrun, hright⟩ | ⟨hpatch, hrun⟩
  · rw [fakeCreateProcessW, hrun]
    change Transparent (wideHook page) system app cmd (do
      let appBuf ← bufferText (wideCharToMultiByte page 260 app)
      let cmdBuf ← bufferText (wideCharToMultiByte page 512 passed)
      let cwdBuf ← bufferText (wideCharToMultiByte page 260 cwd)
      let logbuf ← wsprintf 768
        (spawnLog (bytesOf "fake_CreateProcessW") system appBuf cmdBuf cwdBuf)
      .ok ⟨system.real.map fun _ ↦ passed, logbuf, system.ok⟩) ↔ _
    rcases bufferTexts_cases (wideCharToMultiByte page 260 app)
      (wideCharToMultiByte page 512 passed) (wideCharToMultiByte page 260 cwd) with
      ⟨s, t, u, hs, ht, hu⟩ | ⟨hnone, hfault⟩
    · have hname : (bytesOf "fake_CreateProcessW").length = 19 := by decide
      have hlog := transparent_log_iff hright
        (spawnLog (bytesOf "fake_CreateProcessW") system s t u)
      rw [spawnLog_length hname] at hlog
      rw [hs, ht, hu]
      refine hlog.trans ⟨fun hfits ↦ ⟨hpatch, fun passed' hright' ↦ ?_⟩, fun h ↦ ?_⟩
      · obtain rfl := hright'.unique hright
        exact ⟨s, t, u, hs, ht, hu, hfits⟩
      · obtain ⟨s', t', u', hs', ht', hu', hfits⟩ := h.log passed hright
        obtain rfl := Except.ok.inj (hs.symm.trans hs')
        obtain rfl := Except.ok.inj (ht.symm.trans ht')
        obtain rfl := Except.ok.inj (hu.symm.trans hu')
        exact hfits
    · obtain ⟨e, he⟩ := hfault fun appBuf cmdBuf cwdBuf ↦ (do
        let logbuf ← wsprintf 768
          (spawnLog (bytesOf "fake_CreateProcessW") system appBuf cmdBuf cwdBuf)
        (.ok ⟨system.real.map fun _ ↦ passed, logbuf, system.ok⟩ :
          Except SpawnFault (SpawnRun UInt16)))
      rw [he]
      refine iff_of_false (not_transparent_error _) fun h ↦ hnone ?_
      obtain ⟨s, t, u, hs, ht, hu, -⟩ := h.log passed hright
      exact ⟨s, t, u, hs, ht, hu⟩
  · rw [fakeCreateProcessW, hrun]
    exact iff_of_false (not_transparent_error _) fun h ↦ hpatch h.patch

/-- Both hooks are transparent exactly when the texts fit their buffers. -/
theorem spawn_transparent_iff (page : CodePage) (system : SpawnSystem)
    (app cmd cwd : Option Bytes) (appW cmdW cwdW : Option (List UInt16)) :
    (Transparent ansiHook system app cmd (fakeCreateProcessA system app cmd cwd) ↔
        FitsA system app cmd cwd) ∧
      (Transparent (wideHook page) system appW cmdW
          (fakeCreateProcessW page system appW cmdW cwdW) ↔
        FitsW page system appW cmdW cwdW) :=
  ⟨fakeCreateProcessA_iff system app cmd cwd, fakeCreateProcessW_iff page system appW cmdW cwdW⟩

/-- A command line of 800 characters does not fit the log, and one of 1014 that
is to get the switch for a scale does not fit its buffer. -/
theorem long_command_lines :
    ¬Transparent ansiHook ⟨none, some ⟨1, 7⟩, 0⟩ none (some (List.replicate 800 97))
        (fakeCreateProcessA ⟨none, some ⟨1, 7⟩, 0⟩ none (some (List.replicate 800 97)) none) ∧
      ¬Transparent ansiHook ⟨some (bytesOf "1.5"), some ⟨1, 7⟩, 0⟩ none
        (some (bytesOf "wallpaperui.exe" ++ List.replicate 999 97))
        (fakeCreateProcessA ⟨some (bytesOf "1.5"), some ⟨1, 7⟩, 0⟩ none
          (some (bytesOf "wallpaperui.exe" ++ List.replicate 999 97)) none) := by
  constructor
  · rw [fakeCreateProcessA_iff]
    intro h
    have hright : PassedRight ansiHook none none (some (List.replicate 800 97))
        (some (List.replicate 800 97)) := by
      refine ⟨fun text v htext hdue ↦ ?_, fun _ ↦ rfl⟩
      exact absurd hdue.1 (by simp [scaleFactor])
    have hlog := h.log _ hright
    simp only [logLength, Option.getD_some, List.length_replicate] at hlog
    omega
  · rw [fakeCreateProcessA_iff]
    intro h
    have hdue : SwitchDue ansiHook (some (bytesOf "1.5")) none
        (some (bytesOf "wallpaperui.exe" ++ List.replicate 999 97)) (bytesOf "1.5") := by
      refine ⟨by decide, Or.inr ⟨_, rfl, ?_⟩⟩
      rw [List.map_append]
      exact (List.prefix_append _ _).isInfix
    have hfits := h.patch _ _ rfl hdue
    have hexe : (bytesOf "wallpaperui.exe").length = 15 := by decide
    have htext : (bytesOf "wallpaperui.exe" ++ List.replicate 999 97).length = 1014 := by
      rw [List.length_append, hexe, List.length_replicate]
    have hoption : ansiHook.option.length = 29 := by decide
    omega

end Wallpiper.Loader
