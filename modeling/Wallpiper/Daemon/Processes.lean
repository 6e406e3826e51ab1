import Wallpiper.Foundations.Substrings

/-!
# Finding processes

The daemon looks for the web-wallpaper processes by the command lines under
`/proc`, and the capture layer decides in the same way whether the process it is
loaded into is one of them.  A command line is a list of arguments that end
with a NUL each.
-/

namespace Wallpiper.Daemon

open Foundations.CText

def strlen (buf : Bytes) : ℕ := (cString buf).length

/-- `fread` into the buffer, with a NUL behind what was read. -/
def readCmdline (outLen : ℕ) (content : Bytes) : Bytes := content.take (outLen - 1) ++ [0]

/-- The file is missing when the process is gone. -/
def cmdlineContains (cmdline : Option Bytes) (needle : Bytes) : Bool :=
  match cmdline with
  | none => false
  | some content =>
      let cmdline := readCmdline 8192 content
      memmem (cmdline.take (strlen cmdline + 1)) needle

/-- The end of what `strtol` reads. -/
def strtolEnd (s : Bytes) : Bytes :=
  (scanSign (s.dropWhile isSpace)).2.dropWhile fun c ↦ (digitValue 10 c).isSome

/-- The process that an entry of `/proc` is for. -/
def procPid (name : Bytes) : Option Int32 :=
  if scanNumber 10 name = none ∨ strtolEnd name ≠ [] ∨ strtol 10 name ≤ 0 then none
  else some (Int32.ofInt (strtol 10 name))

def maxPids : ℕ := 256

/-- The loop over the entries of `/proc`, with the processes found so far. -/
def scanProcPids (isMatch : Int32 → Bool) : List Bytes → List Int32 → List Int32
  | [], pids => pids
  | name :: names, pids =>
      match procPid name with
      | none => scanProcPids isMatch names pids
      | some pid =>
          if isMatch pid = true ∧ pids.length < maxPids then
            scanProcPids isMatch names (pids ++ [pid])
          else scanProcPids isMatch names pids

def webwallpaperExe : Bytes := bytesOf "webwallpaper64.exe"

def wpFindWebwallpaperPids (names : List Bytes) (cmdlineOf : Int32 → Option Bytes) : List Int32 :=
  scanProcPids (fun pid ↦ cmdlineContains (cmdlineOf pid) webwallpaperExe) names []

/-- A process name without line ends at its end. -/
def readComm (outLen : ℕ) (content : Bytes) : Bytes :=
  (content.take (outLen - 1)).rdropWhile fun c ↦ c = 10 ∨ c = 13

def rendererExe : Bytes := bytesOf "wallpaper64.exe"

/-- The layer's own scan of its command line. -/
def detectCmdline (cmdline : Option Bytes) : Bool :=
  match cmdline with
  | none => false
  | some content => memmem (content.take 8191) webwallpaperExe

def detectTargetProcess (comm cmdline : Option Bytes) : Bool :=
  comm.any (fun content ↦ cString (readComm 256 content) = rendererExe) || detectCmdline cmdline

/-- The scan of the preloaded library, whose buffer is smaller. -/
def interposeCmdline (cmdline : Option Bytes) : Bool :=
  match cmdline with
  | none => false
  | some content => memmem (content.take 4096) webwallpaperExe

def arguments (content : Bytes) : List Bytes := pieces 0 content

/-- The needle stands in the first argument when it stands in a later one. -/
def FirstDecides (content needle : Bytes) : Prop :=
  (∃ argument ∈ (arguments content).tail, needle <:+: argument) →
    needle <:+: (arguments content).headI

/-! ## What the two scans see -/

theorem cString_append_nul {front : Bytes} (hfront : 0 ∉ front) (back : Bytes) :
    cString (front ++ 0 :: back) = front := by
  have hnonul : ∀ b ∈ front, decide (b ≠ 0) = true := by
    intro b hb
    have hne : b ≠ 0 := fun hzero ↦ hfront (hzero ▸ hb)
    simpa using hne
  rw [cString, List.takeWhile_append_of_pos hnonul, List.takeWhile_cons_of_neg (by simp),
    List.append_nil]

/-- The first argument, and the NUL that ends it in the buffer. -/
theorem first_argument (content : Bytes) :
    ∃ back, content ++ [0] = (arguments content).headI ++ 0 :: back ∧
      0 ∉ (arguments content).headI := by
  rcases pieces_cases 0 content with ⟨hnul, hpieces⟩ | ⟨front, back, hfront, rfl, hpieces⟩
  · rw [arguments, hpieces]
    exact ⟨[], rfl, hnul⟩
  · rw [arguments, hpieces]
    exact ⟨back ++ [0], List.append_assoc _ _ _, hfront⟩

/-- Only the first argument is searched. -/
theorem cmdlineContains_iff {content needle : Bytes} (hlength : content.length ≤ 8191)
    (hneedle : 0 ∉ needle) :
    cmdlineContains (some content) needle = true ↔ needle <:+: (arguments content).headI := by
  obtain ⟨back, hcontent, hfirst⟩ := first_argument content
  generalize (arguments content).headI = first at hcontent hfirst ⊢
  have hread : readCmdline 8192 content = first ++ 0 :: back := by
    rw [readCmdline, List.take_of_length_le hlength, hcontent]
  have htake : (first ++ 0 :: back).take (first.length + 1) = first ++ [0] := by
    rw [List.take_length_add_append]
    rfl
  rw [cmdlineContains, hread, strlen, cString_append_nul hfirst, htake, memmem_iff,
    infix_append_cons_iff hneedle]
  constructor
  · rintro (hfound | hnil)
    · exact hfound
    · exact hnil.trans (List.nil_infix)
  · exact Or.inl

theorem detectCmdline_iff {content : Bytes} (hlength : content.length ≤ 8191) :
    detectCmdline (some content) = true ↔
      ∃ argument ∈ arguments content, webwallpaperExe <:+: argument := by
  have hneedle : 0 ∉ webwallpaperExe := by decide
  rw [detectCmdline, List.take_of_length_le hlength, memmem_iff, infix_iff_pieces hneedle]
  rfl

theorem arguments_eq_cons (content : Bytes) :
    arguments content = (arguments content).headI :: (arguments content).tail := by
  rcases pieces_cases 0 content with ⟨-, hpieces⟩ | ⟨front, back, -, -, hpieces⟩
  · rw [arguments, hpieces]
    rfl
  · rw [arguments, hpieces]
    rfl

/-- Searching the first argument only is enough exactly when it decides. -/
theorem firstDecides_iff (content needle : Bytes) :
    (needle <:+: (arguments content).headI ↔
        ∃ argument ∈ arguments content, needle <:+: argument) ↔
      FirstDecides content needle := by
  rw [arguments_eq_cons content, List.exists_mem_cons_iff, FirstDecides, arguments_eq_cons content]
  constructor
  · intro h hlater
    exact h.mpr (Or.inr hlater)
  · intro h
    exact ⟨Or.inl, fun hany ↦ hany.elim id h⟩

theorem cmdlineContains_eq_detectCmdline_iff {content : Bytes}
    (hlength : content.length ≤ 8191) :
    cmdlineContains (some content) webwallpaperExe = detectCmdline (some content) ↔
      FirstDecides content webwallpaperExe := by
  rw [Bool.eq_iff_iff, cmdlineContains_iff hlength (by decide), detectCmdline_iff hlength,
    firstDecides_iff]

/-- The layer's scan misses nothing that the daemon's finds. -/
theorem detectCmdline_of_cmdlineContains {cmdline : Option Bytes}
    (hlength : ∀ content, cmdline = some content → content.length ≤ 8191)
    (hfound : cmdlineContains cmdline webwallpaperExe = true) : detectCmdline cmdline = true := by
  cases cmdline with
  | none => exact absurd hfound (by simp [cmdlineContains])
  | some content =>
      have hcontent := hlength content rfl
      rw [cmdlineContains_iff hcontent (by decide)] at hfound
      rw [detectCmdline_iff hcontent, arguments_eq_cons]
      exact ⟨_, List.mem_cons_self, hfound⟩

/-- The preloaded library sees the same as the layer in a shorter command line. -/
theorem interposeCmdline_eq_detectCmdline {content : Bytes} (hlength : content.length ≤ 4096) :
    interposeCmdline (some content) = detectCmdline (some content) := by
  rw [interposeCmdline, detectCmdline, List.take_of_length_le hlength,
    List.take_of_length_le (by omega)]

/-! ## Looking through the processes -/

theorem scanProcPids_eq (isMatch : Int32 → Bool) (names : List Bytes) (pids : List Int32) :
    scanProcPids isMatch names pids =
      pids ++ ((names.filterMap procPid).filter isMatch).take (maxPids - pids.length) := by
  induction names generalizing pids with
  | nil => simp [scanProcPids]
  | cons name names ih =>
      rw [scanProcPids]
      cases hpid : procPid name with
      | none => rw [List.filterMap_cons_none hpid, ih]
      | some pid =>
          rw [List.filterMap_cons_some hpid]
          dsimp only
          cases hmatch : isMatch pid with
          | false =>
              rw [List.filter_cons_of_neg (by simp [hmatch]), if_neg (by simp), ih]
          | true =>
              rw [List.filter_cons_of_pos hmatch]
              by_cases hroom : pids.length < maxPids
              · have hone : maxPids - pids.length = maxPids - (pids ++ [pid]).length + 1 := by
                  rw [List.length_append, List.length_singleton]
                  omega
                rw [if_pos ⟨rfl, hroom⟩, ih, hone, List.take_succ_cons, List.append_assoc]
                rfl
              · have hfull : maxPids - pids.length = 0 := by omega
                rw [if_neg (fun h ↦ hroom h.2), ih, hfull, List.take_zero, List.take_zero]

/-- The layer takes every process that the daemon finds for a target. -/
theorem detectTargetProcess_of_mem {names : List Bytes} {cmdlineOf : Int32 → Option Bytes}
    (hlength : ∀ pid content, cmdlineOf pid = some content → content.length ≤ 8191)
    (comm : Option Bytes) {pid : Int32} (hpid : pid ∈ wpFindWebwallpaperPids names cmdlineOf) :
    detectTargetProcess comm (cmdlineOf pid) = true := by
  rw [wpFindWebwallpaperPids, scanProcPids_eq, List.nil_append] at hpid
  have hfound := (List.mem_filter.mp (List.mem_of_mem_take hpid)).2
  rw [detectTargetProcess, detectCmdline_of_cmdlineContains (hlength pid) hfound, Bool.or_true]

/-- Among processes of which not too many are hooked, those that are hooked are
found exactly when the first argument of each process decides. -/
theorem wpFindWebwallpaperPids_eq_iff {names : List Bytes} {cmdlineOf : Int32 → Option Bytes}
    (hlength : ∀ pid content, cmdlineOf pid = some content → content.length ≤ 8191)
    (hroom : ((names.filterMap procPid).filter fun pid ↦ detectCmdline (cmdlineOf pid)).length ≤
      maxPids) :
    wpFindWebwallpaperPids names cmdlineOf =
        (names.filterMap procPid).filter (fun pid ↦ detectCmdline (cmdlineOf pid)) ↔
      ∀ pid ∈ names.filterMap procPid, ∀ content, cmdlineOf pid = some content →
        FirstDecides content webwallpaperExe := by
  have hfind : wpFindWebwallpaperPids names cmdlineOf = ((names.filterMap procPid).filter
      fun pid ↦ cmdlineContains (cmdlineOf pid) webwallpaperExe).take maxPids :=
    scanProcPids_eq _ names []
  generalize names.filterMap procPid = pids at hroom hfind ⊢
  have hshort : (pids.filter fun pid ↦ cmdlineContains (cmdlineOf pid) webwallpaperExe).length ≤
      maxPids := by
    rw [← List.countP_eq_length_filter] at hroom ⊢
    have hless := List.countP_mono_left fun pid (_ : pid ∈ pids) ↦
      detectCmdline_of_cmdlineContains (hlength pid)
    exact hless.trans hroom
  have hsame : ∀ pid, (cmdlineContains (cmdlineOf pid) webwallpaperExe =
        detectCmdline (cmdlineOf pid) ↔
      ∀ content, cmdlineOf pid = some content → FirstDecides content webwallpaperExe) := by
    intro pid
    cases hcmdline : cmdlineOf pid with
    | none => exact iff_of_true rfl (by simp)
    | some content =>
        rw [cmdlineContains_eq_detectCmdline_iff (hlength pid content hcmdline)]
        simp
  rw [hfind, List.take_of_length_le hshort]
  constructor
  · intro hfound pid hpid
    rw [← hsame, Bool.eq_iff_iff]
    have hmem := congrArg (pid ∈ ·) hfound
    simpa [hpid] using hmem
  · intro hdecides
    exact List.filter_congr fun pid hpid ↦ (hsame pid).mpr (hdecides pid hpid)

/-- Every command line that can be read is searched as if by its arguments, and
as the layer searches it, exactly when its first argument decides; then the
processes found are those that the layer hooks. -/
theorem cmdlineContains_sees_arguments_iff {content needle : Bytes} {names : List Bytes}
    {cmdlineOf : Int32 → Option Bytes} (hlength : content.length ≤ 8191) (hneedle : 0 ∉ needle)
    (hlengths : ∀ pid content, cmdlineOf pid = some content → content.length ≤ 8191)
    (hroom : ((names.filterMap procPid).filter fun pid ↦ detectCmdline (cmdlineOf pid)).length ≤
      maxPids) :
    ((cmdlineContains (some content) needle = true ↔
          ∃ argument ∈ arguments content, needle <:+: argument) ↔
        FirstDecides content needle) ∧
      (cmdlineContains (some content) webwallpaperExe = detectCmdline (some content) ↔
        FirstDecides content webwallpaperExe) ∧
      (wpFindWebwallpaperPids names cmdlineOf =
          (names.filterMap procPid).filter (fun pid ↦ detectCmdline (cmdlineOf pid)) ↔
        ∀ pid ∈ names.filterMap procPid, ∀ content, cmdlineOf pid = some content →
          FirstDecides content webwallpaperExe) := by
  refine ⟨?_, cmdlineContains_eq_detectCmdline_iff hlength,
    wpFindWebwallpaperPids_eq_iff hlengths hroom⟩
  rw [cmdlineContains_iff hlength hneedle, firstDecides_iff]

/-- A program that is started through a launcher. -/
def launched : Bytes := bytesOf "wine" ++ 0 :: webwallpaperExe ++ [0]

theorem launched_not_seen :
    cmdlineContains (some launched) webwallpaperExe = false ∧
      (∃ argument ∈ arguments launched, webwallpaperExe <:+: argument) ∧
      detectCmdline (some launched) = true := by
  have hscan : detectCmdline (some launched) = true := by decide
  have hlength : launched.length ≤ 8191 := by decide
  exact ⟨by decide, (detectCmdline_iff hlength).mp hscan, hscan⟩

/-- A program that is started by its own name. -/
def direct : Bytes := webwallpaperExe ++ 0 :: bytesOf "--type" ++ [0]

theorem cmdlineContains_sees_arguments_iff_direct :
    (cmdlineContains (some direct) webwallpaperExe = true ↔
        ∃ argument ∈ arguments direct, webwallpaperExe <:+: argument) ∧
      wpFindWebwallpaperPids [bytesOf "self", bytesOf "41"] (fun _ ↦ some direct) = [41] := by
  have hlength : direct.length ≤ 8191 := by decide
  have hlengths : ∀ (pid : Int32) (content : Bytes), some direct = some content →
      content.length ≤ 8191 := by
    rintro pid content ⟨rfl⟩
    exact hlength
  have hdecides : FirstDecides direct webwallpaperExe := by
    intro _
    exact (memmem_iff _ _).mp (by decide)
  have hpids : [bytesOf "self", bytesOf "41"].filterMap procPid = [41] := by decide
  have hroom : (([bytesOf "self", bytesOf "41"].filterMap procPid).filter
      fun _ ↦ detectCmdline (some direct)).length ≤ maxPids := by
    rw [hpids]
    decide
  obtain ⟨hsees, -, hfinds⟩ := @cmdlineContains_sees_arguments_iff direct webwallpaperExe
    _ _ hlength (by decide) hlengths hroom
  refine ⟨hsees.mpr hdecides, (hfinds.mpr ?_).trans ?_⟩
  · rintro pid - content ⟨rfl⟩
    exact hdecides
  · rw [hpids]
    decide

end Wallpiper.Daemon
