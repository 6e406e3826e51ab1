import Wallpiper.Ctl.DaemonCommands
import Wallpiper.Steam.Resolvers

/-!
# The control tool

`wallpiperctl` runs Wallpaper Engine's own program under wine for the commands
that concern wallpapers, and asks the daemon for the rest.  A wallpaper is named
by its workshop number or by a path, which wine is given as a path of its drive
`Z:`.
-/

namespace Wallpiper.Ctl.Tool

open Foundations Foundations.CText Foundations.NaturalOrder
open Capture (snprintf)
open Steam (System PathResult compareStringsDesc belowSteamRoot fmtOk wpCompatdataDir
  wpWorkshopContentDir wpWeExe wpWineBin)
open Ctl.Daemon (Transport wpSendDaemonCommand)

/-! ## What the tool finds around it -/

inductive StatMode where
  | directory
  | regular
  | other
  deriving DecidableEq, Repr

/-- What a forked process executes. -/
structure WineCall where
  wineprefix : Bytes
  argv : List Bytes
  deriving DecidableEq, Repr

/-- A forked process, and whether `execv` started wine in it. -/
structure Child where
  call : WineCall
  started : Bool
  deriving DecidableEq, Repr

inductive WineEnd where
  | signalled
  | exited (code : ℕ)
  deriving DecidableEq, Repr

/-- The system, what `cJSON` finds under `title` in a text, whether processes can be
forked, waited for and turned into wine, how wine ends, and the way to the daemon
or the message that there is none. -/
structure Host where
  getenv : String → Option Bytes
  stat : Bytes → Option StatMode
  readdir : Bytes → Option (List Bytes)
  realpath : Bytes → Option Bytes
  contents : Bytes → Option Bytes
  title : Bytes → Option Bytes
  fork : Bool
  execv : WineCall → Bool
  wine : WineCall → WineEnd
  waitpid : Bool
  daemon : Except Bytes Transport

def Host.system (host : Host) : System :=
  { getenv := host.getenv, isDir := fun path ↦ host.stat path = some .directory
    isRegularFile := fun path ↦ host.stat path = some .regular, readdir := host.readdir }

/-! ## Paths of wine -/

def windowsPath (unixPath : Bytes) : Bytes :=
  bytesOf "Z:" ++ unixPath.map fun c ↦ if c = 47 then 92 else c

def wpToWindowsPath (unixPath : Bytes) (outLen : ℕ) : Option Bytes :=
  if outLen < unixPath.length + 3 then none else some (windowsPath unixPath)

def isWorkshopId (target : Bytes) : Bool := target ≠ [] && target.all isDigit

def pathTooLong (errOutLen : ℕ) : PathResult :=
  .error (some (snprintf errOutLen (bytesOf "path too long")))

def copyPath (path : Bytes) (errOutLen : ℕ) : PathResult :=
  if path.length = 0 ∨ 1024 ≤ path.length then pathTooLong errOutLen else .ok path

/-- The directory or file that a target stands for. -/
def resolveTarget (host : Host) (target : Bytes) (errOutLen : ℕ) : PathResult :=
  if isWorkshopId target then
    match wpWorkshopContentDir host.system 900 errOutLen with
    | .error text => .error text
    | .ok workshopDir => copyPath (workshopDir ++ 47 :: target) errOutLen
  else
    match host.realpath target with
    | none =>
        .error (some (snprintf errOutLen (bytesOf "no such file or directory: " ++ target)))
    | some real => copyPath real errOutLen

def projectJson : Bytes := bytesOf "/project.json"

def resolveProjectJson (host : Host) (target : Bytes) (outLen errOutLen : ℕ) : PathResult :=
  match resolveTarget host target errOutLen with
  | .error text => .error text
  | .ok resolved =>
      match host.stat resolved with
      | none => .error (some (snprintf errOutLen (bytesOf "wallpaper not found: " ++ resolved)))
      | some .directory =>
          if 1024 - resolved.length ≤ projectJson.length then pathTooLong errOutLen
          else if host.stat (resolved ++ projectJson) = none then
            .error (some (snprintf errOutLen
              (bytesOf "no project.json found in " ++ resolved ++ projectJson)))
          else if outLen ≤ (resolved ++ projectJson).length then pathTooLong errOutLen
          else .ok (resolved ++ projectJson)
      | some _ => if outLen ≤ resolved.length then pathTooLong errOutLen else .ok resolved

/-! ## Commands of Wallpaper Engine -/

/-- Success or the text of an error where one is left, and the processes that
were forked. -/
abbrev Sent := Except (Option Bytes) Unit × List Child

def failed (errOutLen : ℕ) (text : Bytes) : Sent := (.error (some (snprintf errOutLen text)), [])

def noResponse : Bytes :=
  bytesOf "wallpaper engine did not respond to the control command (is it running?)"

/-- A child in which wine cannot be started exits with 127. -/
def Host.status (host : Host) (child : Child) : WineEnd :=
  if child.started then host.wine child.call else .exited 127

/-- The process is forked and waited for. -/
def runWine (host : Host) (call : WineCall) (errOutLen : ℕ) : Sent :=
  if host.fork = false then failed errOutLen (bytesOf "fork failed")
  else
    let child : Child := ⟨call, host.execv call⟩
    if host.waitpid = false then
      (.error (some (snprintf errOutLen (bytesOf "failed to wait for wine process"))), [child])
    else if host.status child ≠ .exited 0 then
      (.error (some (snprintf errOutLen noResponse)), [child])
    else (.ok (), [child])

def controlCall (wineBin weExe compatdata : Bytes) (controlArgs : List Bytes) : WineCall :=
  { wineprefix := compatdata ++ bytesOf "/pfx"
    argv := wineBin :: weExe :: bytesOf "-control" :: controlArgs }

def wpWeSendControl (qsort : QSort compareStringsDesc) (host : Host) (controlArgs : List Bytes)
    (errOutLen : ℕ) : Sent :=
  if 10 < controlArgs.length then failed errOutLen (bytesOf "too many control arguments")
  else
    match wpWineBin qsort host.system 1024 errOutLen with
    | .error text => (.error text, [])
    | .ok wineBin =>
        match wpWeExe host.system 1024 errOutLen with
        | .error text => (.error text, [])
        | .ok weExe =>
            match wpCompatdataDir host.system 768 errOutLen with
            | .error text => (.error text, [])
            | .ok compatdata =>
                if 800 ≤ (compatdata ++ bytesOf "/pfx").length then
                  failed errOutLen (bytesOf "compatdata path too long")
                else runWine host (controlCall wineBin weExe compatdata controlArgs) errOutLen

def slotOf (monitor : Option Bytes) : Bytes :=
  match monitor with
  | some (c :: rest) => c :: rest
  | _ => bytesOf "0"

/-- Both commands that name a wallpaper turn its file into a path of wine. -/
def withProject (qsort : QSort compareStringsDesc) (host : Host) (target : Bytes)
    (control : Bytes → List Bytes) (errOutLen : ℕ) : Sent :=
  match resolveProjectJson host target 1024 errOutLen with
  | .error text => (.error text, [])
  | .ok resolved =>
      match wpToWindowsPath resolved 1030 with
      | none => failed errOutLen (bytesOf "path too long to convert")
      | some winPath => wpWeSendControl qsort host (control winPath) errOutLen

def setArgs (monitor : Option Bytes) (winPath : Bytes) : List Bytes :=
  [bytesOf "openWallpaper", bytesOf "-file", winPath, bytesOf "-monitor", slotOf monitor]

def propArgs (name value : Bytes) (monitor : Option Bytes) (winPath : Bytes) : List Bytes :=
  [bytesOf "setProperty", bytesOf "-file", winPath, bytesOf "-name", name, bytesOf "-value", value,
    bytesOf "-monitor", slotOf monitor]

def wpWeSetWallpaper (qsort : QSort compareStringsDesc) (host : Host) (target : Bytes)
    (monitor : Option Bytes) : ℕ → Sent :=
  withProject qsort host target (setArgs monitor)

def wpWeSetProperty (qsort : QSort compareStringsDesc) (host : Host) (target name value : Bytes)
    (monitor : Option Bytes) : ℕ → Sent :=
  withProject qsort host target (propArgs name value monitor)

/-- The line of one entry: its name in twelve columns, and its title. -/
def wallpaperLine (host : Host) (workshopDir name : Bytes) : Option Bytes :=
  let projectPath := workshopDir ++ 47 :: name ++ projectJson
  if name.headD 0 = 46 ∨ 1024 ≤ projectPath.length then none
  else
    (host.contents projectPath).map fun text ↦
      name ++ List.replicate (12 - name.length) 32 ++ 32 ::
        (host.title (text.take 8191)).getD name ++ [10]

def wpWeListWallpapers (host : Host) (errOutLen : ℕ) : Except (Option Bytes) (List Bytes) :=
  match wpWorkshopContentDir host.system 900 errOutLen with
  | .error text => .error text
  | .ok workshopDir =>
      match host.readdir workshopDir with
      | none =>
          .error (some (snprintf errOutLen
            (bytesOf "could not open workshop content dir " ++ workshopDir)))
      | some names => .ok (names.filterMap (wallpaperLine host workshopDir))

def weVerbs : List (Bytes × Bytes) :=
  [("pause", "pause"), ("play", "play"), ("stop", "stop"), ("mute", "mute"), ("unmute", "unmute"),
    ("next", "nextWallpaper"), ("prev", "previousWallpaper"), ("reset", "resetWallpaper")].map
      fun verb ↦ (bytesOf verb.1, bytesOf verb.2)

def isWeCommand (cmd : Bytes) : Bool :=
  cmd = bytesOf "list" || cmd = bytesOf "set" || cmd = bytesOf "volume" || cmd = bytesOf "prop" ||
    (weVerbs.lookup cmd).isSome

def isDaemonCommand (cmd : Bytes) : Bool := cmd = bytesOf "debug-on" || cmd = bytesOf "debug-off"

/-- `run_we_command` on the words behind the command, but for `list`. -/
def runWeCommand (qsort : QSort compareStringsDesc) (host : Host) (cmd : Bytes)
    (words : List Bytes) (errOutLen : ℕ) : Sent :=
  if cmd = bytesOf "set" then
    match words with
    | target :: more => wpWeSetWallpaper qsort host target more.head? errOutLen
    | _ => failed errOutLen (bytesOf "usage: wallpiperctl set <path|workshop-id> [monitor]")
  else if cmd = bytesOf "volume" then
    match words with
    | volume :: _ =>
        wpWeSendControl qsort host [bytesOf "volume", bytesOf "-value", volume] errOutLen
    | _ => failed errOutLen (bytesOf "usage: wallpiperctl volume <0-100>")
  else if cmd = bytesOf "prop" then
    match words with
    | target :: name :: value :: more =>
        wpWeSetProperty qsort host target name value more.head? errOutLen
    | _ =>
        failed errOutLen
          (bytesOf "usage: wallpiperctl prop <path|workshop-id> <name> <value> [monitor]")
  else
    match weVerbs.lookup cmd with
    | some verb => wpWeSendControl qsort host [verb] errOutLen
    | none => failed errOutLen (bytesOf "unknown command: " ++ cmd)

/-! ## The tool -/

/-- What is printed. -/
inductive Said where
  | nothing
  | usage
  | unknown (cmd : Bytes)
  | configuration
  | wallpapers (lines : List Bytes)
  | failed (message : Option Bytes)
  deriving DecidableEq, Repr

structure Outcome where
  exitCode : ℕ
  said : Said
  children : List Child
  asked : List CtlRequest
  deriving DecidableEq, Repr

def Outcome.ofSent (sent : Sent) : Outcome :=
  match sent with
  | (.ok _, children) => { exitCode := 0, said := .nothing, children, asked := [] }
  | (.error message, children) =>
      { exitCode := 1, said := .failed message, children, asked := [] }

/-- A command for the daemon, with all its words. -/
def sendToDaemon (host : Host) (words : List Bytes) : Outcome :=
  match host.daemon with
  | .error message =>
      { exitCode := 1, said := .failed (some message), children := [], asked := [] }
  | .ok t =>
      match wpSendDaemonCommand t words with
      | (.ok _, asked) => { exitCode := 0, said := .nothing, children := [], asked }
      | (.error message, asked) =>
          { exitCode := 1, said := .failed (some message), children := [], asked }

/-- `main` on the words behind the program's name. -/
def main (qsort : QSort compareStringsDesc) (host : Host) (words : List Bytes) : Outcome :=
  match words with
  | [] => { exitCode := 1, said := .usage, children := [], asked := [] }
  | cmd :: rest =>
      if cmd = bytesOf "--help" ∨ cmd = bytesOf "-h" then
        { exitCode := 0, said := .usage, children := [], asked := [] }
      else if cmd = bytesOf "check-config" then
        { exitCode := 0, said := .configuration, children := [], asked := [] }
      else if isWeCommand cmd then
        if cmd = bytesOf "list" then
          match wpWeListWallpapers host 512 with
          | .ok lines => { exitCode := 0, said := .wallpapers lines, children := [], asked := [] }
          | .error message =>
              { exitCode := 1, said := .failed message, children := [], asked := [] }
        else .ofSent (runWeCommand qsort host cmd rest 512)
      else if isDaemonCommand cmd then sendToDaemon host (cmd :: rest)
      else { exitCode := 1, said := .unknown cmd, children := [], asked := [] }

/-! ## The path that wine is given -/

def Place (host : Host) (target place : Bytes) : Prop :=
  isWorkshopId target = true ∧
      (∃ dir, wpWorkshopContentDir host.system 900 512 = .ok dir ∧ place = dir ++ 47 :: target) ∨
    isWorkshopId target = false ∧ host.realpath target = some place

/-- The file itself, or the project in the directory. -/
inductive FileAt (host : Host) (place : Bytes) : Bytes → Prop
  | file {mode : StatMode} (h : host.stat place = some mode) (hmode : mode ≠ .directory) :
      FileAt host place place
  | project {mode : StatMode} (h : host.stat place = some .directory)
      (hproject : host.stat (place ++ projectJson) = some mode) :
      FileAt host place (place ++ projectJson)

def Denotes (host : Host) (target file : Bytes) : Prop :=
  ∃ place, Place host target place ∧ place ≠ [] ∧ FileAt host place file

theorem Place.unique {host : Host} {target place place' : Bytes} (h : Place host target place)
    (h' : Place host target place') : place' = place := by
  rcases h with ⟨hid, dir, hdir, rfl⟩ | ⟨hid, hreal⟩
  · rcases h' with ⟨-, dir', hdir', rfl⟩ | ⟨hid', -⟩
    · obtain rfl := Except.ok.inj (hdir.symm.trans hdir')
      rfl
    · exact absurd hid (by simp [hid'])
  · rcases h' with ⟨hid', -⟩ | ⟨-, hreal'⟩
    · exact absurd hid (by simp [hid'])
    · exact Option.some.inj (hreal'.symm.trans hreal)

theorem FileAt.unique {host : Host} {place file file' : Bytes} (h : FileAt host place file)
    (h' : FileAt host place file') : file' = file := by
  cases h with
  | file hstat hmode =>
      cases h' with
      | file => rfl
      | project hstat' => exact absurd (Option.some.inj (hstat.symm.trans hstat')) hmode
  | project hstat =>
      cases h' with
      | file hstat' hmode' => exact absurd (Option.some.inj (hstat'.symm.trans hstat)) hmode'
      | project => rfl

/-- A target names one file at most. -/
theorem Denotes.unique {host : Host} {target file file' : Bytes} (h : Denotes host target file)
    (h' : Denotes host target file') : file' = file := by
  obtain ⟨place, hplace, -, hfile⟩ := h
  obtain ⟨place', hplace', -, hfile'⟩ := h'
  obtain rfl := hplace.unique hplace'
  exact hfile.unique hfile'

theorem FileAt.length_le {host : Host} {place file : Bytes} (h : FileAt host place file) :
    place.length ≤ file.length := by
  cases h with
  | file => exact le_refl _
  | project => exact (List.length_append ▸ Nat.le_add_right _ _)

section

variable (qsort : QSort compareStringsDesc) (host : Host)

/-- A forked process for a control command, with the paths that the environment
leads to. -/
def Forked (control : List Bytes) (child : Child) : Prop :=
  ∃ wineBin weExe compatdata, wpWineBin qsort host.system 1024 512 = .ok wineBin ∧
    wpWeExe host.system 1024 512 = .ok weExe ∧
      wpCompatdataDir host.system 768 512 = .ok compatdata ∧
        child.call = controlCall wineBin weExe compatdata control ∧
          child.started = host.execv child.call ∧ host.fork = true

/-- Wine was started, waited for and exited with 0. -/
def Child.Succeeded (child : Child) : Prop :=
  child.started = true ∧ host.waitpid = true ∧ host.wine child.call = .exited 0

/-- One process at most is forked, for one of these commands, and the tool
succeeds when wine does in it. -/
structure Launch (commands : List Bytes → Prop) (sent : Sent) : Prop where
  mem : ∀ child, child ∈ sent.2 ↔ ∃ control, commands control ∧ Forked qsort host control child
  single : sent.2.length ≤ 1
  success : sent.1 = .ok () ↔ ∃ child ∈ sent.2, child.Succeeded host

variable {qsort host} {commands commands' : List Bytes → Prop} {sent : Sent}

theorem Launch.congr (h : Launch qsort host commands sent)
    (hcommands : ∀ control, commands control ↔ commands' control) :
    Launch qsort host commands' sent := by
  refine ⟨fun child ↦ (h.mem child).trans ?_, h.single, h.success⟩
  exact exists_congr fun control ↦ and_congr_left' (hcommands control)

end

/-! ## The commands that are understood -/

end Wallpiper.Ctl.Tool
