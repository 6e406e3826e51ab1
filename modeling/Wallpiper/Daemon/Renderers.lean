import Wallpiper.Daemon.Processes
import Wallpiper.Foundations.Obligations
import Wallpiper.Foundations.Runs
import Wallpiper.Foundations.TextLines

/-!
# The renderers of a daemon

A daemon starts the renderer through a wrapper, finds the renderer's process
among all processes and keeps the number of both in files that outlive it.  A
later daemon ends what those files name if it still runs under the right name.
Processes come and go between any two looks and their numbers are used again, a
file may not be readable or writable, or only in part, and while a picker is
open no renderer is ended.
-/

namespace Wallpiper.Daemon

open Foundations Foundations.CText

/-! ## Looking at processes -/

/-- What is under `/proc` during one scan.  Numbers of processes fit an `int`. -/
structure ProcScan where
  names : List Bytes
  comm : Int32 → Option Bytes
  cmdline : Int32 → Option Bytes
  names_small : ∀ name ∈ names, strtol 10 name < 2 ^ 31

def wrapperExe : Bytes := bytesOf "python3"

def pickerExe : Bytes := bytesOf "wallpaperui.exe"

/-- The process runs and has the name. -/
def commIs (exe : Bytes) (comm : Option Bytes) : Bool :=
  comm.any fun content ↦ cString (readComm 256 content) = exe

def wpFindRendererPids (scan : ProcScan) : List Int32 :=
  scanProcPids (fun pid ↦ commIs rendererExe (scan.comm pid)) scan.names []

def wpFindPickerPids (scan : ProcScan) : List Int32 :=
  scanProcPids (fun pid ↦ cmdlineContains (scan.cmdline pid) pickerExe) scan.names []

/-- A renderer that was not there before, if one appears in time. -/
def discoverNewRendererPid (preSpawn : List Int32) (attempts : List ProcScan) : Option Int32 :=
  (attempts.take 20).findSome? fun scan ↦ (wpFindRendererPids scan).find? (· ∉ preSpawn)

/-! ## Ending processes -/

inductive Signal where
  | term
  | kill
  deriving DecidableEq, Repr

/-- The signals that are sent.  `alive` says which processes are there when they
are looked at, thirty times and once more. -/
def wpKillPidsGracefully (pids : List Int32) (alive : ℕ → Int32 → Bool) : List (Int32 × Signal) :=
  pids.map (·, .term) ++
    if (List.range 30).any (fun attempt ↦ pids.all fun pid ↦ !alive attempt pid) then []
    else (pids.filter (alive 30)).map (·, .kill)

/-! ## The files -/

def parseTrackedPid (line : Bytes) : Option Int32 :=
  if scanNumber 10 line = none ∨ strtol 10 line ≤ 0 then none
  else some (Int32.ofInt (strtol 10 line))

def readTrackedWrapperPid (file : Option Bytes) : Option Int32 :=
  file.bind fun content ↦ (fgetsLines 64 [] content).head?.bind parseTrackedPid

def readTrackedRendererPids (file : Option Bytes) : List Int32 :=
  match file with
  | none => []
  | some content => ((fgetsLines 64 [] content).filterMap parseTrackedPid).take maxPids

def trackedWrapperText (pid : Int32) : Bytes := decimalInt pid.toInt

def trackedRenderersText (pids : List Int32) : Bytes :=
  [10].intercalate (pids.map fun pid ↦ decimalInt pid.toInt)

/-- The contents of the two files, if they are there. -/
structure TrackedFiles where
  wrapper : Option Bytes
  renderers : Option Bytes

/-- How a file is read or written: it cannot be opened, or all of it goes
through, or only the first `n` bytes. -/
inductive Transfer where
  | refused
  | whole
  | cut (n : ℕ)
  deriving DecidableEq, Repr

def Transfer.read (t : Transfer) (file : Option Bytes) : Option Bytes :=
  match t with
  | .refused => none
  | .whole => file
  | .cut n => file.map (·.take n)

def Transfer.write (t : Transfer) (file : Option Bytes) (text : Bytes) : Option Bytes :=
  match t with
  | .refused => file
  | .whole => some text
  | .cut n => some (text.take n)

/-! ## Starting the renderer -/

/-- What the system answers while the renderer is started. -/
structure SpawnCalls where
  wrapperRead : Transfer
  wrapperComm : Int32 → Option Bytes
  renderersRead : Transfer
  before : ProcScan
  /-- the wrapper, if everything up to `fork` went well -/
  started : Option Int32
  started_pos : ∀ pid ∈ started, 0 < pid.toInt
  wrapperWrite : Transfer
  wrapperAlive : ℕ → Int32 → Bool
  rendererComm : Int32 → Option Bytes
  pickers : ProcScan
  rendererAlive : ℕ → Int32 → Bool
  attempts : List ProcScan
  renderersWrite : Transfer

/-- What happens to process numbers. -/
inductive ProcEvent where
  | portal (pid : Int32)
  | forked (pid : Int32)
  /-- found as the renderer that was started -/
  | discovered (pid : Int32)
  /-- a number of the files, and a process runs under it that has the name -/
  | seen (pid : Int32) (exe : Bytes)
  /-- a number of the files, and none runs under it with the name -/
  | gone (pid : Int32)
  | signalled (pid : Int32) (signal : Signal)
  /-- found when the table was full -/
  | crowded (pid : Int32)
  /-- found under the name of a renderer or web wallpaper at the shutdown -/
  | named (pid : Int32)
  deriving DecidableEq

/-- A number is used for the first time. -/
def ProcEvent.isNew : ProcEvent → Bool
  | .forked _ => true
  | .discovered _ => true
  | _ => false

def signalEvents (signals : List (Int32 × Signal)) : List ProcEvent :=
  signals.map fun p ↦ .signalled p.1 p.2

/-- What a look at the number of a file finds. -/
def lookAt (exe : Bytes) (comm : Int32 → Option Bytes) (pid : Int32) : ProcEvent :=
  if commIs exe (comm pid) then .seen pid exe else .gone pid

def trackedWrapper (files : TrackedFiles) (calls : SpawnCalls) : Option Int32 :=
  readTrackedWrapperPid (calls.wrapperRead.read files.wrapper)

def trackedRenderers (files : TrackedFiles) (calls : SpawnCalls) : List Int32 :=
  readTrackedRendererPids (calls.renderersRead.read files.renderers)

/-- The look at the wrapper of an earlier daemon, before the new one is forked. -/
def wrapperLook (files : TrackedFiles) (calls : SpawnCalls) : List ProcEvent :=
  ((trackedWrapper files calls).map (lookAt wrapperExe calls.wrapperComm)).toList

/-- The wrapper of an earlier daemon is ended if it was there at the look. -/
def endOldWrapper (files : TrackedFiles) (calls : SpawnCalls) : List ProcEvent :=
  match trackedWrapper files calls with
  | none => []
  | some old =>
      if commIs wrapperExe (calls.wrapperComm old) then
        signalEvents (wpKillPidsGracefully [old] calls.wrapperAlive)
      else []

/-- The renderers of earlier daemons that stay, and what happens to the others. -/
def endOldRenderers (files : TrackedFiles) (calls : SpawnCalls) :
    List Int32 × List ProcEvent :=
  let pending := trackedRenderers files calls
  let valid := pending.filter fun pid ↦ commIs rendererExe (calls.rendererComm pid)
  let looks := pending.map (lookAt rendererExe calls.rendererComm)
  if valid ≠ [] ∧ wpFindPickerPids calls.pickers = [] then
    ([], looks ++ signalEvents (wpKillPidsGracefully valid calls.rendererAlive))
  else (valid, looks)

/-- The new renderer beside those that stay. -/
def trackNewRenderer (pending : List Int32) (calls : SpawnCalls) : List Int32 × List ProcEvent :=
  match discoverNewRendererPid (wpFindRendererPids calls.before) calls.attempts with
  | none => (pending, [])
  | some pid =>
      if pending.length < maxPids then (pending ++ [pid], [.discovered pid])
      else (pending, [.discovered pid, .crowded pid])

def wpRendererSpawn (files : TrackedFiles) (calls : SpawnCalls) : TrackedFiles × List ProcEvent :=
  match calls.started with
  | none => (files, wrapperLook files calls)
  | some pid =>
      let (pending, rendererEvents) := endOldRenderers files calls
      let (tracked, newEvents) := trackNewRenderer pending calls
      ({ wrapper := calls.wrapperWrite.write files.wrapper (trackedWrapperText pid)
         renderers := calls.renderersWrite.write files.renderers (trackedRenderersText tracked) },
        (wrapperLook files calls ++ .forked pid :: endOldWrapper files calls) ++
          rendererEvents ++ newEvents)

/-- The renderer is started only if none is there. -/
def wpRendererSwap (files : TrackedFiles) (existing : ProcScan) (calls : SpawnCalls) :
    TrackedFiles × List ProcEvent :=
  if wpFindRendererPids existing = [] then wpRendererSpawn files calls else (files, [])

/-! ## The shutdown -/

/-- What the system answers during a shutdown. -/
structure CleanupCalls where
  renderers : ProcScan
  webwallpapers : ProcScan
  alive : ℕ → Int32 → Bool
  displayAlive : ℕ → Int32 → Bool

/-- The renderers and web wallpapers, as many as fit, and then the portal that
this daemon started. -/
def wpCleanup (displayPid : Option Int32) (calls : CleanupCalls) : List ProcEvent :=
  let renderers := wpFindRendererPids calls.renderers
  let pids := renderers ++
    (wpFindWebwallpaperPids calls.webwallpapers.names calls.webwallpapers.cmdline).take
      (maxPids - renderers.length)
  pids.map ProcEvent.named ++ signalEvents (wpKillPidsGracefully pids calls.alive) ++
    match displayPid with
    | none => []
    | some pid => signalEvents (wpKillPidsGracefully [pid] calls.displayAlive)

/-! ## One daemon after another -/

/-- The journal has an entry for each start and each shutdown, with what
happened in it. -/
structure DaemonState where
  files : TrackedFiles
  displayPid : Option Int32
  journal : List (List ProcEvent)

inductive DaemonAct
  /-- a daemon starts, and its portal if it starts one -/
  | start (portal : Option Int32)
  | swap (existing : ProcScan) (calls : SpawnCalls)
  | cleanup (calls : CleanupCalls)

namespace DaemonState

/-- No daemon has run before. -/
def fresh : DaemonState := ⟨⟨none, none⟩, none, []⟩

def step (d : DaemonState) : DaemonAct → Option DaemonState
  | .start portal =>
      some { d with
        displayPid := portal
        journal := d.journal ++ [portal.toList.map ProcEvent.portal] }
  | .swap existing calls =>
      let (files, events) := wpRendererSwap d.files existing calls
      some { d with files, journal := d.journal ++ [events] }
  | .cleanup calls =>
      some { d with displayPid := none, journal := d.journal ++ [wpCleanup d.displayPid calls] }

end DaemonState

/-! ## What a scan finds, and what the files give back -/

theorem pos_of_procPid {name : Bytes} {pid : Int32} (hname : strtol 10 name < 2 ^ 31)
    (h : procPid name = some pid) : 0 < pid.toInt := by
  rw [procPid] at h
  split at h
  · cases h
  · rename_i hpid
    simp only [not_or, not_le] at hpid
    obtain rfl := Option.some.inj h
    rw [Int32.toInt_ofInt_of_le (by omega) (by omega)]
    exact hpid.2.2

theorem pos_of_mem_scan {isMatch : Int32 → Bool} {names : List Bytes} {pids : List Int32}
    (hnames : ∀ name ∈ names, strtol 10 name < 2 ^ 31) (hpids : ∀ pid ∈ pids, 0 < pid.toInt) :
    ∀ pid ∈ scanProcPids isMatch names pids, 0 < pid.toInt := by
  induction names generalizing pids with
  | nil => exact hpids
  | cons name names ih =>
      rw [List.forall_mem_cons] at hnames
      rw [scanProcPids]
      split
      · exact ih hnames.2 hpids
      · rename_i pid hpid
        split
        · apply ih hnames.2
          rw [List.forall_mem_append, List.forall_mem_singleton]
          exact ⟨hpids, pos_of_procPid hnames.1 hpid⟩
        · exact ih hnames.2 hpids

theorem pos_of_discovered {preSpawn : List Int32} {attempts : List ProcScan} {pid : Int32}
    (h : discoverNewRendererPid preSpawn attempts = some pid) : 0 < pid.toInt := by
  obtain ⟨_, scan, _, -, hfind, -⟩ := List.findSome?_eq_some_iff.mp h
  exact pos_of_mem_scan scan.names_small (by simp) pid (List.mem_of_find?_eq_some hfind)

theorem parseTrackedPid_append {pid : Int32} (hpid : 0 < pid.toInt) {rest : Bytes}
    (hrest : scanDigits 10 rest = []) :
    parseTrackedPid (decimalInt pid.toInt ++ rest) = some pid := by
  obtain ⟨hlow, hhigh⟩ := int32_bounds pid
  have hvalue := strtol_decimalInt_append (z := pid.toInt) (by omega) (by omega) hrest
  rw [parseTrackedPid, scanNumber_decimalInt_append _ hrest, scanNumber_decimalInt, hvalue,
    if_neg (by simp [hpid]), Int32.ofInt_toInt]

theorem parseTrackedPid_decimalInt {pid : Int32} (hpid : 0 < pid.toInt) :
    parseTrackedPid (decimalInt pid.toInt) = some pid := by
  rw [← List.append_nil (decimalInt pid.toInt)]
  exact parseTrackedPid_append hpid rfl

theorem readTrackedWrapperPid_text {pid : Int32} (hpid : 0 < pid.toInt) :
    readTrackedWrapperPid (some (trackedWrapperText pid)) = some pid := by
  have hlength := decimalInt_i32_length_le pid
  rw [readTrackedWrapperPid, Option.bind_some, trackedWrapperText,
    fgetsLines_last (newline_notMem_decimalInt _) (decimalInt_ne_nil _) (by omega),
    List.head?_cons, Option.bind_some, parseTrackedPid_decimalInt hpid]

/-- The table is read back as it was written. -/
theorem readTrackedRendererPids_text {pids : List Int32} (hpids : ∀ pid ∈ pids, 0 < pid.toInt)
    (hlength : pids.length ≤ maxPids) :
    readTrackedRendererPids (some (trackedRenderersText pids)) = pids := by
  have hlines : ∀ line ∈ pids.map fun pid ↦ decimalInt pid.toInt,
      10 ∉ line ∧ line ≠ [] ∧ line.length + 2 ≤ 64 ∧
        parseTrackedPid (line ++ [10]) = parseTrackedPid line := by
    intro line hline
    obtain ⟨pid, hpid, rfl⟩ := List.mem_map.mp hline
    have hle := decimalInt_i32_length_le pid
    refine ⟨newline_notMem_decimalInt _, decimalInt_ne_nil _, by omega, ?_⟩
    rw [parseTrackedPid_append (hpids pid hpid) rfl, parseTrackedPid_decimalInt (hpids pid hpid)]
  have hparsed : (pids.map fun pid ↦ decimalInt pid.toInt).filterMap parseTrackedPid = pids := by
    rw [List.filterMap_map]
    exact (List.filterMap_congr (g := some)
      fun pid hpid ↦ parseTrackedPid_decimalInt (hpids pid hpid)).trans (by simp)
  rw [readTrackedRendererPids, trackedRenderersText, filterMap_fgetsLines hlines, hparsed,
    List.take_of_length_le hlength]

theorem length_readTrackedRendererPids_le (file : Option Bytes) :
    (readTrackedRendererPids file).length ≤ maxPids := by
  unfold readTrackedRendererPids
  split
  · exact Nat.zero_le _
  · exact List.length_take_le _ _

/-! ## What a start of the renderer does with what was tracked -/

theorem mem_endOldRenderers {files : TrackedFiles} {calls : SpawnCalls} {pid : Int32}
    (h : pid ∈ (endOldRenderers files calls).1) : pid ∈ trackedRenderers files calls := by
  simp only [endOldRenderers] at h
  split at h
  · cases h
  · exact List.mem_of_mem_filter h

theorem length_endOldRenderers_le (files : TrackedFiles) (calls : SpawnCalls) :
    (endOldRenderers files calls).1.length ≤ maxPids := by
  simp only [endOldRenderers]
  split
  · exact Nat.zero_le _
  · exact (List.length_filter_le _ _).trans (length_readTrackedRendererPids_le _)

theorem mem_trackNewRenderer {pending : List Int32} {calls : SpawnCalls} {pid : Int32}
    (h : pid ∈ (trackNewRenderer pending calls).1) :
    pid ∈ pending ∨ (0 < pid.toInt ∧ .discovered pid ∈ (trackNewRenderer pending calls).2) := by
  rw [trackNewRenderer] at h ⊢
  split at h
  · exact .inl h
  · rename_i new hnew
    split at h
    · rename_i hroom
      rw [if_pos hroom]
      rcases List.mem_append.mp h with h | h
      · exact .inl h
      · obtain rfl := List.mem_singleton.mp h
        exact .inr ⟨pos_of_discovered hnew, List.mem_singleton_self _⟩
    · exact .inl h

theorem mem_trackNewRenderer_of_mem {pending : List Int32} {calls : SpawnCalls} {pid : Int32}
    (h : pid ∈ pending) : pid ∈ (trackNewRenderer pending calls).1 := by
  rw [trackNewRenderer]
  split
  · exact h
  · split
    · exact List.mem_append_left _ h
    · exact h

theorem length_trackNewRenderer_le {pending : List Int32} (hpending : pending.length ≤ maxPids)
    (calls : SpawnCalls) : (trackNewRenderer pending calls).1.length ≤ maxPids := by
  rw [trackNewRenderer]
  split
  · exact hpending
  · split
    · rw [List.length_append, List.length_singleton]
      omega
    · exact hpending

theorem lookAt_of_commIs {exe : Bytes} {comm : Int32 → Option Bytes} {pid : Int32}
    (h : commIs exe (comm pid) = true) : lookAt exe comm pid = .seen pid exe := if_pos h

theorem lookAt_of_not_commIs {exe : Bytes} {comm : Int32 → Option Bytes} {pid : Int32}
    (h : ¬ commIs exe (comm pid) = true) : lookAt exe comm pid = .gone pid := if_neg h

/-- A number that was tracked stays in the table or is accounted for. -/
theorem kept_endOldRenderers {files : TrackedFiles} (calls : SpawnCalls) {pid : Int32}
    (h : pid ∈ trackedRenderers files calls) :
    pid ∈ (endOldRenderers files calls).1 ∨ .gone pid ∈ (endOldRenderers files calls).2 ∨
      .signalled pid .term ∈ (endOldRenderers files calls).2 := by
  simp only [endOldRenderers]
  by_cases hvalid : commIs rendererExe (calls.rendererComm pid) = true
  · have hmem : pid ∈ (trackedRenderers files calls).filter
        fun pid ↦ commIs rendererExe (calls.rendererComm pid) := List.mem_filter.mpr ⟨h, hvalid⟩
    split
    · refine .inr (.inr (List.mem_append_right _ (List.mem_map.mpr ⟨(pid, .term), ?_, rfl⟩)))
      exact List.mem_append_left _ (List.mem_map.mpr ⟨pid, hmem, rfl⟩)
    · exact .inl hmem
  · have hgone : .gone pid ∈
        (trackedRenderers files calls).map (lookAt rendererExe calls.rendererComm) :=
      List.mem_map.mpr ⟨pid, h, lookAt_of_not_commIs hvalid⟩
    split
    · exact .inr (.inl (List.mem_append_left _ hgone))
    · exact .inr (.inl hgone)

theorem kept_endOldWrapper {files : TrackedFiles} (calls : SpawnCalls) {pid : Int32}
    (h : trackedWrapper files calls = some pid) :
    .gone pid ∈ wrapperLook files calls ∨ .signalled pid .term ∈ endOldWrapper files calls := by
  simp only [endOldWrapper, wrapperLook, h]
  by_cases hvalid : commIs wrapperExe (calls.wrapperComm pid) = true
  · right
    rw [if_pos hvalid]
    exact List.mem_cons_self
  · left
    rw [Option.map_some, lookAt_of_not_commIs hvalid]
    exact List.mem_singleton_self _

/-! ## No signal without a reason -/

/-- The number is that of a portal, or was found under a name in this start or
shutdown. -/
def Found (earlier before : List ProcEvent) (pid : Int32) : Prop :=
  .portal pid ∈ earlier ∨ .named pid ∈ before ∨ .seen pid wrapperExe ∈ before ∨
    .seen pid rendererExe ∈ before

/-- What may be recorded after what was recorded before in the same start or
shutdown. -/
def Justified (earlier before : List ProcEvent) : ProcEvent → Prop
  | .signalled pid signal =>
      Found earlier before pid ∧ (signal = .kill → .signalled pid .term ∈ before)
  | _ => True

def remember {α : Type} (before : List α) (x : α) : List α := before ++ [x]

theorem remembered {α : Type} (before xs : List α) : xs.foldl remember before = before ++ xs :=
  foldl_remember before xs

/-- Another entry of a journal. -/
theorem lawful_next {α : Type} {allowed : List α → α → Prop} {journal : List α} {x : α}
    (h : Lawful remember allowed [] journal) (hx : allowed journal x) :
    Lawful remember allowed [] (journal ++ [x]) := by
  rw [lawful_append, remembered, List.nil_append, lawful_cons]
  exact ⟨h, hx, lawful_nil _⟩

variable {earlier before : List ProcEvent}

theorem Found.append {pid : Int32} (h : Found earlier before pid) (more : List ProcEvent) :
    Found earlier (before ++ more) pid := by
  rcases h with h | h | h | h
  · exact .inl h
  · exact .inr (.inl (List.mem_append_left _ h))
  · exact .inr (.inr (.inl (List.mem_append_left _ h)))
  · exact .inr (.inr (.inr (List.mem_append_left _ h)))

theorem Justified.mono (before : List ProcEvent) (x e : ProcEvent)
    (h : Justified earlier before e) : Justified earlier (remember before x) e := by
  cases e with
  | signalled pid signal =>
      exact ⟨h.1.append _, fun hkill ↦ List.mem_append_left _ (h.2 hkill)⟩
  | _ => trivial

theorem lawful_unsignalled {events : List ProcEvent}
    (h : ∀ pid signal, .signalled pid signal ∉ events) :
    Lawful remember (Justified earlier) before events := by
  apply lawful_of_mono Justified.mono
  intro e he
  cases e with
  | signalled pid signal => exact absurd he (h pid signal)
  | _ => trivial

/-- Nothing is killed before it was asked to end. -/
theorem lawful_kill {pids : List Int32} (hpids : ∀ pid ∈ pids, Found earlier before pid)
    (alive : ℕ → Int32 → Bool) :
    Lawful remember (Justified earlier) before
      (signalEvents (wpKillPidsGracefully pids alive)) := by
  have hterm : ∀ pid ∈ pids, ProcEvent.signalled pid .term ∈
      signalEvents (pids.map (·, Signal.term)) := by
    intro pid hpid
    exact List.mem_map.mpr ⟨(pid, .term), List.mem_map.mpr ⟨pid, hpid, rfl⟩, rfl⟩
  rw [wpKillPidsGracefully, signalEvents, List.map_append]
  refine lawful_append.mpr ⟨lawful_of_mono Justified.mono ?_, lawful_of_mono Justified.mono ?_⟩
  · intro e he
    obtain ⟨p, hp, rfl⟩ := List.mem_map.mp he
    obtain ⟨pid, hpid, rfl⟩ := List.mem_map.mp hp
    exact ⟨hpids pid hpid, fun hkill ↦ by cases hkill⟩
  · intro e he
    obtain ⟨p, hp, rfl⟩ := List.mem_map.mp he
    have hp' : p ∈ (pids.filter (alive 30)).map (·, Signal.kill) := by
      split at hp
      · cases hp
      · exact hp
    obtain ⟨pid, hpid, rfl⟩ := List.mem_map.mp hp'
    have hmem := List.mem_of_mem_filter hpid
    rw [remembered]
    exact ⟨(hpids pid hmem).append _, fun _ ↦ List.mem_append_right _ (hterm pid hmem)⟩

theorem not_signalled_lookAt {exe : Bytes} {comm : Int32 → Option Bytes} {pid pid' : Int32}
    {signal : Signal} : ProcEvent.signalled pid signal ≠ lookAt exe comm pid' := by
  unfold lookAt
  split <;> simp

theorem not_signalled_wrapperLook {files : TrackedFiles} {calls : SpawnCalls} (pid : Int32)
    (signal : Signal) : ProcEvent.signalled pid signal ∉ wrapperLook files calls := by
  intro h
  obtain ⟨old, -, heq⟩ := Option.map_eq_some_iff.mp (Option.mem_toList.mp h)
  exact not_signalled_lookAt heq.symm

theorem lawful_endOldWrapper (files : TrackedFiles) (calls : SpawnCalls)
    (hlook : ∀ e ∈ wrapperLook files calls, e ∈ before) :
    Lawful remember (Justified earlier) before (endOldWrapper files calls) := by
  rw [endOldWrapper]
  split
  · exact lawful_nil _
  · rename_i old hold
    split
    · rename_i hvalid
      apply lawful_kill
      intro pid hpid
      obtain rfl := List.mem_singleton.mp hpid
      refine .inr (.inr (.inl (hlook _ ?_)))
      rw [wrapperLook, hold, Option.map_some, lookAt_of_commIs hvalid]
      exact List.mem_singleton_self _
    · exact lawful_nil _

theorem lawful_endOldRenderers (files : TrackedFiles) (calls : SpawnCalls) :
    Lawful remember (Justified earlier) before (endOldRenderers files calls).2 := by
  have hlooks : ∀ pid signal, ProcEvent.signalled pid signal ∉
      (trackedRenderers files calls).map (lookAt rendererExe calls.rendererComm) := by
    intro pid signal h
    obtain ⟨old, -, heq⟩ := List.mem_map.mp h
    exact not_signalled_lookAt heq.symm
  simp only [endOldRenderers]
  split
  · refine lawful_append.mpr ⟨lawful_unsignalled hlooks, ?_⟩
    rw [remembered]
    apply lawful_kill
    intro pid hpid
    obtain ⟨hmem, hvalid⟩ := List.mem_filter.mp hpid
    refine .inr (.inr (.inr (List.mem_append_right _ ?_)))
    exact List.mem_map.mpr ⟨pid, hmem, lookAt_of_commIs hvalid⟩
  · exact lawful_unsignalled hlooks

theorem lawful_spawn (files : TrackedFiles) (calls : SpawnCalls) :
    Lawful remember (Justified earlier) [] (wpRendererSpawn files calls).2 := by
  rw [wpRendererSpawn]
  split
  · exact lawful_unsignalled not_signalled_wrapperLook
  · rename_i pid hstarted
    simp only
    rw [lawful_append, lawful_append, lawful_append, lawful_cons]
    refine ⟨⟨⟨lawful_unsignalled not_signalled_wrapperLook, trivial, ?_⟩,
      lawful_endOldRenderers _ _⟩, ?_⟩
    · apply lawful_endOldWrapper
      intro e he
      rw [remembered]
      exact List.mem_append_left _ he
    · rw [trackNewRenderer]
      split
      · exact lawful_nil _
      · split <;> exact lawful_unsignalled (by simp)

theorem lawful_swap (files : TrackedFiles) (existing : ProcScan) (calls : SpawnCalls) :
    Lawful remember (Justified earlier) [] (wpRendererSwap files existing calls).2 := by
  rw [wpRendererSwap]
  split
  · exact lawful_spawn files calls
  · exact lawful_nil _

theorem lawful_cleanup {displayPid : Option Int32}
    (hdisplay : ∀ pid, displayPid = some pid → .portal pid ∈ earlier) (calls : CleanupCalls) :
    Lawful remember (Justified earlier) [] (wpCleanup displayPid calls) := by
  unfold wpCleanup
  rw [lawful_append, lawful_append, remembered, remembered]
  refine ⟨⟨lawful_unsignalled ?_, lawful_kill ?_ _⟩, ?_⟩
  · intro pid signal hmem
    obtain ⟨_, -, he⟩ := List.mem_map.mp hmem
    cases he
  · intro pid hpid
    exact .inr (.inl (List.mem_append_right _ (List.mem_map_of_mem hpid)))
  · split
    · exact lawful_nil _
    · apply lawful_kill
      intro pid hpid
      obtain rfl := List.mem_singleton.mp hpid
      exact .inl (hdisplay _ rfl)

/-- What was signalled in a start or shutdown had a reason. -/
def Warranted (earlier : List (List ProcEvent)) (turn : List ProcEvent) : Prop :=
  Lawful remember (Justified earlier.flatten) [] turn

namespace DaemonState

theorem mem_flatten_next {journal : List (List ProcEvent)} {turn : List ProcEvent} {e : ProcEvent}
    (h : e ∈ journal.flatten ∨ e ∈ turn) : e ∈ (journal ++ [turn]).flatten := by
  rw [List.flatten_append, List.flatten_singleton]
  exact List.mem_append.mpr h

structure Sound (d : DaemonState) : Prop where
  display : ∀ pid, d.displayPid = some pid → .portal pid ∈ d.journal.flatten
  warranted : Lawful remember Warranted [] d.journal

theorem Sound.fresh : Sound fresh := ⟨by simp [DaemonState.fresh], lawful_nil []⟩

theorem Sound.step {d d' : DaemonState} {act : DaemonAct} (hd : d.Sound)
    (h : d.step act = some d') : d'.Sound := by
  cases act with
  | start portal =>
      obtain rfl := Option.some.inj h
      refine ⟨fun pid hpid ↦ ?_, lawful_next hd.warranted (lawful_unsignalled (by simp))⟩
      obtain rfl : portal = some pid := hpid
      simp
  | swap existing calls =>
      obtain rfl := Option.some.inj h
      refine ⟨fun pid hpid ↦ mem_flatten_next (.inl (hd.display pid hpid)), ?_⟩
      exact lawful_next hd.warranted (lawful_swap d.files existing calls)
  | cleanup calls =>
      obtain rfl := Option.some.inj h
      exact ⟨fun pid hpid ↦ (by cases hpid),
        lawful_next hd.warranted (lawful_cleanup hd.display calls)⟩

/-! ## Where the numbers of the files come from -/

def Transfers (ok : Transfer → Prop) (_ : DaemonState) : DaemonAct → Prop
  | .swap _ calls => ok calls.wrapperRead ∧ ok calls.renderersRead ∧ ok calls.wrapperWrite ∧
      ok calls.renderersWrite
  | _ => True

/-- Nothing is read or written in part. -/
def Uncut : DaemonState → DaemonAct → Prop := Transfers fun t ↦ ∀ n, t ≠ .cut n

/-- The files can be read and written. -/
def Served : DaemonState → DaemonAct → Prop := Transfers (· = .whole)

theorem Uncut.of_served {d : DaemonState} {act : DaemonAct} (h : Served d act) : Uncut d act := by
  cases act with
  | swap existing calls =>
      obtain ⟨h1, h2, h3, h4⟩ := h
      refine ⟨?_, ?_, ?_, ?_⟩ <;> simp [*]
  | _ => trivial

/-- The numbers that a start looks at are those of earlier starts. -/
def LooksTracked (earlier : List (List ProcEvent)) (turn : List ProcEvent) : Prop :=
  ∀ pid, (.seen pid wrapperExe ∈ turn → .forked pid ∈ earlier.flatten) ∧
    (.seen pid rendererExe ∈ turn → .discovered pid ∈ earlier.flatten)

structure Tracked (d : DaemonState) : Prop where
  pos : ∀ pid ∈ readTrackedRendererPids d.files.renderers, 0 < pid.toInt
  renderers : ∀ pid ∈ readTrackedRendererPids d.files.renderers,
    .discovered pid ∈ d.journal.flatten
  wrapper : ∀ pid, readTrackedWrapperPid d.files.wrapper = some pid →
    .forked pid ∈ d.journal.flatten
  looks : Lawful remember LooksTracked [] d.journal

theorem Tracked.fresh : Tracked fresh where
  pos := by simp [DaemonState.fresh, readTrackedRendererPids]
  renderers := by simp [DaemonState.fresh, readTrackedRendererPids]
  wrapper := by simp [DaemonState.fresh, readTrackedWrapperPid]
  looks := lawful_nil []

theorem read_uncut {t : Transfer} (ht : ∀ n, t ≠ .cut n) (file : Option Bytes) :
    t.read file = none ∨ t.read file = file := by
  cases t with
  | refused => exact .inl rfl
  | whole => exact .inr rfl
  | cut n => exact absurd rfl (ht n)

theorem write_uncut {t : Transfer} (ht : ∀ n, t ≠ .cut n) (file : Option Bytes) (text : Bytes) :
    t.write file text = file ∨ t.write file text = some text := by
  cases t with
  | refused => exact .inl rfl
  | whole => exact .inr rfl
  | cut n => exact absurd rfl (ht n)

theorem mem_of_trackedRenderers {files : TrackedFiles} {calls : SpawnCalls}
    (hread : ∀ n, calls.renderersRead ≠ .cut n) {pid : Int32}
    (h : pid ∈ trackedRenderers files calls) :
    pid ∈ readTrackedRendererPids files.renderers := by
  rw [trackedRenderers] at h
  rcases read_uncut hread files.renderers with heq | heq
  · rw [heq] at h
    cases h
  · rwa [heq] at h

theorem eq_of_trackedWrapper {files : TrackedFiles} {calls : SpawnCalls}
    (hread : ∀ n, calls.wrapperRead ≠ .cut n) {pid : Int32}
    (h : trackedWrapper files calls = some pid) :
    readTrackedWrapperPid files.wrapper = some pid := by
  rw [trackedWrapper] at h
  rcases read_uncut hread files.wrapper with heq | heq
  · rw [heq] at h
    cases h
  · rwa [heq] at h

/-- The table after a start of the renderer. -/
theorem read_tracked {d : DaemonState} (hd : d.Tracked) {calls : SpawnCalls}
    (hread : ∀ n, calls.renderersRead ≠ .cut n) :
    readTrackedRendererPids (some (trackedRenderersText
      (trackNewRenderer (endOldRenderers d.files calls).1 calls).1)) =
      (trackNewRenderer (endOldRenderers d.files calls).1 calls).1 := by
  apply readTrackedRendererPids_text
  · intro pid hpid
    rcases mem_trackNewRenderer hpid with hmem | ⟨hpos, -⟩
    · exact hd.pos pid (mem_of_trackedRenderers hread (mem_endOldRenderers hmem))
    · exact hpos
  · exact length_trackNewRenderer_le (length_endOldRenderers_le _ _) calls

theorem seen_lookAt {exe exe' : Bytes} {comm : Int32 → Option Bytes} {pid pid' : Int32}
    (h : ProcEvent.seen pid exe = lookAt exe' comm pid') : pid = pid' ∧ exe = exe' := by
  unfold lookAt at h
  split at h
  · exact ProcEvent.seen.inj h
  · cases h

theorem wrapperExe_ne_rendererExe : wrapperExe ≠ rendererExe := by decide +kernel

theorem not_seen_signalEvents {pid : Int32} {exe : Bytes} {signals : List (Int32 × Signal)} :
    ProcEvent.seen pid exe ∉ signalEvents signals := by
  intro h
  obtain ⟨p, -, he⟩ := List.mem_map.mp h
  cases he

/-- The looks of a start are at the numbers of the files. -/
theorem seen_spawn {files : TrackedFiles} {calls : SpawnCalls} {pid : Int32} {exe : Bytes}
    (h : .seen pid exe ∈ (wpRendererSpawn files calls).2) :
    (exe = wrapperExe ∧ trackedWrapper files calls = some pid) ∨
      (exe = rendererExe ∧ pid ∈ trackedRenderers files calls) := by
  have hwrapper : .seen pid exe ∈ wrapperLook files calls →
      exe = wrapperExe ∧ trackedWrapper files calls = some pid := by
    intro hlook
    obtain ⟨old, hold, heq⟩ := Option.map_eq_some_iff.mp (Option.mem_toList.mp hlook)
    obtain ⟨rfl, rfl⟩ := seen_lookAt heq.symm
    exact ⟨rfl, hold⟩
  have hlooks : .seen pid exe ∈
      (trackedRenderers files calls).map (lookAt rendererExe calls.rendererComm) →
      exe = rendererExe ∧ pid ∈ trackedRenderers files calls := by
    intro hlook
    obtain ⟨old, hold, heq⟩ := List.mem_map.mp hlook
    obtain ⟨rfl, rfl⟩ := seen_lookAt heq.symm
    exact ⟨rfl, hold⟩
  rw [wpRendererSpawn] at h
  split at h
  · exact .inl (hwrapper h)
  · simp only at h
    rcases List.mem_append.mp h with h | h
    · rcases List.mem_append.mp h with h | h
      · rcases List.mem_append.mp h with h | h
        · exact .inl (hwrapper h)
        · rcases List.mem_cons.mp h with h | h
          · cases h
          · rw [endOldWrapper] at h
            split at h
            · cases h
            · split at h
              · exact absurd h not_seen_signalEvents
              · cases h
      · simp only [endOldRenderers] at h
        split at h
        · rcases List.mem_append.mp h with h | h
          · exact .inr (hlooks h)
          · exact absurd h not_seen_signalEvents
        · exact .inr (hlooks h)
    · rw [trackNewRenderer] at h
      split at h
      · cases h
      · split at h <;> simp at h

theorem not_seen_cleanup {displayPid : Option Int32} {calls : CleanupCalls} {pid : Int32}
    {exe : Bytes} : ProcEvent.seen pid exe ∉ wpCleanup displayPid calls := by
  unfold wpCleanup
  intro h
  rcases List.mem_append.mp h with h | h
  · rcases List.mem_append.mp h with h | h
    · obtain ⟨_, -, he⟩ := List.mem_map.mp h
      cases he
    · exact not_seen_signalEvents h
  · split at h
    · cases h
    · exact not_seen_signalEvents h

/-- A start or shutdown that keeps the files. -/
theorem Tracked.append {d : DaemonState} (hd : d.Tracked) {turn : List ProcEvent}
    (hlooks : LooksTracked d.journal turn) (displayPid : Option Int32) :
    Tracked { d with displayPid, journal := d.journal ++ [turn] } where
  pos := hd.pos
  renderers pid hpid := mem_flatten_next (.inl (hd.renderers pid hpid))
  wrapper pid hpid := mem_flatten_next (.inl (hd.wrapper pid hpid))
  looks := lawful_next hd.looks hlooks

theorem Tracked.looks_spawn {d : DaemonState} (hd : d.Tracked) {calls : SpawnCalls}
    (hwrapperRead : ∀ n, calls.wrapperRead ≠ .cut n)
    (hrenderersRead : ∀ n, calls.renderersRead ≠ .cut n) :
    LooksTracked d.journal (wpRendererSpawn d.files calls).2 := by
  intro pid
  constructor
  · intro hseen
    rcases seen_spawn hseen with ⟨-, htracked⟩ | ⟨hexe, -⟩
    · exact hd.wrapper pid (eq_of_trackedWrapper hwrapperRead htracked)
    · exact absurd hexe wrapperExe_ne_rendererExe
  · intro hseen
    rcases seen_spawn hseen with ⟨hexe, -⟩ | ⟨-, htracked⟩
    · exact absurd hexe.symm wrapperExe_ne_rendererExe
    · exact hd.renderers pid (mem_of_trackedRenderers hrenderersRead htracked)

theorem Tracked.spawn {d : DaemonState} (hd : d.Tracked) {calls : SpawnCalls}
    (hwrapperRead : ∀ n, calls.wrapperRead ≠ .cut n)
    (hrenderersRead : ∀ n, calls.renderersRead ≠ .cut n)
    (hwrapperWrite : ∀ n, calls.wrapperWrite ≠ .cut n)
    (hrenderersWrite : ∀ n, calls.renderersWrite ≠ .cut n) {pid : Int32}
    (hstarted : calls.started = some pid) :
    Tracked { d with
      files := (wpRendererSpawn d.files calls).1
      journal := d.journal ++ [(wpRendererSpawn d.files calls).2] } := by
  have hlooks := hd.looks_spawn hwrapperRead hrenderersRead
  have hspawn : wpRendererSpawn d.files calls =
      ({ wrapper := calls.wrapperWrite.write d.files.wrapper (trackedWrapperText pid)
         renderers := calls.renderersWrite.write d.files.renderers (trackedRenderersText
          (trackNewRenderer (endOldRenderers d.files calls).1 calls).1) },
        (wrapperLook d.files calls ++ .forked pid :: endOldWrapper d.files calls) ++
          (endOldRenderers d.files calls).2 ++
          (trackNewRenderer (endOldRenderers d.files calls).1 calls).2) := by
    rw [wpRendererSpawn, hstarted]
  rw [hspawn] at hlooks ⊢
  have htext := write_uncut hrenderersWrite d.files.renderers (trackedRenderersText
    (trackNewRenderer (endOldRenderers d.files calls).1 calls).1)
  refine ⟨?pos, ?renderers, ?wrapper, lawful_next hd.looks hlooks⟩
  case pos =>
    rcases htext with heq | heq
    · simp only [heq]
      exact hd.pos
    · simp only [heq, read_tracked hd hrenderersRead]
      intro pid' hpid'
      rcases mem_trackNewRenderer hpid' with hmem | ⟨hpos, -⟩
      · exact hd.pos pid' (mem_of_trackedRenderers hrenderersRead (mem_endOldRenderers hmem))
      · exact hpos
  case renderers =>
    intro pid' hpid'
    apply mem_flatten_next
    rcases htext with heq | heq
    · simp only [heq] at hpid'
      exact .inl (hd.renderers pid' hpid')
    · simp only [heq, read_tracked hd hrenderersRead] at hpid'
      rcases mem_trackNewRenderer hpid' with hmem | ⟨-, hfound⟩
      · exact .inl (hd.renderers pid'
          (mem_of_trackedRenderers hrenderersRead (mem_endOldRenderers hmem)))
      · exact .inr (List.mem_append_right _ hfound)
  case wrapper =>
    intro pid' hpid'
    apply mem_flatten_next
    rcases write_uncut hwrapperWrite d.files.wrapper (trackedWrapperText pid) with heq | heq
    · simp only [heq] at hpid'
      exact .inl (hd.wrapper pid' hpid')
    · simp only [heq, readTrackedWrapperPid_text (calls.started_pos pid hstarted)] at hpid'
      obtain rfl := Option.some.inj hpid'
      exact .inr (List.mem_append_left _ (List.mem_append_left _
        (List.mem_append_right _ List.mem_cons_self)))

theorem Tracked.swap {d : DaemonState} (hd : d.Tracked) (existing : ProcScan)
    {calls : SpawnCalls} (huncut : d.Uncut (.swap existing calls)) :
    Tracked { d with
      files := (wpRendererSwap d.files existing calls).1
      journal := d.journal ++ [(wpRendererSwap d.files existing calls).2] } := by
  obtain ⟨hwrapperRead, hrenderersRead, hwrapperWrite, hrenderersWrite⟩ := huncut
  rw [wpRendererSwap]
  split
  · cases hstarted : calls.started with
    | none =>
        have hlooks := hd.looks_spawn hwrapperRead hrenderersRead
        rw [wpRendererSpawn, hstarted] at hlooks ⊢
        exact hd.append hlooks d.displayPid
    | some pid =>
        exact hd.spawn hwrapperRead hrenderersRead hwrapperWrite hrenderersWrite hstarted
  · exact hd.append (fun pid ↦ ⟨fun h ↦ (by cases h), fun h ↦ (by cases h)⟩) d.displayPid

theorem Tracked.step {d d' : DaemonState} {act : DaemonAct} (hd : d.Tracked)
    (huncut : d.Uncut act) (h : d.step act = some d') : d'.Tracked := by
  cases act with
  | start portal =>
      obtain rfl := Option.some.inj h
      exact hd.append (fun pid ↦ ⟨fun h ↦ by simp at h, fun h ↦ by simp at h⟩) portal
  | swap existing calls =>
      obtain rfl := Option.some.inj h
      exact hd.swap existing huncut
  | cleanup calls =>
      obtain rfl := Option.some.inj h
      exact hd.append
        (fun pid ↦ ⟨fun h ↦ absurd h not_seen_cleanup, fun h ↦ absurd h not_seen_cleanup⟩) none

/-! ## Nothing that was started is forgotten -/

/-- The renderer needs no tracking any more. -/
def RendererDone (pid : Int32) (e : ProcEvent) : Prop :=
  e = .signalled pid .term ∨ e = .gone pid ∨ e = .crowded pid

def WrapperDone (pid : Int32) (e : ProcEvent) : Prop := e = .signalled pid .term ∨ e = .gone pid

structure Kept (d : DaemonState) : Prop where
  renderers : Settled (fun pid e ↦ e = .discovered pid) RendererDone
    (· ∈ readTrackedRendererPids d.files.renderers) d.journal.flatten
  wrappers : Settled (fun pid e ↦ e = .forked pid) WrapperDone
    (readTrackedWrapperPid d.files.wrapper = some ·) d.journal.flatten

theorem not_new_signalEvents {signals : List (Int32 × Signal)} :
    ∀ e ∈ signalEvents signals, e.isNew = false := by
  intro e he
  obtain ⟨p, -, rfl⟩ := List.mem_map.mp he
  rfl

theorem not_new_lookAt (exe : Bytes) (comm : Int32 → Option Bytes) (pid : Int32) :
    (lookAt exe comm pid).isNew = false := by
  unfold lookAt
  split <;> rfl

theorem not_new_wrapperLook {files : TrackedFiles} {calls : SpawnCalls} :
    ∀ e ∈ wrapperLook files calls, e.isNew = false := by
  intro e he
  obtain ⟨old, -, rfl⟩ := Option.map_eq_some_iff.mp (Option.mem_toList.mp he)
  exact not_new_lookAt _ _ _

theorem not_new_endOldWrapper {files : TrackedFiles} {calls : SpawnCalls} :
    ∀ e ∈ endOldWrapper files calls, e.isNew = false := by
  rw [endOldWrapper]
  split
  · simp
  · split
    · exact not_new_signalEvents
    · simp

theorem not_new_endOldRenderers {files : TrackedFiles} {calls : SpawnCalls} :
    ∀ e ∈ (endOldRenderers files calls).2, e.isNew = false := by
  have hlooks : ∀ pids : List Int32, ∀ e ∈ pids.map (lookAt rendererExe calls.rendererComm),
      e.isNew = false := by
    intro pids e he
    obtain ⟨pid, -, rfl⟩ := List.mem_map.mp he
    exact not_new_lookAt _ _ _
  simp only [endOldRenderers]
  split
  · exact List.forall_mem_append.mpr ⟨hlooks _, not_new_signalEvents⟩
  · exact hlooks _

theorem not_new_cleanup {displayPid : Option Int32} {calls : CleanupCalls} :
    ∀ e ∈ wpCleanup displayPid calls, e.isNew = false := by
  have hnamed : ∀ pids : List Int32, ∀ e ∈ pids.map ProcEvent.named, e.isNew = false := by
    simp [ProcEvent.isNew]
  unfold wpCleanup
  refine List.forall_mem_append.mpr ⟨List.forall_mem_append.mpr
    ⟨hnamed _, not_new_signalEvents⟩, ?_⟩
  split
  · simp
  · exact not_new_signalEvents

theorem settled_of_not_new {κ : Type} {opens closes : κ → ProcEvent → Prop}
    (hopens : ∀ k e, opens k e → e.isNew = true) {held : κ → Prop} {events : List ProcEvent}
    (h : ∀ e ∈ events, e.isNew = false) : Settled opens closes held events :=
  settled_of_no_opens fun e he k hk ↦ absurd (hopens k e hk) (by simp [h e he])

theorem settled_discovered (pending : List Int32) (calls : SpawnCalls) :
    Settled (fun pid e ↦ e = .discovered pid) RendererDone
      (· ∈ (trackNewRenderer pending calls).1) (trackNewRenderer pending calls).2 := by
  rw [trackNewRenderer]
  split
  · exact settled_of_no_opens (by simp)
  · rename_i pid _
    split
    · intro before e after k hsplit hopens
      have hmem : ProcEvent.discovered k ∈ before ++ e :: after := by simp [hopens]
      rw [← hsplit] at hmem
      obtain rfl : k = pid := by simpa using hmem
      exact .inl (List.mem_append_right _ (List.mem_singleton_self _))
    · intro before e after k hsplit hopens
      obtain rfl := hopens
      cases before with
      | nil =>
          obtain ⟨hk, rfl⟩ := List.cons.inj hsplit
          obtain rfl := ProcEvent.discovered.inj hk
          exact .inr ⟨_, List.mem_singleton_self _, .inr (.inr rfl)⟩
      | cons e' before =>
          have hmem : ProcEvent.discovered k ∈ [ProcEvent.crowded pid] := by
            rw [(List.cons.inj hsplit).2]
            simp
          simp at hmem

theorem not_forked_trackNewRenderer {pending : List Int32} {calls : SpawnCalls} {pid : Int32} :
    .forked pid ∉ (trackNewRenderer pending calls).2 := by
  rw [trackNewRenderer]
  split
  · simp
  · split <;> simp

theorem isNew_of_discovered (pid : Int32) (e : ProcEvent) (h : e = .discovered pid) :
    e.isNew = true := h ▸ rfl

theorem isNew_of_forked (pid : Int32) (e : ProcEvent) (h : e = .forked pid) :
    e.isNew = true := h ▸ rfl

/-- A start or shutdown that begins nothing and keeps the files. -/
theorem Kept.append {d : DaemonState} (hk : d.Kept) {turn : List ProcEvent}
    (hturn : ∀ e ∈ turn, e.isNew = false) (displayPid : Option Int32) :
    Kept { d with displayPid, journal := d.journal ++ [turn] } := by
  constructor
  all_goals rw [List.flatten_append, List.flatten_singleton]
  · exact hk.renderers.append (fun k hheld ↦ .inl hheld)
      (settled_of_not_new isNew_of_discovered hturn)
  · exact hk.wrappers.append (fun k hheld ↦ .inl hheld)
      (settled_of_not_new isNew_of_forked hturn)

theorem Kept.spawn {d : DaemonState} (hd : d.Tracked) (hk : d.Kept) {calls : SpawnCalls}
    (hwrapperRead : calls.wrapperRead = .whole) (hrenderersRead : calls.renderersRead = .whole)
    (hwrapperWrite : calls.wrapperWrite = .whole) (hrenderersWrite : calls.renderersWrite = .whole)
    {pid : Int32} (hstarted : calls.started = some pid) :
    Kept { d with
      files := (wpRendererSpawn d.files calls).1
      journal := d.journal ++ [(wpRendererSpawn d.files calls).2] } := by
  have hread : ∀ n, calls.renderersRead ≠ .cut n := by simp [hrenderersRead]
  have htrackedRenderers : trackedRenderers d.files calls =
      readTrackedRendererPids d.files.renderers := by
    rw [trackedRenderers, hrenderersRead]
    rfl
  have htrackedWrapper : trackedWrapper d.files calls =
      readTrackedWrapperPid d.files.wrapper := by
    rw [trackedWrapper, hwrapperRead]
    rfl
  have hlook : ∀ e ∈ wrapperLook d.files calls, ∀ k, e ≠ .discovered k ∧ e ≠ .forked k := by
    intro e he k
    have hnew := not_new_wrapperLook e he
    constructor <;> rintro rfl <;> cases hnew
  have hend : ∀ e ∈ endOldWrapper d.files calls, ∀ k, e ≠ .discovered k ∧ e ≠ .forked k := by
    intro e he k
    have hnew := not_new_endOldWrapper e he
    constructor <;> rintro rfl <;> cases hnew
  rw [wpRendererSpawn, hstarted]
  simp only [hwrapperWrite, hrenderersWrite, Transfer.write]
  constructor
  · simp only [read_tracked hd hread, List.flatten_append, List.flatten_singleton]
    apply hk.renderers.append
    · intro k hheld
      rcases kept_endOldRenderers calls (htrackedRenderers.symm ▸ hheld) with
        hmem | hgone | hsignalled
      · exact .inl (mem_trackNewRenderer_of_mem hmem)
      · exact .inr ⟨_, List.mem_append_left _ (List.mem_append_right _ hgone), .inr (.inl rfl)⟩
      · exact .inr ⟨_, List.mem_append_left _ (List.mem_append_right _ hsignalled), .inl rfl⟩
    · have hbefore : Settled (fun pid e ↦ e = .discovered pid) RendererDone (fun _ ↦ False)
          ((wrapperLook d.files calls ++ .forked pid :: endOldWrapper d.files calls) ++
            (endOldRenderers d.files calls).2) := ?_
      · exact hbefore.append (fun k hheld ↦ hheld.elim) (settled_discovered _ _)
      apply settled_of_no_opens
      rintro e he k rfl
      rcases List.mem_append.mp he with he | he
      · rcases List.mem_append.mp he with he | he
        · exact (hlook _ he k).1 rfl
        · rcases List.mem_cons.mp he with he | he
          · cases he
          · exact (hend _ he k).1 rfl
      · cases not_new_endOldRenderers _ he
  · simp only [readTrackedWrapperPid_text (calls.started_pos pid hstarted), List.flatten_append,
      List.flatten_singleton]
    apply hk.wrappers.append
    · intro k hheld
      rcases kept_endOldWrapper calls (htrackedWrapper.symm ▸ hheld) with hgone | hsignalled
      · exact .inr ⟨_, List.mem_append_left _ (List.mem_append_left _
          (List.mem_append_left _ hgone)), .inr rfl⟩
      · exact .inr ⟨_, List.mem_append_left _ (List.mem_append_left _
          (List.mem_append_right _ (List.mem_cons_of_mem _ hsignalled))), .inl rfl⟩
    · intro before e after k hsplit hopens
      obtain rfl := hopens
      have hmem : ProcEvent.forked k ∈ (wrapperLook d.files calls ++
          .forked pid :: endOldWrapper d.files calls) ++ (endOldRenderers d.files calls).2 ++
            (trackNewRenderer (endOldRenderers d.files calls).1 calls).2 := by
        rw [hsplit]
        simp
      rcases List.mem_append.mp hmem with hmem | hmem
      · rcases List.mem_append.mp hmem with hmem | hmem
        · rcases List.mem_append.mp hmem with hmem | hmem
          · exact absurd rfl (hlook _ hmem k).2
          · rcases List.mem_cons.mp hmem with hmem | hmem
            · exact .inl (congrArg some (ProcEvent.forked.inj hmem).symm)
            · exact absurd rfl (hend _ hmem k).2
        · cases not_new_endOldRenderers _ hmem
      · exact absurd hmem not_forked_trackNewRenderer

theorem Kept.swap {d : DaemonState} (hd : d.Tracked) (hk : d.Kept) (existing : ProcScan)
    {calls : SpawnCalls} (hserved : d.Served (.swap existing calls)) :
    Kept { d with
      files := (wpRendererSwap d.files existing calls).1
      journal := d.journal ++ [(wpRendererSwap d.files existing calls).2] } := by
  rw [wpRendererSwap]
  split
  · cases hstarted : calls.started with
    | none =>
        rw [wpRendererSpawn, hstarted]
        exact hk.append not_new_wrapperLook d.displayPid
    | some pid =>
        obtain ⟨hwrapperRead, hrenderersRead, hwrapperWrite, hrenderersWrite⟩ := hserved
        exact hk.spawn hd hwrapperRead hrenderersRead hwrapperWrite hrenderersWrite hstarted
  · exact hk.append (by simp) d.displayPid

theorem Kept.step {d d' : DaemonState} {act : DaemonAct} (hd : d.Tracked) (hk : d.Kept)
    (hserved : d.Served act) (h : d.step act = some d') : d'.Kept := by
  cases act with
  | start portal =>
      obtain rfl := Option.some.inj h
      exact hk.append (by simp [ProcEvent.isNew]) portal
  | swap existing calls =>
      obtain rfl := Option.some.inj h
      exact hk.swap hd existing hserved
  | cleanup calls =>
      obtain rfl := Option.some.inj h
      exact hk.append not_new_cleanup none

end DaemonState

/-- Over any number of daemons, one after the other, whatever processes come
and go between their looks: a number is signalled only if it is a portal's that
a daemon started, or was found under one of the names in this start or shutdown,
and killed only after it was asked to end in it.  As long as no file is cut, the
numbers that a start looks at are those that earlier starts forked or found; as
long as the files can be read and written, every renderer that was found stays
in the table, and every wrapper in its file, until it is asked to end, is seen
to be gone, or is found when the table is full. -/
theorem renderers_accounted_for {acts : List DaemonAct} {d : DaemonState}
    (h : exec DaemonState.step .fresh acts = some d) :
    (∀ earlier turn later, d.journal = earlier ++ turn :: later →
      ∀ before pid signal after, turn = before ++ .signalled pid signal :: after →
        (.portal pid ∈ earlier.flatten ∨ .named pid ∈ before ∨ .seen pid wrapperExe ∈ before ∨
          .seen pid rendererExe ∈ before) ∧
        (signal = .kill → .signalled pid .term ∈ before)) ∧
    (Guarded DaemonState.step DaemonState.Uncut .fresh acts →
      ∀ earlier turn later, d.journal = earlier ++ turn :: later → ∀ pid,
        (.seen pid wrapperExe ∈ turn → .forked pid ∈ earlier.flatten) ∧
        (.seen pid rendererExe ∈ turn → .discovered pid ∈ earlier.flatten)) ∧
    (Guarded DaemonState.step DaemonState.Served .fresh acts →
      (∀ before pid after, d.journal.flatten = before ++ .discovered pid :: after →
        pid ∈ readTrackedRendererPids d.files.renderers ∨
          .signalled pid .term ∈ after ∨ .gone pid ∈ after ∨ .crowded pid ∈ after) ∧
      (∀ before pid after, d.journal.flatten = before ++ .forked pid :: after →
        readTrackedWrapperPid d.files.wrapper = some pid ∨
          .signalled pid .term ∈ after ∨ .gone pid ∈ after)) := by
  have hd : d.Sound := exec_invariant (fun s l t hs ht ↦ hs.step ht) .fresh h
  refine ⟨?_, fun huncut ↦ ?_, fun hserved ↦ ?_⟩
  · intro earlier turn later hsplit before pid signal after hturn
    have hwarranted := hd.warranted earlier turn later hsplit
    rw [remembered, List.nil_append] at hwarranted
    have hjustified := hwarranted before _ after hturn
    rw [remembered, List.nil_append] at hjustified
    exact hjustified
  · have ht : d.Tracked :=
      exec_invariant_guarded (fun s l t hs hg ht ↦ hs.step hg ht) .fresh huncut h
    intro earlier turn later hsplit
    have hlooks := ht.looks earlier turn later hsplit
    rw [remembered, List.nil_append] at hlooks
    exact hlooks
  · have hk : d.Tracked ∧ d.Kept := by
      refine exec_invariant_guarded (I := fun d ↦ d.Tracked ∧ d.Kept) ?_ ⟨.fresh, ?_⟩ hserved h
      · exact fun s l t hs hg ht ↦
          ⟨hs.1.step (DaemonState.Uncut.of_served hg) ht, hs.2.step hs.1 hg ht⟩
      · exact ⟨settled_of_no_opens (by simp [DaemonState.fresh]),
          settled_of_no_opens (by simp [DaemonState.fresh])⟩
    constructor
    · intro before pid after hsplit
      rcases hk.2.renderers before _ after pid hsplit rfl with hheld | ⟨e, he, hdone⟩
      · exact .inl hheld
      · rcases hdone with rfl | rfl | rfl
        · exact .inr (.inl he)
        · exact .inr (.inr (.inl he))
        · exact .inr (.inr (.inr he))
    · intro before pid after hsplit
      rcases hk.2.wrappers before _ after pid hsplit rfl with hheld | ⟨e, he, hdone⟩
      · exact .inl hheld
      · rcases hdone with rfl | rfl
        · exact .inr (.inl he)
        · exact .inr (.inr he)

def noProcesses : ProcScan := ⟨[], fun _ ↦ none, fun _ ↦ none, by simp⟩

/-- Process 700 is a renderer. -/
def oneRenderer : ProcScan where
  names := [bytesOf "700", bytesOf "self"]
  comm pid := if pid = 700 then some (bytesOf "wallpaper64.exe\n") else none
  cmdline _ := none
  names_small := by decide +kernel

/-- The first start, whose renderer comes to light at the second scan. -/
def firstStart : SpawnCalls where
  wrapperRead := .whole
  wrapperComm _ := none
  renderersRead := .whole
  before := noProcesses
  started := some 600
  started_pos := by simp
  wrapperWrite := .whole
  wrapperAlive _ _ := false
  rendererComm _ := none
  pickers := noProcesses
  rendererAlive _ _ := false
  attempts := [noProcesses, oneRenderer]
  renderersWrite := .whole

/-- That renderer ends when it is asked to; its wrapper is gone. -/
def secondStart : SpawnCalls where
  wrapperRead := .whole
  wrapperComm _ := none
  renderersRead := .whole
  before := noProcesses
  started := some 601
  started_pos := by simp
  wrapperWrite := .whole
  wrapperAlive _ _ := false
  rendererComm := oneRenderer.comm
  pickers := noProcesses
  rendererAlive _ _ := false
  attempts := []
  renderersWrite := .whole

theorem renderers_accounted_for_twoStarts : ∃ d,
    exec DaemonState.step .fresh [.start (some 40), .swap noProcesses firstStart, .start none,
      .swap noProcesses secondStart] = some d ∧
    d.journal = [[.portal 40], [.forked 600, .discovered 700], [],
      [.gone 600, .forked 601, .seen 700 rendererExe, .signalled 700 .term]] ∧
    .discovered 700 ∈ [ProcEvent.portal 40, .forked 600, .discovered 700] ∧
    (700 ∈ readTrackedRendererPids d.files.renderers ∨
      .signalled 700 .term ∈ [ProcEvent.gone 600, .forked 601, .seen 700 rendererExe,
        .signalled 700 .term] ∨
      .gone 700 ∈ [ProcEvent.gone 600, .forked 601, .seen 700 rendererExe,
        .signalled 700 .term] ∨
      .crowded 700 ∈ [ProcEvent.gone 600, .forked 601, .seen 700 rendererExe,
        .signalled 700 .term]) := by
  have hrun : ∃ d, exec DaemonState.step .fresh [.start (some 40), .swap noProcesses firstStart,
      .start none, .swap noProcesses secondStart] = some d := ⟨_, rfl⟩
  obtain ⟨d, hd⟩ := hrun
  have hjournal : (exec DaemonState.step .fresh [.start (some 40), .swap noProcesses firstStart,
      .start none, .swap noProcesses secondStart]).map (·.journal) =
        some [[.portal 40], [.forked 600, .discovered 700], [],
          [.gone 600, .forked 601, .seen 700 rendererExe, .signalled 700 .term]] := by
    decide +kernel
  rw [hd, Option.map_some, Option.some.injEq] at hjournal
  have hserved : Guarded DaemonState.step DaemonState.Served .fresh [.start (some 40),
      .swap noProcesses firstStart, .start none, .swap noProcesses secondStart] :=
    fun _ _ ↦ ⟨trivial, fun _ _ ↦ ⟨⟨rfl, rfl, rfl, rfl⟩, fun _ _ ↦ ⟨trivial,
      fun _ _ ↦ ⟨⟨rfl, rfl, rfl, rfl⟩, trivial⟩⟩⟩⟩
  have huncut : Guarded DaemonState.step DaemonState.Uncut .fresh [.start (some 40),
      .swap noProcesses firstStart, .start none, .swap noProcesses secondStart] :=
    fun _ _ ↦ ⟨trivial, fun _ _ ↦ ⟨DaemonState.Uncut.of_served ⟨rfl, rfl, rfl, rfl⟩,
      fun _ _ ↦ ⟨trivial, fun _ _ ↦ ⟨DaemonState.Uncut.of_served ⟨rfl, rfl, rfl, rfl⟩,
        trivial⟩⟩⟩⟩
  obtain ⟨-, hlooks, hkept⟩ := renderers_accounted_for hd
  obtain ⟨-, hdiscovered⟩ := hlooks huncut
    [[.portal 40], [.forked 600, .discovered 700], []] _ [] hjournal 700
  have hflatten : d.journal.flatten = [.portal 40, .forked 600] ++ .discovered 700 ::
      [.gone 600, .forked 601, .seen 700 rendererExe, .signalled 700 .term] := by
    rw [hjournal]
    rfl
  exact ⟨d, hd, hjournal, hdiscovered (by simp), (hkept hserved).1 _ _ _ hflatten⟩

end Wallpiper.Daemon
