import Wallpiper.Foundations.Runs
import Wallpiper.Tray.DbusIds

/-!
# Refreshing the menu

Threads share the tray state under one mutex and one condition variable.  A
refresh asks the loader for a dump, waits until the generation moves and then
until it has been quiet for a while; a thread that finds a refresh in progress
waits for its end instead.  One label is one critical section, and it carries
what the clock and the condition variable decided.
-/

namespace Wallpiper.Tray

open Foundations

/-- What a thread needs the menu for. -/
inductive RefreshTask where
  | aboutToShow
  | aboutToShowGroup
  | iconChanged
  | prewarm
  | getLayout (parentId recursionDepth : ℤ)
  | getGroupProperties
  deriving DecidableEq, Repr

/-- Tasks that call `ensure_menu_populated` and then read the entries. -/
def RefreshTask.ensuresPopulated : RefreshTask → Bool
  | .getLayout _ _ => true
  | .getGroupProperties => true
  | _ => false

inductive RefreshPc where
  | idle
  /-- in `ensure_menu_populated` -/
  | checking
  /-- about to call `refresh_menu_from_win32` -/
  | calling
  | called
  | piggybacking
  /-- writing a click, with the mutex released -/
  | clicking (startGeneration : UInt64)
  | timedWait (startGeneration : UInt64) (finalWait : Bool)
  | settling (settledGeneration : UInt64)
  | emitting (revision : UInt32)
  | returning (piggybacked result : Bool)
  | reading
  deriving DecidableEq, Repr

/-- The thread that set `refresh_in_progress` and has not cleared it. -/
def RefreshPc.owns : RefreshPc → Bool
  | .clicking _ => true
  | .timedWait _ _ => true
  | .settling _ => true
  | _ => false

/-- A thread; `calledAt` is the number of dumps published before its latest
call of `refresh_menu_from_win32`. -/
structure Caller where
  task : RefreshTask
  calledAt : ℕ
  pc : RefreshPc
  deriving DecidableEq, Repr

structure RefreshReturn where
  task : RefreshTask
  piggybacked : Bool
  result : Bool
  calledAt : ℕ
  returnedAt : ℕ
  deriving DecidableEq, Repr

/-- The copy that a GetLayout call replies from. -/
structure LayoutReply where
  entries : List TrayEntry
  revision : UInt32
  parentId : ℤ
  recursionDepth : ℤ
  deriving DecidableEq, Repr

def LayoutReply.message (r : LayoutReply) :
    Except (String × String) (UInt32 × LayoutNode × Forest LayoutNode) :=
  handleMenuGetLayout r.entries r.revision r.parentId r.recursionDepth

/-- The revision in a reply; an error reply carries none. -/
def LayoutReply.carried (r : LayoutReply) : Option UInt32 :=
  match r.message with
  | .ok (revision, _, _) => some revision
  | .error _ => none

/-- The shared state, the threads, and a record of what happened: the dumps
published, those published when the latest refresh started, whether a dump has
changed the entries since GetLayout told them under the current revision, the
results of `refresh_menu_from_win32`, the layouts replied and the revisions
signalled. -/
structure TrayService (n : ℕ) where
  tray : WpTrayState
  revision : UInt32
  refreshInProgress : Bool
  callers : Fin n → Caller
  publications : ℕ
  startedAt : ℕ
  changedSinceTold : Bool
  returns : List RefreshReturn
  replies : List LayoutReply
  signals : List UInt32

/-- The state after `wp_tray_spawn`. -/
def TrayService.initial (n : ℕ) : TrayService n :=
  { tray := .initial, revision := 0, refreshInProgress := false
    callers := fun _ ↦ ⟨.aboutToShow, 0, .idle⟩, publications := 0, startedAt := 0
    changedSinceTold := false, returns := [], replies := [], signals := [] }

namespace TrayService

variable {n : ℕ}

def setCaller (s : TrayService n) (t : Fin n) (c : Caller) : TrayService n :=
  { s with callers := Function.update s.callers t c }

def goto (s : TrayService n) (t : Fin n) (pc : RefreshPc) : TrayService n :=
  s.setCaller t { s.callers t with pc := pc }

/-- GetLayout has replied with the current revision. -/
def toldRevision (s : TrayService n) : Bool :=
  s.replies.any fun r ↦ r.carried == some s.revision

def publish (s : TrayService n) (dump : List TrayEntry) : TrayService n :=
  { s with
    tray := wpTrayStateOnMenuDumpChanged s.tray dump
    publications := s.publications + 1
    changedSinceTold := s.changedSinceTold ||
      s.toldRevision && (wpTrayStateOnMenuDumpChanged s.tray dump).entries != s.tray.entries }

def begin (s : TrayService n) (t : Fin n) (task : RefreshTask) : TrayService n :=
  s.setCaller t
    { s.callers t with
      task := task
      pc := if task.ensuresPopulated then .checking else .calling }

def call (s : TrayService n) (t : Fin n) : TrayService n :=
  s.setCaller t { s.callers t with calledAt := s.publications, pc := .called }

/-- Take the refresh; the first click follows. -/
def own (s : TrayService n) (t : Fin n) : TrayService n :=
  { s.goto t (.clicking s.tray.generation) with
    refreshInProgress := true, startedAt := s.publications }

/-- The end of the owner's critical section. -/
def finish (s : TrayService n) (t : Fin n) (timedOut : Bool) : TrayService n :=
  if timedOut then { s.goto t (.returning false false) with refreshInProgress := false }
  else
    { s.goto t (.emitting (s.revision + 1)) with
      revision := s.revision + 1, refreshInProgress := false, changedSinceTold := false }

/-- Emit the signal, unless the message could not be made. -/
def emitLayoutUpdated (s : TrayService n) (t : Fin n) (revision : UInt32) (made : Bool) :
    TrayService n :=
  { s.goto t (.returning false true) with
    signals := if made then s.signals ++ [revision] else s.signals }

/-- Where a thread goes once the menu is fetched. -/
def afterRefresh (s : TrayService n) (t : Fin n) : RefreshPc :=
  if (s.callers t).task.ensuresPopulated then .reading else .idle

def returnResult (s : TrayService n) (t : Fin n) (piggybacked result : Bool) : TrayService n :=
  { s.goto t (s.afterRefresh t) with
    returns := s.returns ++
      [⟨(s.callers t).task, piggybacked, result, (s.callers t).calledAt, s.publications⟩] }

/-- Copy the entries, and for GetLayout the revision; the reply is composed
from the copy after the mutex is released. -/
def read (s : TrayService n) (t : Fin n) : TrayService n :=
  match (s.callers t).task with
  | .getLayout parentId recursionDepth =>
      { s.goto t .idle with
        replies := s.replies ++ [⟨s.tray.entries, s.revision, parentId, recursionDepth⟩] }
  | _ => s.goto t .idle

end TrayService

/-- What a thread does next.  `timedOut` is a nonzero result of the wait that
ends, `finalWait` what the clock says before the next one. -/
inductive ThreadLabel where
  | begin (task : RefreshTask)
  | check
  | call
  | enter
  | relock (finalWait : Bool)
  | wake (timedOut finalWait : Bool)
  | emit (made : Bool)
  | returnResult
  | read
  deriving DecidableEq, Repr

inductive TrayLabel (n : ℕ) where
  | publish (dump : List TrayEntry)
  | thread (t : Fin n) (l : ThreadLabel)
  deriving DecidableEq, Repr

variable {n : ℕ}

def threadStep (s : TrayService n) (t : Fin n) : ThreadLabel → Option (TrayService n)
  | .begin task =>
      match (s.callers t).pc with
      | .idle => some (s.begin t task)
      | _ => none
  | .check =>
      match (s.callers t).pc with
      | .checking => some (s.goto t (if s.tray.entries = [] then .calling else s.afterRefresh t))
      | _ => none
  | .call =>
      match (s.callers t).pc with
      | .calling => some (s.call t)
      | _ => none
  | .enter =>
      match (s.callers t).pc with
      | .called => some (if s.refreshInProgress then s.goto t .piggybacking else s.own t)
      | _ => none
  | .relock finalWait =>
      match (s.callers t).pc with
      | .clicking start =>
          some (if s.tray.generation = start then s.goto t (.timedWait start finalWait)
            else s.goto t (.settling s.tray.generation))
      | _ => none
  | .wake timedOut finalWait =>
      match (s.callers t).pc with
      | .piggybacking =>
          some (if s.refreshInProgress then s
            else s.goto t (.returning true (decide (0 < s.tray.entries.length))))
      | .timedWait start wasFinal =>
          some (if s.tray.generation ≠ start then s.goto t (.settling s.tray.generation)
            else if wasFinal then s.finish t true
            else if timedOut then s.goto t (.clicking start)
            else s.goto t (.timedWait start finalWait))
      | .settling settled =>
          some (if s.tray.generation ≠ settled then s.goto t (.settling s.tray.generation)
            else if timedOut then s.finish t false
            else s)
      | _ => none
  | .emit made =>
      match (s.callers t).pc with
      | .emitting revision => some (s.emitLayoutUpdated t revision made)
      | _ => none
  | .returnResult =>
      match (s.callers t).pc with
      | .returning piggybacked result => some (s.returnResult t piggybacked result)
      | _ => none
  | .read =>
      match (s.callers t).pc with
      | .reading => some (s.read t)
      | _ => none

def trayStep (s : TrayService n) : TrayLabel n → Option (TrayService n)
  | .publish dump => some (s.publish dump)
  | .thread t l => threadStep s t l

/-! ## What a step can do -/

section

variable {s : TrayService n} {t u : Fin n} {c : Caller}

@[simp] theorem callers_setCaller_self : (s.setCaller t c).callers t = c :=
  Function.update_self ..

theorem callers_setCaller_of_ne (hne : u ≠ t) : (s.setCaller t c).callers u = s.callers u :=
  Function.update_of_ne hne ..

/-- What holds of every thread holds still when one thread moves. -/
theorem forall_setCaller {P : Fin n → Caller → Prop} (h : ∀ u, P u (s.callers u)) (hc : P t c) :
    ∀ u, P u ((s.setCaller t c).callers u) := by
  intro u
  by_cases hut : u = t
  · subst hut
    rwa [callers_setCaller_self]
  · rw [callers_setCaller_of_ne hut]
    exact h u

end

/-- One constructor for each outcome of a label. -/
inductive TrayMove (s : TrayService n) : TrayLabel n → TrayService n → Prop
  | publish (dump : List TrayEntry) : TrayMove s (.publish dump) (s.publish dump)
  | begin (t : Fin n) (task : RefreshTask) (hpc : (s.callers t).pc = .idle) :
      TrayMove s (.thread t (.begin task)) (s.begin t task)
  | check (t : Fin n) (hpc : (s.callers t).pc = .checking) :
      TrayMove s (.thread t .check)
        (s.goto t (if s.tray.entries = [] then .calling else s.afterRefresh t))
  | call (t : Fin n) (hpc : (s.callers t).pc = .calling) :
      TrayMove s (.thread t .call) (s.call t)
  | join (t : Fin n) (hpc : (s.callers t).pc = .called) (hbusy : s.refreshInProgress = true) :
      TrayMove s (.thread t .enter) (s.goto t .piggybacking)
  | own (t : Fin n) (hpc : (s.callers t).pc = .called) (hfree : s.refreshInProgress = false) :
      TrayMove s (.thread t .enter) (s.own t)
  | stay (l : TrayLabel n) : TrayMove s l s
  | released (t : Fin n) (timedOut finalWait : Bool) (hpc : (s.callers t).pc = .piggybacking)
      (hfree : s.refreshInProgress = false) :
      TrayMove s (.thread t (.wake timedOut finalWait))
        (s.goto t (.returning true (decide (0 < s.tray.entries.length))))
  | wait (t : Fin n) (l : ThreadLabel) (start : UInt64) (pc : RefreshPc)
      (howns : (s.callers t).pc = .clicking start ∨
        ∃ finalWait, (s.callers t).pc = .timedWait start finalWait)
      (hpc : pc = .clicking start ∨ ∃ finalWait, pc = .timedWait start finalWait) :
      TrayMove s (.thread t l) (s.goto t pc)
  | fetched (t : Fin n) (l : ThreadLabel) (start : UInt64)
      (howns : (s.callers t).pc = .clicking start ∨
        ∃ finalWait, (s.callers t).pc = .timedWait start finalWait)
      (hnew : s.tray.generation ≠ start) :
      TrayMove s (.thread t l) (s.goto t (.settling s.tray.generation))
  | giveUp (t : Fin n) (timedOut finalWait : Bool)
      (hpc : (s.callers t).pc = .timedWait s.tray.generation true) :
      TrayMove s (.thread t (.wake timedOut finalWait)) (s.finish t true)
  | settleAgain (t : Fin n) (l : ThreadLabel) (settled : UInt64)
      (hpc : (s.callers t).pc = .settling settled) :
      TrayMove s (.thread t l) (s.goto t (.settling s.tray.generation))
  | settled (t : Fin n) (finalWait : Bool)
      (hpc : (s.callers t).pc = .settling s.tray.generation) :
      TrayMove s (.thread t (.wake true finalWait)) (s.finish t false)
  | emit (t : Fin n) (revision : UInt32) (made : Bool)
      (hpc : (s.callers t).pc = .emitting revision) :
      TrayMove s (.thread t (.emit made)) (s.emitLayoutUpdated t revision made)
  | returnResult (t : Fin n) (piggybacked result : Bool)
      (hpc : (s.callers t).pc = .returning piggybacked result) :
      TrayMove s (.thread t .returnResult) (s.returnResult t piggybacked result)
  | read (t : Fin n) (hpc : (s.callers t).pc = .reading) :
      TrayMove s (.thread t .read) (s.read t)

theorem threadStep_moves {s s' : TrayService n} {t : Fin n} {l : ThreadLabel}
    (h : threadStep s t l = some s') : TrayMove s (.thread t l) s' := by
  cases l with
  | begin task =>
      simp only [threadStep] at h
      split at h
      · rename_i hpc
        obtain rfl := Option.some.inj h
        exact .begin t task hpc
      · exact absurd h (by simp)
  | check =>
      simp only [threadStep] at h
      split at h
      · rename_i hpc
        obtain rfl := Option.some.inj h
        exact .check t hpc
      · exact absurd h (by simp)
  | call =>
      simp only [threadStep] at h
      split at h
      · rename_i hpc
        obtain rfl := Option.some.inj h
        exact .call t hpc
      · exact absurd h (by simp)
  | enter =>
      simp only [threadStep] at h
      split at h
      · rename_i hpc
        obtain rfl := Option.some.inj h
        split
        · rename_i hbusy
          exact .join t hpc hbusy
        · rename_i hfree
          exact .own t hpc (by simpa using hfree)
      · exact absurd h (by simp)
  | relock finalWait =>
      simp only [threadStep] at h
      split at h
      · rename_i start hpc
        obtain rfl := Option.some.inj h
        split
        · exact .wait t _ start _ (.inl hpc) (.inr ⟨finalWait, rfl⟩)
        · rename_i hnew
          exact .fetched t _ start (.inl hpc) hnew
      · exact absurd h (by simp)
  | wake timedOut finalWait =>
      simp only [threadStep] at h
      split at h
      · rename_i hpc
        obtain rfl := Option.some.inj h
        split
        · exact .stay _
        · rename_i hfree
          exact .released t timedOut finalWait hpc (by simpa using hfree)
      · rename_i start wasFinal hpc
        obtain rfl := Option.some.inj h
        split
        · rename_i hnew
          exact .fetched t _ start (.inr ⟨wasFinal, hpc⟩) hnew
        · rename_i hsame
          obtain rfl := not_ne_iff.mp hsame
          split
          · rename_i hfinal
            exact .giveUp t timedOut finalWait (by rw [hpc, hfinal])
          · split
            · exact .wait t _ _ _ (.inr ⟨wasFinal, hpc⟩) (.inl rfl)
            · exact .wait t _ _ _ (.inr ⟨wasFinal, hpc⟩) (.inr ⟨finalWait, rfl⟩)
      · rename_i settled hpc
        obtain rfl := Option.some.inj h
        split
        · exact .settleAgain t _ settled hpc
        · rename_i hsame
          obtain rfl := not_ne_iff.mp hsame
          cases timedOut with
          | true => exact .settled t finalWait hpc
          | false => exact .stay _
      · exact absurd h (by simp)
  | emit made =>
      simp only [threadStep] at h
      split at h
      · rename_i revision hpc
        obtain rfl := Option.some.inj h
        exact .emit t revision made hpc
      · exact absurd h (by simp)
  | returnResult =>
      simp only [threadStep] at h
      split at h
      · rename_i piggybacked result hpc
        obtain rfl := Option.some.inj h
        exact .returnResult t piggybacked result hpc
      · exact absurd h (by simp)
  | read =>
      simp only [threadStep] at h
      split at h
      · rename_i hpc
        obtain rfl := Option.some.inj h
        exact .read t hpc
      · exact absurd h (by simp)

theorem trayStep_moves {s s' : TrayService n} {l : TrayLabel n}
    (h : trayStep s l = some s') : TrayMove s l s' := by
  cases l with
  | publish dump =>
      obtain rfl := Option.some.inj h
      exact .publish dump
  | thread t l => exact threadStep_moves h

end Wallpiper.Tray
