import Wallpiper.Capture.Layer
import Wallpiper.Foundations.Runs
import Wallpiper.Foundations.Claims

/-!
# The windows of surfaces

The layer notes which window each surface was created for, in a table of
sixteen entries whose entries are never changed or removed, and asks for the
position of that window when a swapchain of the surface is registered.
-/

namespace Wallpiper.Capture

open Foundations

def wpMaxTrackedSurfaces : ℕ := 16

/-- An entry in use. -/
structure SurfaceXid where
  surface : UInt64
  xid : UInt64
  deriving DecidableEq, Repr

abbrev SurfaceTable : Type := Fin wpMaxTrackedSurfaces → Option SurfaceXid

def wpSurfaceXidRegister (xids : SurfaceTable) (surface xid : UInt64) : SurfaceTable :=
  Table.put xids ⟨surface, xid⟩

def wpSurfaceXidLookup (xids : SurfaceTable) (surface : UInt64) : Option UInt64 :=
  ((Table.find (fun entry ↦ entry.surface = surface) xids).map Prod.snd).map SurfaceXid.xid

/-- The position that `wp_register_swapchain` finds for a swapchain of the
surface, given what the X server answers. -/
def registeredGeometry (xids : SurfaceTable) (windowGeometry : UInt64 → Option Position)
    (surface : UInt64) : Option Position :=
  (wpSurfaceXidLookup xids surface).bind windowGeometry

/-- The table, the windows of the surfaces that exist and the calls of
`wp_surface_xid_register` so far. -/
structure SurfaceState where
  xids : SurfaceTable
  window : UInt64 → Option UInt64
  registered : List SurfaceXid

def SurfaceState.initial : SurfaceState :=
  { xids := fun _ ↦ none, window := fun _ ↦ none, registered := [] }

/-- The next layer creates a surface for a window or fails, and surfaces are
destroyed, of which this layer is not told. -/
inductive SurfaceEvent where
  | createXlibSurface (created : Option UInt64) (window : UInt64)
  | destroySurface (surface : UInt64)
  deriving DecidableEq, Repr

def wpCreateXlibSurfaceKHR (target : Bool) (s : SurfaceState) (created : Option UInt64)
    (window : UInt64) : SurfaceState :=
  match created with
  | none => s
  | some surface =>
      let s := { s with window := Function.update s.window surface (some window) }
      if target then
        { s with
          xids := wpSurfaceXidRegister s.xids surface window
          registered := s.registered ++ [⟨surface, window⟩] }
      else s

/-- One event in a process that is or is not a target of the capture. -/
def surfaceStep (target : Bool) (s : SurfaceState) : SurfaceEvent → Option SurfaceState
  | .createXlibSurface created window => some (wpCreateXlibSurfaceKHR target s created window)
  | .destroySurface surface => some { s with window := Function.update s.window surface none }

/-- The XID of the last call for the surface. -/
def latestXid (registered : List SurfaceXid) (surface : UInt64) : Option UInt64 :=
  (registered.reverse.find? fun entry ↦ entry.surface = surface).map SurfaceXid.xid

/-- A lookup gives what was registered last, so in a target process a swapchain
is placed where the window of its surface is. -/
def LatestRegistrations (target : Bool) (s : SurfaceState) : Prop :=
  (∀ surface, wpSurfaceXidLookup s.xids surface = latestXid s.registered surface) ∧
    (target = true → ∀ surface window, s.window surface = some window →
      ∀ windowGeometry, registeredGeometry s.xids windowGeometry surface = windowGeometry window)

/-- A call repeats the XID of the surface's last call, or it is the surface's
first and one of the first sixteen. -/
def RegistersAnew (target : Bool) (s : SurfaceState) : SurfaceEvent → Prop
  | .createXlibSurface (some surface) window =>
      target = true → latestXid s.registered surface = some window ∨
        latestXid s.registered surface = none ∧ s.registered.length < wpMaxTrackedSurfaces
  | _ => True

instance (target : Bool) (s : SurfaceState) : ∀ event, Decidable (RegistersAnew target s event)
  | .createXlibSurface none _ => inferInstanceAs (Decidable True)
  | .createXlibSurface (some _) _ => inferInstanceAs (Decidable (_ → _))
  | .destroySurface _ => inferInstanceAs (Decidable True)

/-! ## The table holds the first calls -/

theorem latestXid_concat (registered : List SurfaceXid) (entry : SurfaceXid) (surface : UInt64) :
    latestXid (registered ++ [entry]) surface =
      if entry.surface = surface then some entry.xid else latestXid registered surface := by
  rw [latestXid, List.reverse_concat, List.find?_cons]
  by_cases h : entry.surface = surface
  · simp [h]
  · simp [h, latestXid]

theorem lookup_eq_find {xids : SurfaceTable} {registered : List SurfaceXid}
    (h : Table.Filled xids registered) (surface : UInt64) :
    wpSurfaceXidLookup xids surface =
      ((registered.take wpMaxTrackedSurfaces).find?
        fun entry ↦ entry.surface = surface).map SurfaceXid.xid := by
  rw [wpSurfaceXidLookup, h.find_map]

theorem filled_register {xids : SurfaceTable} {registered : List SurfaceXid}
    (h : Table.Filled xids registered) (surface xid : UInt64) :
    Table.Filled (wpSurfaceXidRegister xids surface xid) (registered ++ [⟨surface, xid⟩]) :=
  h.put ⟨surface, xid⟩

/-- What a lookup gives after another call. -/
theorem lookup_register {xids : SurfaceTable} {registered : List SurfaceXid}
    (h : Table.Filled xids registered) (surface xid other : UInt64) :
    wpSurfaceXidLookup (wpSurfaceXidRegister xids surface xid) other =
      (wpSurfaceXidLookup xids other).or
        (if surface = other ∧ registered.length < wpMaxTrackedSurfaces then some xid
          else none) := by
  rw [lookup_eq_find (filled_register h surface xid), lookup_eq_find h, List.take_append,
    List.find?_append]
  by_cases hroom : registered.length < wpMaxTrackedSurfaces
  · have hone : List.take (wpMaxTrackedSurfaces - registered.length) [SurfaceXid.mk surface xid] =
        [⟨surface, xid⟩] := List.take_of_length_le (by simp; omega)
    rw [hone, Option.map_or]
    by_cases hsame : surface = other <;> simp [hsame, hroom]
  · have hnone : wpMaxTrackedSurfaces - registered.length = 0 := by omega
    rw [hnone, List.take_zero, List.find?_nil]
    simp [hroom]

/-- What holds in every state: the table is filled with the calls in order, and
in a target process the window of a surface that exists was registered last. -/
structure SurfaceInvariant (target : Bool) (s : SurfaceState) : Prop where
  filled : Table.Filled s.xids s.registered
  current : target = true → ∀ surface window, s.window surface = some window →
    latestXid s.registered surface = some window

theorem surfaceInvariant_initial (target : Bool) : SurfaceInvariant target .initial where
  filled := fun _ ↦ rfl
  current := fun _ _ _ h ↦ absurd h (by simp [SurfaceState.initial])

theorem surfaceInvariant_step {target : Bool} {s t : SurfaceState} {event : SurfaceEvent}
    (h : SurfaceInvariant target s) (hstep : surfaceStep target s event = some t) :
    SurfaceInvariant target t := by
  cases event with
  | createXlibSurface created window =>
      obtain rfl := Option.some.inj hstep
      rcases created with _ | surface
      · exact h
      rw [wpCreateXlibSurfaceKHR]
      dsimp only
      cases target with
      | false => exact ⟨h.filled, fun htarget ↦ absurd htarget (by simp)⟩
      | true =>
          refine ⟨filled_register h.filled surface window, fun _ other window' hwindow ↦ ?_⟩
          rw [if_pos rfl] at hwindow ⊢
          dsimp only at hwindow ⊢
          rw [latestXid_concat]
          by_cases hsame : surface = other
          · rw [hsame, Function.update_self] at hwindow
            rw [if_pos hsame]
            exact hwindow
          · rw [Function.update_of_ne (Ne.symm hsame)] at hwindow
            rw [if_neg hsame]
            exact h.current rfl other window' hwindow
  | destroySurface surface =>
      obtain rfl := Option.some.inj hstep
      refine ⟨h.filled, fun htarget other window hwindow ↦ h.current htarget other window ?_⟩
      exact (update_none_iff.mp hwindow).1

theorem latestRegistrations_iff {target : Bool} {s : SurfaceState}
    (h : SurfaceInvariant target s) :
    LatestRegistrations target s ↔
      ∀ surface, wpSurfaceXidLookup s.xids surface = latestXid s.registered surface := by
  refine ⟨And.left, fun hlookup ↦ ⟨hlookup, fun htarget surface window hwindow geometry ↦ ?_⟩⟩
  rw [registeredGeometry, hlookup, h.current htarget surface window hwindow, Option.bind_some]

/-- A call keeps lookups up to date exactly when it registers anew. -/
theorem lookup_register_latest_iff {xids : SurfaceTable} {registered : List SurfaceXid}
    (hfilled : Table.Filled xids registered)
    (h : ∀ surface, wpSurfaceXidLookup xids surface = latestXid registered surface)
    (surface xid : UInt64) :
    (∀ other, wpSurfaceXidLookup (wpSurfaceXidRegister xids surface xid) other =
        latestXid (registered ++ [⟨surface, xid⟩]) other) ↔
      (latestXid registered surface = some xid ∨
        latestXid registered surface = none ∧ registered.length < wpMaxTrackedSurfaces) := by
  have hlookup := lookup_register hfilled surface xid
  constructor
  · intro hall
    have hself := hall surface
    rw [hlookup, h, latestXid_concat, if_pos rfl] at hself
    cases hlatest : latestXid registered surface with
    | none =>
        rw [hlatest, Option.none_or] at hself
        have hroom := (Option.ite_none_right_eq_some.mp hself).1
        exact Or.inr ⟨rfl, hroom.2⟩
    | some old =>
        rw [hlatest, Option.some_or] at hself
        exact Or.inl hself
  · intro hanew other
    rw [hlookup, h, latestXid_concat]
    by_cases hsame : surface = other
    · subst hsame
      rw [if_pos rfl]
      rcases hanew with hold | ⟨hnew, hroom⟩
      · rw [hold, Option.some_or]
      · rw [hnew, Option.none_or, if_pos ⟨rfl, hroom⟩]
    · rw [if_neg hsame, if_neg (fun hboth ↦ hsame hboth.1), Option.or_none]

theorem latestRegistrations_step_iff {target : Bool} {s t : SurfaceState} {event : SurfaceEvent}
    (hinv : SurfaceInvariant target s) (h : LatestRegistrations target s)
    (hstep : surfaceStep target s event = some t) :
    LatestRegistrations target t ↔ RegistersAnew target s event := by
  rw [latestRegistrations_iff (surfaceInvariant_step hinv hstep)]
  cases event with
  | createXlibSurface created window =>
      obtain rfl := Option.some.inj hstep
      rcases created with _ | surface
      · exact iff_of_true h.1 trivial
      rw [wpCreateXlibSurfaceKHR, RegistersAnew]
      dsimp only
      cases target with
      | false => exact iff_of_true h.1 (by simp)
      | true =>
          rw [if_pos rfl]
          dsimp only
          rw [lookup_register_latest_iff hinv.filled h.1]
          simp
  | destroySurface surface =>
      obtain rfl := Option.some.inj hstep
      exact iff_of_true h.1 trivial

/-- In exactly those runs in which every call registers anew do lookups give
what was registered last, in every state. -/
theorem latestRegistrations_always_iff (target : Bool) (events : List SurfaceEvent) :
    Always (surfaceStep target) (LatestRegistrations target) .initial events ↔
      Guarded (surfaceStep target) (RegistersAnew target) .initial events := by
  have hinitial : LatestRegistrations target .initial := by
    rw [latestRegistrations_iff (surfaceInvariant_initial target)]
    intro surface
    rw [lookup_eq_find (surfaceInvariant_initial target).filled]
    rfl
  have hinv : ∀ s event t, SurfaceInvariant target s → surfaceStep target s event = some t →
      SurfaceInvariant target t := fun s event t hs hstep ↦ surfaceInvariant_step hs hstep
  have hboth : Always (surfaceStep target)
        (fun s ↦ SurfaceInvariant target s ∧ LatestRegistrations target s) .initial events ↔
      Guarded (surfaceStep target) (RegistersAnew target) .initial events := by
    refine always_iff_guarded (fun s event t hs hstep ↦ ?_)
      ⟨surfaceInvariant_initial target, hinitial⟩
    rw [← latestRegistrations_step_iff hs.1 hs.2 hstep]
    exact and_iff_right (hinv s event t hs.1 hstep)
  rw [← hboth]
  refine ⟨fun halways ↦ ?_, fun halways ↦ halways.mono fun s hs ↦ hs.2⟩
  exact (always_of_step hinv (surfaceInvariant_initial target) events).and halways

/-- A handle that the driver uses again keeps the window of its first use. -/
theorem reused_surface_not_latest :
    ¬ Always (surfaceStep true) (LatestRegistrations true) .initial
      [.createXlibSurface (some 7) 100, .destroySurface 7, .createXlibSurface (some 7) 200] := by
  intro halways
  have hlookup := (halways.exec rfl).1 7
  exact absurd hlookup (by decide)

end Wallpiper.Capture
