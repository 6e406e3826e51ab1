import Mathlib.Data.List.FinRange
import Wallpiper.Capture.WireFormat
import Wallpiper.Foundations.Runs

/-!
# Streams and monitors

The GNOME portal has a fixed number of channels.  The first buffer of a channel
activates it on a monitor that no active channel is on.  XRandR names the output
of a stream by its position or its size, and Mutter has the monitor of that
name.
-/

namespace Wallpiper.Gnome

open Foundations Foundations.CText Capture

def wpCaptureSlotCount : ℕ := 3

def wpMaxCaptureChannels : ℕ := 4

def maxCaptureSlots : ℕ := wpMaxCaptureChannels * wpCaptureSlotCount

/-! ## Monitors -/

structure MonitorGeometry where
  x : Int32
  y : Int32
  width : UInt32
  height : UInt32
  logicalWidth : UInt32
  logicalHeight : UInt32
  deriving DecidableEq, Repr

structure XrrCrtc where
  x : Int32
  y : Int32
  width : UInt32
  height : UInt32
  /-- turned by 90 or 270 degrees -/
  turned : Bool
  deriving DecidableEq, Repr

structure XrrOutput where
  name : Bytes
  connected : Bool
  crtc : Option XrrCrtc
  deriving DecidableEq, Repr

/-- What XRandR and Mutter say while a monitor is searched. -/
structure Screens where
  outputs : List XrrOutput
  monitors : List (Bytes × MonitorGeometry)
  deriving DecidableEq, Repr

/-- `g_strlcpy` into a name of 64 bytes. -/
def copyName (name : Bytes) : Bytes := name.take 63

def x11Output (outputs : List XrrOutput) (fits : XrrCrtc → Bool) : Option Bytes :=
  (outputs.find? fun output ↦ output.connected && output.crtc.any fits).map
    fun output ↦ copyName output.name

def wallpiperX11OutputForSize (outputs : List XrrOutput) (width height : UInt32) : Option Bytes :=
  x11Output outputs fun crtc ↦
    crtc.width == width && crtc.height == height ||
      crtc.width == height && crtc.height == width && crtc.turned

def wallpiperX11OutputForPosition (outputs : List XrrOutput) (x y : Int32) : Option Bytes :=
  x11Output outputs fun crtc ↦ crtc.x == x && crtc.y == y

def wallpiperMonitorDetectAllNamed (monitors : List (Bytes × MonitorGeometry)) :
    List (Bytes × MonitorGeometry) :=
  (monitors.take wpMaxCaptureChannels).map fun m ↦ (copyName m.1, m.2)

/-! ## Channels -/

variable {τ : Type*}

structure CaptureSlot (τ : Type*) where
  used : Bool
  width : UInt32
  height : UInt32
  texture : Option τ
  deriving DecidableEq, Repr

structure DisplayActor (τ : Type*) where
  x : Int32
  y : Int32
  width : UInt32
  height : UInt32
  content : Option τ
  deriving DecidableEq, Repr

structure CaptureChannel (τ : Type*) where
  active : Bool
  displayActor : Option (DisplayActor τ)
  slots : Fin wpCaptureSlotCount → CaptureSlot τ
  monitor : MonitorGeometry

abbrev Channels (τ : Type*) := Fin wpMaxCaptureChannels → CaptureChannel τ

/-- `g_new0`. -/
def CaptureChannel.zero : CaptureChannel τ :=
  { active := false, displayActor := none
    slots := fun _ ↦ { used := false, width := 0, height := 0, texture := none }
    monitor := ⟨0, 0, 0, 0, 0, 0⟩ }

def initialChannels : Channels τ := fun _ ↦ .zero

def channelClear (ch : CaptureChannel τ) : CaptureChannel τ :=
  { ch with
    active := false, displayActor := none
    slots := fun j ↦ { ch.slots j with used := false, texture := none } }

def detach (st : Channels τ) : Channels τ := fun i ↦ channelClear (st i)

/-- An active channel is on the monitor's position. -/
def alreadyClaimed (st : Channels τ) (monitor : MonitorGeometry) : Bool :=
  (List.finRange wpMaxCaptureChannels).any fun i ↦
    (st i).active && (st i).monitor.x == monitor.x && (st i).monitor.y == monitor.y

/-- The monitor with the name that XRandR found. -/
def findMonitor (st : Channels τ) (screens : Screens) (x11Name : Option Bytes) :
    Option MonitorGeometry := do
  let name ← x11Name
  let (_, monitor) ← (wallpiperMonitorDetectAllNamed screens.monitors).find? fun m ↦ m.1 == name
  if alreadyClaimed st monitor = true then none else some monitor

def findMonitorForSize (st : Channels τ) (screens : Screens) (width height : UInt32) :
    Option MonitorGeometry :=
  findMonitor st screens (wallpiperX11OutputForSize screens.outputs width height)

def findMonitorForPosition (st : Channels τ) (screens : Screens) (x y : Int32) :
    Option MonitorGeometry :=
  findMonitor st screens (wallpiperX11OutputForPosition screens.outputs x y)

def createChannelActor (m : MonitorGeometry) : DisplayActor τ :=
  { x := m.x, y := m.y, width := m.logicalWidth, height := m.logicalHeight, content := none }

def displaySlot (ch : CaptureChannel τ) (slot : CaptureSlot τ) : CaptureChannel τ :=
  { ch with displayActor := ch.displayActor.map fun actor ↦ { actor with content := slot.texture } }

/-- The channel of a buffer, activated if necessary; `none` if there is no
monitor for it. -/
def activate (st : Channels τ) (i : Fin wpMaxCaptureChannels) (message : Capture.Gnome.BufMessage)
    (atPosition atSize : Screens) : Option (CaptureChannel τ) :=
  if (st i).active = true then some (st i)
  else
    let matched :=
      if message.hasGeometry = true then
        findMonitorForPosition st atPosition message.geomX message.geomY
      else none
    let monitor :=
      match matched with
      | some monitor => some monitor
      | none => findMonitorForSize st atSize message.width message.height
    monitor.map fun monitor ↦
      { st i with
        monitor := monitor, displayActor := some (createChannelActor monitor), active := true }

/-- `handle_buf_message` with the fields it has read.  `imported` is the texture
that the import makes. -/
def handleBufMessage (st : Channels τ) (message : Capture.Gnome.BufMessage)
    (atPosition atSize : Screens) (imported : Option τ) : Channels τ :=
  if h : message.wireSlot.toNat < maxCaptureSlots then
    if message.dmabufFd < 0 then st
    else
      let channelIdx : Fin wpMaxCaptureChannels :=
        ⟨message.wireSlot.toNat / wpCaptureSlotCount, Nat.div_lt_of_lt_mul (Nat.mul_comm .. ▸ h)⟩
      let localIdx : Fin wpCaptureSlotCount :=
        ⟨message.wireSlot.toNat % wpCaptureSlotCount, Nat.mod_lt _ (by decide)⟩
      match activate st channelIdx message atPosition atSize with
      | none => st
      | some ch =>
          match imported with
          | none => Function.update st channelIdx ch
          | some texture =>
              let slot : CaptureSlot τ :=
                { used := true, width := message.width, height := message.height
                  texture := some texture }
              Function.update st channelIdx
                (displaySlot { ch with slots := Function.update ch.slots localIdx slot } slot)
  else st

def handleFrameMessage (st : Channels τ) (wireSlot : UInt32) : Channels τ :=
  if h : wireSlot.toNat < maxCaptureSlots then
    let channelIdx : Fin wpMaxCaptureChannels :=
      ⟨wireSlot.toNat / wpCaptureSlotCount, Nat.div_lt_of_lt_mul (Nat.mul_comm .. ▸ h)⟩
    let localIdx : Fin wpCaptureSlotCount :=
      ⟨wireSlot.toNat % wpCaptureSlotCount, Nat.mod_lt _ (by decide)⟩
    let ch := st channelIdx
    if ch.active = true ∧ (ch.slots localIdx).used = true then
      Function.update st channelIdx (displaySlot ch (ch.slots localIdx))
    else st
  else st

/-- A monitor in the same place replaces the channel's. -/
def onMonitorsChanged (st : Channels τ) (monitors : List MonitorGeometry) : Channels τ := fun i ↦
  let ch := st i
  if ch.active = true then
    match (monitors.take wpMaxCaptureChannels).find? fun m ↦
        m.x == ch.monitor.x && m.y == ch.monitor.y with
    | some m =>
        { ch with
          monitor := m
          displayActor := ch.displayActor.map fun actor ↦
            { actor with x := m.x, y := m.y, width := m.logicalWidth, height := m.logicalHeight } }
    | none => ch
  else ch

inductive ChannelsLabel (τ : Type*) where
  | buf (message : Capture.Gnome.BufMessage) (atPosition atSize : Screens) (imported : Option τ)
  | frame (wireSlot : UInt32)
  | detach
  | monitorsChanged (monitors : List MonitorGeometry)

def channelsStep (st : Channels τ) : ChannelsLabel τ → Option (Channels τ)
  | .buf message atPosition atSize imported =>
      some (handleBufMessage st message atPosition atSize imported)
  | .frame wireSlot => some (handleFrameMessage st wireSlot)
  | .detach => some (detach st)
  | .monitorsChanged monitors => some (onMonitorsChanged st monitors)

/-! ## Where the active channels are -/

/-- The position that a channel shows its stream on. -/
def place (ch : CaptureChannel τ) : Option (Int32 × Int32) :=
  if ch.active = true then some (ch.monitor.x, ch.monitor.y) else none

/-- No two active channels are on the same position. -/
def PlacesApart (st : Channels τ) : Prop :=
  ∀ i j p, place (st i) = some p → place (st j) = some p → i = j

theorem alreadyClaimed_iff {st : Channels τ} {m : MonitorGeometry} :
    alreadyClaimed st m = true ↔ ∃ i, place (st i) = some (m.x, m.y) := by
  simp only [alreadyClaimed, List.any_eq_true, List.mem_finRange, true_and, Bool.and_eq_true,
    beq_iff_eq, place]
  constructor
  · rintro ⟨i, ⟨hactive, hx⟩, hy⟩
    exact ⟨i, by rw [if_pos hactive, hx, hy]⟩
  · rintro ⟨i, hi⟩
    split at hi
    · rename_i hactive
      obtain ⟨hx, hy⟩ := Prod.mk.inj (Option.some.inj hi)
      exact ⟨i, ⟨hactive, hx⟩, hy⟩
    · exact absurd hi (by simp)

theorem findMonitor_free {st : Channels τ} {screens : Screens} {name : Option Bytes}
    {m : MonitorGeometry} (h : findMonitor st screens name = some m) :
    ∀ i, place (st i) ≠ some (m.x, m.y) := by
  simp only [findMonitor, bind, Option.bind_eq_some_iff] at h
  obtain ⟨_, _, ⟨_, monitor⟩, _, hfree⟩ := h
  split at hfree
  · exact absurd hfree (by simp)
  · rename_i hclaimed
    obtain rfl := Option.some.inj hfree
    exact fun i hi ↦ hclaimed (alreadyClaimed_iff.mpr ⟨i, hi⟩)

theorem place_displaySlot (ch : CaptureChannel τ) (slot : CaptureSlot τ) :
    place (displaySlot ch slot) = place ch := rfl

theorem place_channelClear (ch : CaptureChannel τ) : place (channelClear ch) = none := rfl

/-- A channel stays where it is, or it goes where no channel is. -/
theorem activate_place {st : Channels τ} {i : Fin wpMaxCaptureChannels}
    {message : Capture.Gnome.BufMessage} {atPosition atSize : Screens} {ch : CaptureChannel τ}
    (h : activate st i message atPosition atSize = some ch) :
    place ch = place (st i) ∨ ∀ j, place (st j) ≠ place ch := by
  unfold activate at h
  split at h
  · obtain rfl := Option.some.inj h
    exact .inl rfl
  · obtain ⟨monitor, hmonitor, rfl⟩ := Option.map_eq_some_iff.mp h
    refine .inr ?_
    split at hmonitor
    · rename_i m hmatched
      obtain rfl := Option.some.inj hmonitor
      split at hmatched
      · exact findMonitor_free hmatched
      · exact absurd hmatched (by simp)
    · exact findMonitor_free hmonitor

namespace PlacesApart

theorem initial : PlacesApart (initialChannels : Channels τ) := by
  intro i j p hi
  exact absurd hi (by simp [initialChannels, place, CaptureChannel.zero])

theorem of_place_eq {st st' : Channels τ} (h : PlacesApart st)
    (hplace : ∀ i, place (st' i) = place (st i)) : PlacesApart st' := by
  intro i j p hi hj
  exact h i j p (hplace i ▸ hi) (hplace j ▸ hj)

theorem update {st : Channels τ} (h : PlacesApart st) {i : Fin wpMaxCaptureChannels}
    {ch : CaptureChannel τ} (hch : place ch = place (st i) ∨ ∀ j, place (st j) ≠ place ch) :
    PlacesApart (Function.update st i ch) := by
  rcases hch with hsame | hfree
  · apply h.of_place_eq
    intro j
    by_cases hj : j = i
    · subst hj
      rw [Function.update_self, hsame]
    · rw [Function.update_of_ne hj]
  · intro j k p hj hk
    by_cases hji : j = i
    · by_cases hki : k = i
      · exact hji.trans hki.symm
      · rw [hji, Function.update_self] at hj
        rw [Function.update_of_ne hki] at hk
        exact absurd (hk.trans hj.symm) (hfree k)
    · rw [Function.update_of_ne hji] at hj
      by_cases hki : k = i
      · rw [hki, Function.update_self] at hk
        exact absurd (hj.trans hk.symm) (hfree j)
      · rw [Function.update_of_ne hki] at hk
        exact h j k p hj hk

theorem handleBufMessage {st : Channels τ} (h : PlacesApart st)
    (message : Capture.Gnome.BufMessage) (atPosition atSize : Screens) (imported : Option τ) :
    PlacesApart (handleBufMessage st message atPosition atSize imported) := by
  unfold Gnome.handleBufMessage
  split
  · split
    · exact h
    · dsimp only
      split
      · exact h
      · rename_i ch hactivate
        have hplace := activate_place hactivate
        cases imported with
        | none => exact h.update hplace
        | some texture => exact h.update hplace
  · exact h

theorem handleFrameMessage {st : Channels τ} (h : PlacesApart st) (wireSlot : UInt32) :
    PlacesApart (handleFrameMessage st wireSlot) := by
  unfold Gnome.handleFrameMessage
  split
  · dsimp only
    split
    · exact h.update (.inl (place_displaySlot _ _))
    · exact h
  · exact h

theorem detach (st : Channels τ) : PlacesApart (detach st) := by
  intro i j p hi
  exact absurd ((place_channelClear (st i)).symm.trans hi) (by simp)

theorem onMonitorsChanged {st : Channels τ} (h : PlacesApart st)
    (monitors : List MonitorGeometry) : PlacesApart (onMonitorsChanged st monitors) := by
  apply h.of_place_eq
  intro i
  unfold Gnome.onMonitorsChanged
  dsimp only
  split
  · rename_i hactive
    split
    · rename_i m hfind
      have hsame := List.find?_some hfind
      simp only [Bool.and_eq_true, beq_iff_eq] at hsame
      simp only [place, hactive, hsame]
    · rfl
  · rfl

theorem step {st st' : Channels τ} {l : ChannelsLabel τ} (h : PlacesApart st)
    (hstep : channelsStep st l = some st') : PlacesApart st' := by
  cases l with
  | buf message atPosition atSize imported =>
      exact Option.some.inj hstep ▸ h.handleBufMessage message atPosition atSize imported
  | frame wireSlot => exact Option.some.inj hstep ▸ h.handleFrameMessage wireSlot
  | detach => exact Option.some.inj hstep ▸ PlacesApart.detach st
  | monitorsChanged monitors => exact Option.some.inj hstep ▸ h.onMonitorsChanged monitors

end PlacesApart

end Wallpiper.Gnome
