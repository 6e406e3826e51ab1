import Wallpiper.Capture.WireFormat
import Wallpiper.Foundations.Bindings
import Wallpiper.Foundations.Runs

/-!
# Streams and wallpaper items

The KDE portal has one wallpaper item for each screen.  The first buffer of a
channel claims an item that has no channel yet, by the position of the stream
if it is known and else by its size.
-/

namespace Wallpiper.Kde

open Foundations Capture

/-- `predictedXWaylandRect`: where XWayland is expected to show an item. -/
structure XWaylandRect where
  x : Int32
  y : Int32
  width : UInt32
  height : UInt32
  deriving DecidableEq, Repr

def kCaptureSlotCount : UInt32 := 3

def kGeometryTolerancePx : ℕ := 2

def nearlyEqual (a b : ℤ) : Bool := (a - b).natAbs ≤ kGeometryTolerancePx

variable {ι : Type*}

/-- The fields of `CaptureCoordinator` that say which item is where. -/
structure Coordinator (ι : Type*) where
  items : List ι
  channelItems : Bindings UInt32 ι
  primaryItem : Option ι

def Coordinator.initial : Coordinator ι :=
  { items := [], channelItems := ∅, primaryItem := none }

/-- `onPrimary` tells which items have their window on the primary screen. -/
def reevaluateActiveItem (c : Coordinator ι) (onPrimary : ι → Bool) : Coordinator ι :=
  { c with primaryItem := (c.items.find? onPrimary).or c.items.head? }

section

variable [DecidableEq ι]

def registerItem (c : Coordinator ι) (item : ι) (onPrimary : ι → Bool) : Coordinator ι :=
  if item ∈ c.items then c
  else reevaluateActiveItem { c with items := c.items ++ [item] } onPrimary

def unregisterItem (c : Coordinator ι) (item : ι) (onPrimary : ι → Bool) : Coordinator ι :=
  if item ∈ c.items then
    reevaluateActiveItem { c with
      items := c.items.erase item
      channelItems := c.channelItems.release item
      primaryItem := if c.primaryItem = some item then none else c.primaryItem } onPrimary
  else c

def channelItem (c : Coordinator ι) (channel : UInt32) : Option ι :=
  c.channelItems.lookup channel

/-- The first item without a channel that is predicted where the stream is.
`predicted` is what the items' screens and the scale say now. -/
def claimItem (c : Coordinator ι) (predicted : ι → Option XWaylandRect) (channel : UInt32)
    (fits : XWaylandRect → Bool) : Option ι × Coordinator ι :=
  match c.items.find? fun item ↦
      !c.channelItems.claimed item && (predicted item).any fits with
  | some item => (some item, { c with channelItems := c.channelItems.insert channel item })
  | none => (none, c)

def claimItemForSize (c : Coordinator ι) (predicted : ι → Option XWaylandRect) (channel : UInt32)
    (width height : UInt32) : Option ι × Coordinator ι :=
  claimItem c predicted channel fun rect ↦
    nearlyEqual rect.width.toNat width.toNat && nearlyEqual rect.height.toNat height.toNat

def claimItemForPosition (c : Coordinator ι) (predicted : ι → Option XWaylandRect)
    (channel : UInt32) (x y : Int32) : Option ι × Coordinator ι :=
  claimItem c predicted channel fun rect ↦
    nearlyEqual rect.x.toInt x.toInt && nearlyEqual rect.y.toInt y.toInt

/-- The item that a buffer is staged on, if any. -/
def bufReceived (c : Coordinator ι) (predicted : ι → Option XWaylandRect)
    (event : Capture.Kde.BufEvent) : Option ι × Coordinator ι :=
  let channel := event.slot / kCaptureSlotCount
  match channelItem c channel with
  | some item => (some item, c)
  | none =>
      let claimed :=
        if event.hasGeometry = true then
          claimItemForPosition c predicted channel event.geomX event.geomY
        else (none, c)
      match claimed with
      | (some item, c) => (some item, c)
      | (none, c) => claimItemForSize c predicted channel event.width event.height

inductive CoordinatorLabel (ι : Type*) where
  | registerItem (item : ι) (onPrimary : ι → Bool)
  | unregisterItem (item : ι) (onPrimary : ι → Bool)
  | bufReceived (event : Capture.Kde.BufEvent) (predicted : ι → Option XWaylandRect)

def coordinatorStep (c : Coordinator ι) : CoordinatorLabel ι → Option (Coordinator ι)
  | .registerItem item onPrimary => some (registerItem c item onPrimary)
  | .unregisterItem item onPrimary => some (unregisterItem c item onPrimary)
  | .bufReceived event predicted => some (bufReceived c predicted event).2

end

/-! ## Who is bound where -/

/-- Items are registered once, no item has two channels, and only registered
items have one. -/
structure PlacementSound (c : Coordinator ι) : Prop where
  nodup : c.items.Nodup
  exclusive : c.channelItems.Exclusive
  registered : ∀ channel item, c.channelItems.lookup channel = some item → item ∈ c.items

theorem PlacementSound.initial : PlacementSound (.initial : Coordinator ι) := by
  refine ⟨List.nodup_nil, Bindings.exclusive_empty, ?_⟩
  intro channel item h
  exact absurd h (by simp [Coordinator.initial])

variable [DecidableEq ι]

theorem PlacementSound.registerItem {c : Coordinator ι} (h : PlacementSound c) (item : ι)
    (onPrimary : ι → Bool) : PlacementSound (registerItem c item onPrimary) := by
  unfold Kde.registerItem
  split
  · exact h
  · rename_i hnew
    refine ⟨?_, h.exclusive, ?_⟩
    · exact List.nodup_append'.mpr ⟨h.nodup, List.nodup_singleton item,
        List.disjoint_singleton.mpr hnew⟩
    · intro channel bound hbound
      exact List.mem_append_left _ (h.registered channel bound hbound)

theorem PlacementSound.unregisterItem {c : Coordinator ι} (h : PlacementSound c) (item : ι)
    (onPrimary : ι → Bool) : PlacementSound (unregisterItem c item onPrimary) := by
  unfold Kde.unregisterItem
  split
  · refine ⟨h.nodup.erase item, h.exclusive.release item, ?_⟩
    intro channel bound hbound
    obtain ⟨hold, hne⟩ := Bindings.lookup_release.mp hbound
    exact (List.mem_erase_of_ne hne).mpr (h.registered channel bound hold)
  · exact h

theorem PlacementSound.claimItem {c : Coordinator ι} (h : PlacementSound c)
    (predicted : ι → Option XWaylandRect) (channel : UInt32) (fits : XWaylandRect → Bool) :
    PlacementSound (claimItem c predicted channel fits).2 := by
  unfold Kde.claimItem
  split
  · rename_i item hfind
    have hmem := List.mem_of_find?_eq_some hfind
    have hfree := List.find?_some hfind
    simp only [Bool.and_eq_true, Bool.not_eq_true'] at hfree
    refine ⟨h.nodup, h.exclusive.insert channel hfree.1, ?_⟩
    intro other bound hbound
    rcases Bindings.lookup_insert_eq_some hbound with ⟨_, rfl⟩ | ⟨_, hold⟩
    · exact hmem
    · exact h.registered other bound hold
  · exact h

theorem PlacementSound.bufReceived {c : Coordinator ι} (h : PlacementSound c)
    (predicted : ι → Option XWaylandRect) (event : Capture.Kde.BufEvent) :
    PlacementSound (bufReceived c predicted event).2 := by
  unfold Kde.bufReceived
  dsimp only
  cases channelItem c (event.slot / kCaptureSlotCount) with
  | some item => exact h
  | none =>
      have hclaimed : PlacementSound (if event.hasGeometry = true then
          claimItemForPosition c predicted (event.slot / kCaptureSlotCount) event.geomX event.geomY
          else (none, c)).2 := by
        split
        · exact h.claimItem predicted _ _
        · exact h
      revert hclaimed
      generalize (if event.hasGeometry = true then claimItemForPosition c predicted
        (event.slot / kCaptureSlotCount) event.geomX event.geomY else (none, c)) = claimed
      intro hclaimed
      obtain ⟨found, c'⟩ := claimed
      cases found with
      | some item => exact hclaimed
      | none => exact hclaimed.claimItem predicted _ _

theorem PlacementSound.step {c c' : Coordinator ι} {l : CoordinatorLabel ι}
    (h : PlacementSound c) (hstep : coordinatorStep c l = some c') : PlacementSound c' := by
  cases l with
  | registerItem item onPrimary => exact Option.some.inj hstep ▸ h.registerItem item onPrimary
  | unregisterItem item onPrimary => exact Option.some.inj hstep ▸ h.unregisterItem item onPrimary
  | bufReceived event predicted => exact Option.some.inj hstep ▸ h.bufReceived predicted event

end Wallpiper.Kde
