import Wallpiper.Gnome.Channels
import Wallpiper.Kde.Coordinator

/-!
# One stream on one screen

The portals that place streams on their own never show two of them on the same
screen, whatever comes in and whatever the desktop says about its monitors.
-/

namespace Wallpiper.Capture

open Foundations

variable {ι τ : Type*}

/-- A channel has one item, an item has one channel, and both are so only while
the item is registered. -/
def ItemsPlaced (c : Kde.Coordinator ι) : Prop :=
  (∀ e ∈ c.channelItems.entries, ∀ e' ∈ c.channelItems.entries, e.1 = e'.1 ↔ e.2 = e'.2) ∧
    ∀ e ∈ c.channelItems.entries, e.2 ∈ c.items

theorem itemsPlaced_of_sound {c : Kde.Coordinator ι} (h : Kde.PlacementSound c) :
    ItemsPlaced c := by
  have hlookup : ∀ e ∈ c.channelItems.entries, c.channelItems.lookup e.1 = some e.2 :=
    fun e he ↦ AList.mem_lookup_iff.mpr he
  constructor
  · intro e he e' he'
    constructor
    · intro hkey
      have hsame := hlookup e' he'
      rw [← hkey, hlookup e he] at hsame
      exact Option.some.inj hsame
    · intro hitem
      exact h.exclusive e.1 e'.1 e.2 (hlookup e he) (hitem ▸ hlookup e' he')
  · intro e he
    exact h.registered e.1 e.2 (hlookup e he)

/-- Different active channels are on monitors with different positions. -/
def MonitorsApart (st : Gnome.Channels τ) : Prop :=
  ∀ i j, i ≠ j → (st i).active = true → (st j).active = true →
    ((st i).monitor.x, (st i).monitor.y) ≠ ((st j).monitor.x, (st j).monitor.y)

theorem monitorsApart_of_places {st : Gnome.Channels τ} (h : Gnome.PlacesApart st) :
    MonitorsApart st := by
  intro i j hne hi hj hsame
  have hplace : Gnome.place (st i) = some ((st j).monitor.x, (st j).monitor.y) := by
    rw [Gnome.place, if_pos hi, hsame]
  exact hne (h i j _ hplace (if_pos hj))

/-- In every run of the KDE coordinator items and channels are bound one to one,
and in every run of the GNOME portal the active channels are on different
monitors. -/
theorem streams_placed_apart [DecidableEq ι] :
    (∀ ls : List (Kde.CoordinatorLabel ι), Always Kde.coordinatorStep ItemsPlaced .initial ls) ∧
      ∀ ls : List (Gnome.ChannelsLabel τ),
        Always Gnome.channelsStep MonitorsApart Gnome.initialChannels ls := by
  constructor
  · intro ls
    have hsound : Always Kde.coordinatorStep Kde.PlacementSound (.initial : Kde.Coordinator ι) ls :=
      always_of_step (fun _ _ _ h ht ↦ h.step ht) Kde.PlacementSound.initial ls
    exact hsound.mono fun _ ↦ itemsPlaced_of_sound
  · intro ls
    have hsound : Always Gnome.channelsStep Gnome.PlacesApart
        (Gnome.initialChannels : Gnome.Channels τ) ls :=
      always_of_step (fun _ _ _ h ht ↦ h.step ht) Gnome.PlacesApart.initial ls
    exact hsound.mono fun _ ↦ monitorsApart_of_places

end Wallpiper.Capture
