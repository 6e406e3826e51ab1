import Wallpiper.Capture.Channels
import Wallpiper.Capture.WireRoundTrip
import Wallpiper.Foundations.Runs
import Wallpiper.Portal.Binding

/-!
# Frames on the outputs of their windows

The capture layer and the wlroots portal with a reliable, ordered link between
them.  A wire channel is freed with its swapchain and given to the next one,
but no message tells the portal, whose output stays bound to the channel; so
frames end up where they belong as long as channels are only reused for the
position they were used for.
-/

namespace Wallpiper.Portal

open Foundations Capture

def datagram : CaptureMessage → Datagram
  | .buf slot width height formatRaw stride modifier geometry imageFd syncFd =>
      wpCaptureLinkSendBuf slot width height formatRaw stride modifier geometry.isSome
        (geometry.elim 0 Prod.fst) (geometry.elim 0 Prod.snd) imageFd (fdOf syncFd)
  | .frame slot syncFd => wpCaptureLinkSendFrame slot (fdOf syncFd)

/-- All messages sent, with the window each comes from, and the number of them
that the portal has read. -/
structure PlacementState where
  layer : CaptureLayer
  sent : List (CaptureMessage × Origin)
  received : ℕ
  portal : WlState Origin

/-- An output that the compositor has described completely. -/
def describedOutput (viewporter : Bool) (p : Position) (width height : Int32) : WlOutput Origin :=
  outputDone viewporter (outputMode true width height (outputGeometry p.1 p.2 .zero))

def PlacementState.initial (dmabuf viewporter shm : Bool)
    (screens : List (Position × Int32 × Int32)) : PlacementState :=
  { layer := .initial, sent := [], received := 0
    portal := { WlState.initial dmabuf viewporter shm with
      outputs := screens.map fun screen ↦
        describedOutput viewporter screen.1 screen.2.1 screen.2.2 } }

inductive PlacementLabel where
  | register (device : ℕ) (swapchain : UInt64) (info : SwapchainInfo)
  | teardown (device : ℕ) (swapchain : UInt64) (fenceWait : SlotIndex → Bool)
  | present (device : ℕ) (swapchain : UInt64) (imageIndex : UInt32) (driver : DriverAnswers)
  | receive (imported : Bool)
  | frameDone (output : ℕ)
  | configure (output : ℕ) (width height : UInt32)
  | detach

def presentAndSend (s : PlacementState) (d : ℕ) (swapchain : UInt64) (imageIndex : UInt32)
    (driver : DriverAnswers) : PlacementState :=
  match wpCaptureAndNotify s.layer d swapchain imageIndex driver with
  | (layer, none) => { s with layer := layer }
  | (layer, some notice) =>
      { s with
        layer := markBufSent layer d notice
        sent := s.sent ++ [(notice.message, notice.window)] }

def receiveMessage (portal : WlState Origin) (message : CaptureMessage × Origin)
    (imported : Bool) : WlState Origin :=
  match wpRecvCaptureEvent (datagram message.1) with
  | none => portal
  | some event =>
      wpWlHandleCaptureEvent portal event (if imported then some message.2 else none)

def placementStep (s : PlacementState) : PlacementLabel → Option PlacementState
  | .register d swapchain info =>
      some { s with layer := wpRegisterSwapchain s.layer d swapchain info }
  | .teardown d swapchain fenceWait =>
      some { s with layer := wpTeardownSwapchain s.layer d swapchain fenceWait }
  | .present d swapchain imageIndex driver =>
      some (presentAndSend s d swapchain imageIndex driver)
  | .receive imported =>
      (s.sent[s.received]?).map fun message ↦
        { s with
          received := s.received + 1
          portal := receiveMessage s.portal message imported }
  | .frameDone i => (wlStep s.portal (.frameDone i)).map fun portal ↦ { s with portal := portal }
  | .configure i width height =>
      (wlStep s.portal (.configure i width height)).map fun portal ↦ { s with portal := portal }
  | .detach => some { s with portal := wpWlDetach s.portal }

/-- Every buffer the portal has put on an output is of a window at the
output's position. -/
def FramesInPlace (s : PlacementState) : Prop := ∀ e ∈ s.portal.effects, EffectInPlace e

instance (s : PlacementState) : Decidable (FramesInPlace s) :=
  inferInstanceAs (Decidable (∀ e ∈ s.portal.effects, EffectInPlace e))

/-! ## Channels and positions -/

def channelNumber (c : WireChannel) : UInt32 := UInt32.ofNat c.val

/-- The channel and position that a message announces a buffer for. -/
def announcement : CaptureMessage → Option Announcement
  | .buf slot _ _ _ _ _ geometry _ _ => geometry.map fun p ↦ (channelOf slot, p)
  | .frame .. => none

def PlacementState.announcements (s : PlacementState) : List Announcement :=
  s.sent.filterMap fun message ↦ announcement message.1

/-- The channels held by live swapchains whose windows are at the position. -/
def heldChannels (layer : CaptureLayer) (p : Position) : Finset UInt32 :=
  (Finset.univ.filter fun c ↦ layer.channelInUse c = true ∧ layer.channelGeometry c = some p).image
    channelNumber

/-- The channels tied to a position: held there, or announced for it before. -/
def PlacementState.tiedChannels (s : PlacementState) (p : Position) : Finset UInt32 :=
  heldChannels s.layer p ∪ announcedChannels s.announcements p

/-- The channel that a registration is going to take. -/
def nextChannel (layer : CaptureLayer) (d : ℕ) : Option WireChannel :=
  (Table.free (layer.devices d).swapchains).bind fun _ ↦ allocWireChannel layer

/-- A registered window has a known position, and an output of its own among
those at it. -/
def WindowsOnOutputs (s : PlacementState) : PlacementLabel → Prop
  | .register d _ info =>
      match nextChannel s.layer d, info.geometry with
      | none, _ => True
      | some _, none => False
      | some _, some p => (heldChannels s.layer p).card < s.portal.outputsAt p
  | _ => True

/-- The channel was never used, or for this position. -/
def UsedFor (ann : List Announcement) (channel : UInt32) (p : Position) : Prop :=
  ∀ a ∈ ann, a.1 = channel → a.2 = p

instance (ann : List Announcement) (channel : UInt32) (p : Position) :
    Decidable (UsedFor ann channel p) :=
  List.decidableBAll (fun a : Announcement ↦ a.1 = channel → a.2 = p) ann

/-- A registration takes a channel whose buffers were all announced for the
new window's position, and other channels are tied to the position only if it
has further outputs. -/
def ReusesInPlace (s : PlacementState) : PlacementLabel → Prop
  | .register d _ info =>
      match nextChannel s.layer d, info.geometry with
      | some c, some p =>
          UsedFor s.announcements (channelNumber c) p ∧
            ((s.tiedChannels p).erase (channelNumber c)).card < s.portal.outputsAt p
      | _, _ => True
  | _ => True

instance (s : PlacementState) (l : PlacementLabel) : Decidable (WindowsOnOutputs s l) := by
  unfold WindowsOnOutputs
  split
  · split <;> infer_instance
  · infer_instance

instance (s : PlacementState) (l : PlacementLabel) : Decidable (ReusesInPlace s l) := by
  unfold ReusesInPlace
  split
  · split <;> infer_instance
  · infer_instance

theorem channelNumber_injective : Function.Injective channelNumber := by
  unfold Function.Injective
  decide

theorem channelOf_wireSlot (c : WireChannel) (j : SlotIndex) :
    channelOf (wireSlot c j) = channelNumber c := by
  revert c j
  decide

theorem mem_heldChannels {layer : CaptureLayer} {p : Position} {channel : UInt32} :
    channel ∈ heldChannels layer p ↔
      ∃ c, layer.channelInUse c = true ∧ layer.channelGeometry c = some p ∧
        channelNumber c = channel := by
  unfold heldChannels
  simp only [Finset.mem_image, Finset.mem_filter, Finset.mem_univ, true_and, and_assoc]

theorem mem_tiedChannels {s : PlacementState} {p : Position} {channel : UInt32} :
    channel ∈ s.tiedChannels p ↔
      channel ∈ heldChannels s.layer p ∨ (channel, p) ∈ s.announcements := by
  rw [PlacementState.tiedChannels, Finset.mem_union, mem_announcedChannels]

/-- The held channels are those of the live swapchains at the position. -/
theorem mem_heldChannels_iff_live {layer : CaptureLayer} (h : ChannelsSound layer) {p : Position}
    {channel : UInt32} :
    channel ∈ heldChannels layer p ↔
      ∃ d i state, layer.stateAt d i = some state ∧ state.window = some p ∧
        channelNumber state.wireChannel = channel := by
  rw [mem_heldChannels]
  constructor
  · rintro ⟨c, hc, hp, rfl⟩
    obtain ⟨d, i, state, hstate, rfl⟩ := h.held c hc
    exact ⟨d, i, state, hstate, (h.geometry d i state hstate).symm.trans hp, rfl⟩
  · rintro ⟨d, i, state, hstate, hp, rfl⟩
    exact ⟨state.wireChannel, h.inUse d i state hstate, (h.geometry d i state hstate).trans hp, rfl⟩

/-! ## The invariant -/

/-- A buffer is sent with the position of the window it comes from. -/
def SentInPlace (message : CaptureMessage × Origin) : Prop :=
  match message.1 with
  | .buf _ _ _ _ _ _ geometry _ _ => geometry.isSome ∧ geometry = message.2
  | .frame .. => True

structure PlacementSound (s : PlacementState) : Prop where
  channels : ChannelsSound s.layer
  windows : ∀ c, s.layer.channelInUse c = true → (s.layer.channelGeometry c).isSome
  sent : ∀ message ∈ s.sent, SentInPlace message
  onePosition : ∀ channel p q, (channel, p) ∈ s.announcements → (channel, q) ∈ s.announcements →
    p = q
  heldPosition : ∀ channel p q, channel ∈ heldChannels s.layer p →
    (channel, q) ∈ s.announcements → q = p
  room : ∀ p, (s.tiedChannels p).card ≤ s.portal.outputsAt p
  portal : PortalInPlace s.announcements s.portal

theorem PlacementSound.initial (dmabuf viewporter shm : Bool)
    (screens : List (Position × Int32 × Int32)) :
    PlacementSound (.initial dmabuf viewporter shm screens) := by
  have hheld : ∀ p, heldChannels CaptureLayer.initial p = ∅ := by
    intro p
    apply Finset.eq_empty_of_forall_notMem
    intro channel hchannel
    obtain ⟨c, hc, _⟩ := mem_heldChannels.mp hchannel
    exact absurd hc (by simp [CaptureLayer.initial])
  have hunbound : ∀ out ∈ (PlacementState.initial dmabuf viewporter shm screens).portal.outputs,
      out.boundChannel = none ∧ ∀ j, out.slots j = none := by
    intro out hout
    obtain ⟨screen, _, rfl⟩ := List.mem_map.mp hout
    exact ⟨rfl, fun _ ↦ rfl⟩
  refine ⟨.initial, ?_, ?_, ?_, ?_, ?_, ?_, ?_, ?_⟩
  · intro c hc
    exact absurd hc (by simp [PlacementState.initial, CaptureLayer.initial])
  · intro message hmessage
    exact absurd hmessage List.not_mem_nil
  · intro channel p q hp
    exact absurd hp List.not_mem_nil
  · intro channel p q _ hq
    exact absurd hq List.not_mem_nil
  · intro p
    have hnone : (PlacementState.initial dmabuf viewporter shm screens).tiedChannels p = ∅ := by
      rw [PlacementState.tiedChannels]
      exact (congrArg₂ _ (hheld p) rfl).trans rfl
    rw [hnone]
    exact Nat.zero_le _
  · intro out hout
    obtain ⟨hbound, hslots⟩ := hunbound out hout
    exact ⟨fun _ h ↦ absurd (hbound.symm.trans h) (by simp),
      fun j _ h ↦ absurd ((hslots j).symm.trans h) (by simp)⟩
  · intro i k out out' channel hout _ hchannel
    exact absurd ((hunbound out (List.mem_of_getElem? hout)).1.symm.trans hchannel) (by simp)
  · intro e he
    exact absurd he List.not_mem_nil

/-! ## The capture layer's steps -/

/-- A step that neither holds more channels nor announces anything. -/
theorem PlacementSound.layer {s : PlacementState} (h : PlacementSound s) {layer : CaptureLayer}
    (hchannels : ChannelsSound layer)
    (hless : ∀ c, layer.channelInUse c = true →
      s.layer.channelInUse c = true ∧ layer.channelGeometry c = s.layer.channelGeometry c) :
    PlacementSound { s with layer := layer } := by
  have hheld : ∀ p, heldChannels layer p ⊆ heldChannels s.layer p := by
    intro p channel hchannel
    obtain ⟨c, hc, hp, hnumber⟩ := mem_heldChannels.mp hchannel
    exact mem_heldChannels.mpr ⟨c, (hless c hc).1, (hless c hc).2.symm.trans hp, hnumber⟩
  refine ⟨hchannels, ?windows, h.sent, h.onePosition, ?heldPosition, ?room, h.portal⟩
  case windows =>
    intro c hc
    rw [(hless c hc).2]
    exact h.windows c (hless c hc).1
  case heldPosition =>
    intro channel p q hp
    exact h.heldPosition channel p q (hheld p hp)
  case room =>
    intro p
    exact (Finset.card_le_card (Finset.union_subset_union_left (hheld p))).trans (h.room p)

/-- What is held after a registration: the new channel at the window's
position, and what was held before. -/
theorem heldChannels_register {layer : CaptureLayer} {d : ℕ} {i : Fin wpMaxSwapchains}
    {state : SwapchainState} {c : WireChannel} {p q : Position} {channel : UInt32}
    (h : channel ∈ heldChannels { layer.put d i (some state) with
      channelInUse := Function.update layer.channelInUse c true
      channelGeometry := Function.update layer.channelGeometry c (some p) } q) :
    (channel = channelNumber c ∧ q = p) ∨
      channel ≠ channelNumber c ∧ channel ∈ heldChannels layer q := by
  obtain ⟨c', hinUse, hq, rfl⟩ := mem_heldChannels.mp h
  by_cases hc : c' = c
  · subst hc
    have hgeometry : some p = some q := by simpa using hq
    exact .inl ⟨rfl, (Option.some.inj hgeometry).symm⟩
  · refine .inr ⟨fun hnumber ↦ hc (channelNumber_injective hnumber), ?_⟩
    exact mem_heldChannels.mpr ⟨c', by simpa [hc] using hinUse, by simpa [hc] using hq, rfl⟩

/-- The channel goes to a window at a position that it was used for, if it
was used at all. -/
theorem PlacementSound.register {s : PlacementState} (h : PlacementSound s) {d : ℕ}
    {swapchain : UInt64} {info : SwapchainInfo}
    (hwindow : WindowsOnOutputs s (.register d swapchain info))
    (hreuse : ReusesInPlace s (.register d swapchain info)) :
    PlacementSound { s with layer := wpRegisterSwapchain s.layer d swapchain info } := by
  rcases wpRegisterSwapchain_cases s.layer d swapchain info with heq | ⟨i, c, hfree, halloc, heq⟩
  · rw [heq]
    exact h
  · have hnext : nextChannel s.layer d = some c := by
      rw [nextChannel, hfree, Option.bind_some, halloc]
    obtain ⟨p, hp⟩ : ∃ p, info.geometry = some p := by
      cases hgeometry : info.geometry with
      | none => simp [WindowsOnOutputs, hnext, hgeometry] at hwindow
      | some p => exact ⟨p, rfl⟩
    simp only [ReusesInPlace, hnext, hp] at hreuse
    obtain ⟨hused, hroom⟩ := hreuse
    have hchannels := h.channels.register (Table.eq_none_of_free hfree)
      (channel_free_of_alloc halloc) (rfl : (newSwapchain swapchain info c).wireChannel = c) hp
    rw [heq, hp]
    have htied : ∀ q channel, channel ∈ PlacementState.tiedChannels { s with
        layer := { s.layer.put d i (some (newSwapchain swapchain info c)) with
          channelInUse := Function.update s.layer.channelInUse c true
          channelGeometry := Function.update s.layer.channelGeometry c (some p) } } q →
        (channel = channelNumber c ∧ q = p) ∨ channel ∈ s.tiedChannels q := by
      intro q channel hchannel
      rcases mem_tiedChannels.mp hchannel with hchannel | hchannel
      · rcases heldChannels_register hchannel with hnew | ⟨_, hold⟩
        · exact .inl hnew
        · exact .inr (mem_tiedChannels.mpr (.inl hold))
      · exact .inr (mem_tiedChannels.mpr (.inr hchannel))
    refine ⟨hchannels, ?windows, h.sent, h.onePosition, ?heldPosition, ?room, h.portal⟩
    case windows =>
      intro c' hinUse
      by_cases hc : c' = c
      · simp [hc]
      · have hbefore := h.windows c' (by simpa [hc] using hinUse)
        simpa [hc] using hbefore
    case heldPosition =>
      intro channel q r hq hr
      rcases heldChannels_register hq with ⟨rfl, rfl⟩ | ⟨_, hold⟩
      · exact hused (channelNumber c, r) hr rfl
      · exact h.heldPosition channel q r hold hr
    case room =>
      intro q
      by_cases hqp : q = p
      · subst hqp
        apply le_trans (Finset.card_le_card (t := insert (channelNumber c)
          ((s.tiedChannels q).erase (channelNumber c))) _)
        · exact (Finset.card_insert_le _ _).trans hroom
        · intro channel hchannel
          rcases htied q channel hchannel with ⟨rfl, _⟩ | hold
          · exact Finset.mem_insert_self _ _
          · by_cases hc : channel = channelNumber c
            · exact hc ▸ Finset.mem_insert_self _ _
            · exact Finset.mem_insert_of_mem (Finset.mem_erase.mpr ⟨hc, hold⟩)
      · apply le_trans (Finset.card_le_card _) (h.room q)
        intro channel hchannel
        rcases htied q channel hchannel with ⟨_, hq⟩ | hold
        · exact absurd hq hqp
        · exact hold

theorem PlacementSound.teardown {s : PlacementState} (h : PlacementSound s) (d : ℕ)
    (swapchain : UInt64) (fenceWait : SlotIndex → Bool) :
    PlacementSound { s with layer := wpTeardownSwapchain s.layer d swapchain fenceWait } := by
  rcases wpTeardownSwapchain_cases s.layer d swapchain fenceWait with
    heq | ⟨i, state, calls, hstate, heq⟩
  · rw [heq]
    exact h
  · rw [heq]
    apply h.layer ((h.channels.teardown hstate).addCalls calls)
    intro c hc
    refine ⟨?_, rfl⟩
    by_cases hchannel : c = state.wireChannel
    · subst hchannel
      exact absurd hc (by simp [CaptureLayer.addCalls])
    · simpa [CaptureLayer.addCalls, hchannel] using hc

theorem announcements_concat (s : PlacementState) (layer : CaptureLayer)
    (message : CaptureMessage × Origin) :
    PlacementState.announcements { s with layer := layer, sent := s.sent ++ [message] } =
      s.announcements ++ (announcement message.1).toList := by
  simp only [PlacementState.announcements, List.filterMap_append, List.filterMap_cons,
    List.filterMap_nil]
  cases announcement message.1 with
  | none => rfl
  | some a => rfl

/-- A held channel is tied to one position. -/
theorem heldChannels_position {layer : CaptureLayer} {p q : Position} {channel : UInt32}
    (hp : channel ∈ heldChannels layer p) (hq : channel ∈ heldChannels layer q) : p = q := by
  obtain ⟨c, _, hcp, hc⟩ := mem_heldChannels.mp hp
  obtain ⟨c', _, hcq, hc'⟩ := mem_heldChannels.mp hq
  obtain rfl := channelNumber_injective (hc.trans hc'.symm)
  exact Option.some.inj (hcp.symm.trans hcq)

/-- A message announces nothing, or the held channel it is sent on for the
position of its window. -/
theorem PlacementSound.send {s : PlacementState} (h : PlacementSound s)
    {message : CaptureMessage × Origin} (hsent : SentInPlace message)
    (hann : ∀ channel p, announcement message.1 = some (channel, p) →
      channel ∈ heldChannels s.layer p) :
    PlacementSound { s with sent := s.sent ++ [message] } := by
  have hmem : ∀ channel p, (channel, p) ∈ PlacementState.announcements
      { s with sent := s.sent ++ [message] } →
      (channel, p) ∈ s.announcements ∨ channel ∈ heldChannels s.layer p := by
    intro channel p hp
    rw [announcements_concat s s.layer message] at hp
    rcases List.mem_append.mp hp with hp | hp
    · exact .inl hp
    · exact .inr (hann channel p (Option.mem_toList.mp hp))
  refine ⟨h.channels, h.windows, ?sent, ?onePosition, ?heldPosition, ?room, ?portal⟩
  case sent =>
    intro m hm
    rcases List.mem_append.mp hm with hm | hm
    · exact h.sent m hm
    · exact List.mem_singleton.mp hm ▸ hsent
  case onePosition =>
    intro channel p q hp hq
    rcases hmem channel p hp with hp | hp
    · rcases hmem channel q hq with hq | hq
      · exact h.onePosition channel p q hp hq
      · exact h.heldPosition channel q p hq hp
    · rcases hmem channel q hq with hq | hq
      · exact (h.heldPosition channel p q hp hq).symm
      · exact heldChannels_position hp hq
  case heldPosition =>
    intro channel p q hp hq
    rcases hmem channel q hq with hq | hq
    · exact h.heldPosition channel p q hp hq
    · exact heldChannels_position hq hp
  case room =>
    intro p
    apply le_trans (Finset.card_le_card _) (h.room p)
    intro channel hchannel
    rcases mem_tiedChannels.mp hchannel with hchannel | hchannel
    · exact mem_tiedChannels.mpr (.inl hchannel)
    · rcases hmem channel p hchannel with hold | hheld
      · exact mem_tiedChannels.mpr (.inr hold)
      · exact mem_tiedChannels.mpr (.inl hheld)
  case portal =>
    apply h.portal.mono
    rw [announcements_concat s s.layer message]
    exact List.subset_append_left _ _

/-- The message of a live swapchain carries the position of its window, on a
channel held there. -/
theorem PlacementSound.notice {s : PlacementState} (h : PlacementSound s) {d : ℕ}
    {i : Fin wpMaxSwapchains} {state : SwapchainState} {n : Notice}
    (hstate : s.layer.stateAt d i = some state) (hn : n.Describes s.layer state) :
    SentInPlace (n.message, n.window) ∧
      ∀ channel p, announcement n.message = some (channel, p) →
        channel ∈ heldChannels s.layer p := by
  have hinUse := h.channels.inUse d i state hstate
  rcases hn.message with ⟨_, _, _, _, _, _, _, hmessage⟩ | ⟨_, hmessage, _⟩
  · rw [hmessage]
    constructor
    · exact ⟨h.windows _ hinUse, (h.channels.geometry d i state hstate).trans hn.window.symm⟩
    · intro channel p hann
      obtain ⟨q, hq, heq⟩ := Option.map_eq_some_iff.mp hann
      obtain ⟨rfl, rfl⟩ := Prod.mk.inj heq
      rw [channelOf_wireSlot]
      exact mem_heldChannels.mpr ⟨state.wireChannel, hinUse, hq, rfl⟩
  · rw [hmessage]
    exact ⟨trivial, fun channel p hann ↦ absurd hann (by simp [announcement])⟩

theorem PlacementSound.present {s : PlacementState} (h : PlacementSound s) (d : ℕ)
    (swapchain : UInt64) (imageIndex : UInt32) (driver : DriverAnswers) :
    PlacementSound (presentAndSend s d swapchain imageIndex driver) := by
  obtain ⟨⟨layer, notice⟩, hpresent⟩ : ∃ p,
    wpCaptureAndNotify s.layer d swapchain imageIndex driver = p := ⟨_, rfl⟩
  obtain ⟨hchannels, hinUse, hgeometry, hdescribes⟩ := h.channels.present hpresent
  cases notice with
  | none =>
      simp only [presentAndSend, hpresent]
      apply h.layer hchannels
      intro c hc
      exact ⟨hinUse ▸ hc, by rw [hgeometry]⟩
  | some n =>
      simp only [presentAndSend, hpresent]
      obtain ⟨i, state, hstate, hn⟩ := hdescribes n rfl
      obtain ⟨hmarked, hinUse', hgeometry'⟩ := hchannels.mark d n
      obtain ⟨hsent, hann⟩ := h.notice hstate hn
      apply (h.send hsent hann).layer hmarked
      intro c hc
      rw [hinUse', hinUse] at hc
      exact ⟨hc, by rw [hgeometry', hgeometry]⟩

/-! ## The portal's steps -/

theorem PlacementSound.portal_step {s : PlacementState} (h : PlacementSound s) (received : ℕ)
    {portal : WlState Origin}
    (hportal : PortalInPlace s.announcements portal ∧ portal.places = s.portal.places) :
    PlacementSound { s with received := received, portal := portal } := by
  refine ⟨h.channels, h.windows, h.sent, h.onePosition, h.heldPosition, ?_, hportal.1⟩
  intro p
  have hsame : portal.outputsAt p = s.portal.outputsAt p := by
    rw [WlState.outputsAt, hportal.2, WlState.outputsAt]
  exact hsame ▸ h.room p

theorem receiveMessage_inPlace {s : PlacementState} (h : PlacementSound s)
    {message : CaptureMessage × Origin} (hmem : message ∈ s.sent) (imported : Bool) :
    PortalInPlace s.announcements (receiveMessage s.portal message imported) ∧
      (receiveMessage s.portal message imported).places = s.portal.places := by
  obtain ⟨m, window⟩ := message
  cases m with
  | frame slot syncFd =>
      simp only [receiveMessage, datagram, wpRecvCaptureEvent_frame, wpWlHandleCaptureEvent,
        CaptureEvent.zero]
      have hclosed := h.portal.addEffects (closeFds_inPlace ((syncFd.toList.map Nat.cast).take 1))
      exact hclosed.handleFrame slot
  | buf slot width height formatRaw stride modifier geometry imageFd syncFd =>
      obtain ⟨hsome, rfl⟩ := h.sent _ hmem
      obtain ⟨p, rfl⟩ := Option.isSome_iff_exists.mp hsome
      have hann : (channelOf slot, p) ∈ s.announcements :=
        List.mem_filterMap.mpr ⟨_, hmem, rfl⟩
      simp only [receiveMessage, datagram, wpRecvCaptureEvent_buf, wpWlHandleCaptureEvent,
        Option.isSome_some, if_true, Option.elim_some]
      have hclosed := h.portal.addEffects
        (closeFds_inPlace (((imageFd : ℤ) :: syncFd.toList.map Nat.cast).drop 1))
      apply hclosed.handleBuf
      · rfl
      · exact hann
      · intro q hq
        exact h.onePosition _ q p hq hann
      · exact (Finset.card_le_card Finset.subset_union_right).trans (h.room p)
      · intro buffer hbuffer
        split at hbuffer
        · exact (Option.some.inj hbuffer).symm
        · exact absurd hbuffer (by simp)

theorem PlacementSound.step {s t : PlacementState} {l : PlacementLabel} (h : PlacementSound s)
    (hguard : WindowsOnOutputs s l ∧ ReusesInPlace s l) (hstep : placementStep s l = some t) :
    PlacementSound t := by
  cases l with
  | register d swapchain info =>
      obtain rfl := Option.some.inj hstep
      exact h.register hguard.1 hguard.2
  | teardown d swapchain fenceWait =>
      obtain rfl := Option.some.inj hstep
      exact h.teardown d swapchain fenceWait
  | present d swapchain imageIndex driver =>
      obtain rfl := Option.some.inj hstep
      exact h.present d swapchain imageIndex driver
  | receive imported =>
      obtain ⟨message, hmessage, rfl⟩ := Option.map_eq_some_iff.mp hstep
      exact h.portal_step _ (receiveMessage_inPlace h (List.mem_of_getElem? hmessage) imported)
  | frameDone i =>
      obtain ⟨portal, hportal, rfl⟩ := Option.map_eq_some_iff.mp hstep
      obtain ⟨_, _, _, rfl⟩ := wlStep_frameDone hportal
      exact h.portal_step _ (h.portal.frameDone i)
  | configure i width height =>
      obtain ⟨portal, hportal, rfl⟩ := Option.map_eq_some_iff.mp hstep
      obtain rfl := wlStep_configure hportal
      exact h.portal_step _ (h.portal.configure i width height)
  | detach =>
      obtain rfl := Option.some.inj hstep
      exact h.portal_step _ h.portal.detach

/-! ## Runs -/

/-- With every window on an output of its own and channels only reused in
place, every frame is shown on the output of its window. -/
theorem framesInPlace_of_reuse (dmabuf viewporter shm : Bool)
    (screens : List (Position × Int32 × Int32)) {ls : List PlacementLabel}
    (hwindows : Guarded placementStep WindowsOnOutputs
      (.initial dmabuf viewporter shm screens) ls)
    (hreuse : Guarded placementStep ReusesInPlace (.initial dmabuf viewporter shm screens) ls) :
    Always placementStep FramesInPlace (.initial dmabuf viewporter shm screens) ls := by
  have hsound : Always placementStep PlacementSound (.initial dmabuf viewporter shm screens) ls :=
    always_of_guarded (fun _ _ _ h hl ht ↦ h.step hl ht)
      (PlacementSound.initial dmabuf viewporter shm screens) (hwindows.and hreuse)
  exact hsound.mono fun _ h ↦ h.portal.effects

/-- Two screens side by side. -/
def twoScreens : List (Position × Int32 × Int32) := [((0, 0), 1920, 1080), ((1920, 0), 1920, 1080)]

def windowAt (p : Position) : SwapchainInfo :=
  { format := 44, width := 1920, height := 1080, imageCount := 2, candidateModifiers := [0]
    geometry := some p }

/-- A present for which every driver call succeeds. -/
def presentAll (swapchain : UInt64) : PlacementLabel :=
  .present 0 swapchain 0
    { queueFamilyKnown := true, createSlot := some (1, 7680, 0), fenceStatus := .success
      fenceWait := true, resetFences := true, resetCommandBuffer := true
      beginCommandBuffer := true, endCommandBuffer := true, queueSubmit := true
      semaphoreFd := none, memoryFd := some 7 }

/-- Both windows are shown, and the first is recreated where it was. -/
theorem framesInPlace_recreated :
    Always placementStep FramesInPlace (.initial true true true twoScreens)
      [.register 0 5 (windowAt (0, 0)), .register 0 6 (windowAt (1920, 0)), presentAll 5,
        presentAll 6, .receive true, .receive true, .teardown 0 5 fun _ ↦ true,
        .register 0 7 (windowAt (0, 0)), presentAll 7, .receive true, .frameDone 0] :=
  framesInPlace_of_reuse true true true twoScreens (by decide +kernel) (by decide +kernel)

/-- The first window is destroyed and one on the second screen takes over its
channel. -/
def movedWindow : List PlacementLabel :=
  [.register 0 5 (windowAt (0, 0)), presentAll 5, .receive true, .teardown 0 5 fun _ ↦ true,
    .register 0 6 (windowAt (1920, 0)), presentAll 6, .receive true, .frameDone 0]

/-- The window of the second screen is shown on the first. -/
theorem movedWindow_misplaced :
    Guarded placementStep WindowsOnOutputs (.initial true true true twoScreens) movedWindow ∧
      ∃ s, exec placementStep (.initial true true true twoScreens) movedWindow = some s ∧
        .attach 0 0 (some (1920, 0)) 1920 1080 ∈ s.portal.effects ∧ ¬ FramesInPlace s :=
  ⟨by decide +kernel, _, rfl, by decide +kernel, by decide +kernel⟩

end Wallpiper.Portal
