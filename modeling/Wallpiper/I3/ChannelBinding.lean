import Wallpiper.Foundations.KeyedLists
import Wallpiper.I3.Resources

/-!
# Channels bound to the outputs of the i3 portal

Outputs are bound to different channels below the maximum and keep them until
DETACH.  The slots of an output and its current source belong to its channel,
so what is copied into a window is an image of that channel or the SHM image
of that output, and a frame of a slot in use is always shown.
-/

namespace Wallpiper.I3

open Capture Foundations

/-- The channel is below the maximum, a slot in use at index `j` is the `j`-th
wire slot of it, and a slot that is shown is one of its wire slots. -/
structure OutputBinding (out : I3Output) : Prop where
  bounded : ∀ channel, out.boundChannel = some channel → channel.toNat < wpI3MaxCaptureChannels
  slots : ∀ j slot, out.slots j = some slot →
    localIdx slot.slot = j ∧ out.boundChannel = some (channelOf slot.slot)
  source : ∀ wireSlot, out.currentSource = some (.slot wireSlot) →
    out.boundChannel = some (channelOf wireSlot)

structure BindingSound (st : I3State) : Prop where
  outputs : ∀ out ∈ st.outputs, OutputBinding out
  apart : KeysApart I3Output.boundChannel st.outputs

def KeepsBindings (st st' : I3State) : Prop :=
  ∀ (i : ℕ) (out : I3Output) (channel : UInt32),
    st.outputs[i]? = some out → out.boundChannel = some channel →
      ∃ out', st'.outputs[i]? = some out' ∧ out'.boundChannel = some channel

/-- The image of a slot of the output or its SHM image, in full size. -/
def ShownOn (out : I3Output) (pixmap window : ℕ) (width height : UInt16) : Prop :=
  out.window = window ∧
    ((∃ slot, out.slots (localIdx slot.slot) = some slot ∧ slot.pixmap = pixmap ∧
        slot.width.toUInt16 = width ∧ slot.height.toUInt16 = height) ∨
      ∃ shm, out.currentShmPixmap = some shm ∧ shm.pixmap = pixmap ∧
        shm.width.toUInt16 = width ∧ shm.height.toUInt16 = height)

/-- Whatever is copied into a window belongs to the output of that window. -/
def ShowsOwn (st : I3State) (effects : List I3Effect) : Prop :=
  ∀ pixmap window width height, .copyArea pixmap window width height ∈ effects →
    ∃ out ∈ st.outputs, ShownOn out pixmap window width height

def AllReleased (st : I3State) : Prop :=
  ∀ out ∈ st.outputs, out.boundChannel = none ∧ out.currentSource = none ∧
    outputResources out = []

/-- Bindings are sound, DETACH removes them and every other step keeps them.
A window shows only what belongs to its output, and a frame of a slot in use
is shown. -/
structure DisplaySound (st : I3State) : Prop where
  sound : BindingSound st
  detach : AllReleased (I3.detach st).1
  keeps : ∀ l st' effects, l ≠ .detach → handleLabel st l = some (st', effects) →
    KeepsBindings st st'
  shows : ∀ l st' effects, handleLabel st l = some (st', effects) → ShowsOwn st' effects
  frame : ∀ wireSlot i out slot,
    findOutputForChannel st.outputs (channelOf wireSlot) = some i → st.outputs[i]? = some out →
      out.slots (localIdx wireSlot) = some slot →
        .copyArea slot.pixmap out.window slot.width.toUInt16 slot.height.toUInt16 ∈
          (handleFrame st wireSlot).2

/-! ## The code of one output -/

/-- Code that leaves its output soundly bound to `bound` and shows what is
the output's own. -/
structure LeavesBound (bound : Option UInt32) (result : I3Output × List I3Effect) : Prop where
  binding : OutputBinding result.1
  channel : result.1.boundChannel = bound
  shows : ∀ pixmap window width height, .copyArea pixmap window width height ∈ result.2 →
    ShownOn result.1 pixmap window width height

theorem shownOn_of_shownPixmap {out : I3Output} (h : OutputBinding out) {pixmap : ℕ}
    {width height : UInt32} (hshown : shownPixmap out = some (pixmap, width, height)) :
    ShownOn out pixmap out.window width.toUInt16 height.toUInt16 := by
  refine ⟨rfl, ?_⟩
  unfold shownPixmap at hshown
  split at hshown
  · exact absurd hshown (by simp)
  · split at hshown
    · exact absurd hshown (by simp)
    · rename_i slot hslot
      split at hshown
      · exact absurd hshown (by simp)
      · obtain ⟨rfl, hsize⟩ := Prod.mk.inj (Option.some.inj hshown)
        obtain ⟨rfl, rfl⟩ := Prod.mk.inj hsize
        exact .inl ⟨slot, (h.slots _ slot hslot).1 ▸ hslot, rfl, rfl, rfl⟩
  · obtain ⟨shm, hshm, heq⟩ := Option.map_eq_some_iff.mp hshown
    obtain ⟨rfl, hsize⟩ := Prod.mk.inj heq
    obtain ⟨rfl, rfl⟩ := Prod.mk.inj hsize
    exact .inr ⟨shm, hshm, rfl, rfl, rfl⟩

theorem shows_refreshBuffer {out : I3Output} (h : OutputBinding out) (overlay : Bool)
    {pixmap window : ℕ} {width height : UInt16}
    (hmem : .copyArea pixmap window width height ∈ refreshBuffer overlay out) :
    ShownOn out pixmap window width height := by
  unfold refreshBuffer at hmem
  split at hmem
  · exact absurd hmem List.not_mem_nil
  · rename_i p w' h' hshown
    rcases List.mem_cons.mp hmem with heq | hmem
    · obtain ⟨rfl, rfl, rfl, rfl⟩ := I3Effect.copyArea.inj heq
      exact shownOn_of_shownPixmap h hshown
    · cases overlay <;> simp [drawDebugOverlay] at hmem

theorem leavesBound_setCurrentSource {out : I3Output} (h : OutputBinding out) (overlay : Bool)
    (source : I3Source)
    (hsource : ∀ wireSlot, source = .slot wireSlot →
      out.boundChannel = some (channelOf wireSlot)) :
    LeavesBound out.boundChannel (setCurrentSource overlay out source) := by
  have hset : OutputBinding { out with currentSource := some source } :=
    ⟨h.bounded, h.slots, fun wireSlot heq ↦ hsource wireSlot (Option.some.inj heq)⟩
  exact ⟨hset, rfl, fun _ _ _ _ hmem ↦ shows_refreshBuffer hset overlay hmem⟩

theorem releaseSlot_fst (out : I3Output) (j : Fin wpI3CaptureSlotCount) :
    (releaseSlot out j).1 = { out with slots := Function.update out.slots j none } := by
  unfold releaseSlot
  split
  · rename_i hslot
    rw [← hslot, Function.update_eq_self]
  · rfl

/-- One slot of the output is emptied or filled with its wire slot, on the
channel that the output is bound to or becomes bound to. -/
theorem OutputBinding.putSlot {out : I3Output} (h : OutputBinding out) {wireSlot : UInt32}
    (hlt : channelOf wireSlot < 4)
    (hfree : out.boundChannel = some (channelOf wireSlot) ∨ out.boundChannel = none)
    {slot : Option I3Slot} (hslot : ∀ s, slot = some s → s.slot = wireSlot) :
    OutputBinding { out with
      boundChannel := some (channelOf wireSlot)
      slots := Function.update out.slots (localIdx wireSlot) slot } := by
  have hkept : ∀ channel, out.boundChannel = some channel → channel = channelOf wireSlot := by
    intro channel hchannel
    rcases hfree with hbound | hnone
    · exact Option.some.inj (hchannel.symm.trans hbound)
    · exact absurd (hnone.symm.trans hchannel) (by simp)
  refine ⟨?_, ?_, ?_⟩
  · intro channel hchannel
    obtain rfl := Option.some.inj hchannel
    exact UInt32.lt_iff_toNat_lt.mp hlt
  · intro j s hs
    by_cases hj : j = localIdx wireSlot
    · subst hj
      have hnew : slot = some s := by simpa using hs
      rw [hslot s hnew]
      exact ⟨rfl, rfl⟩
    · have hold : out.slots j = some s := by simpa [hj] using hs
      obtain ⟨hidx, hbound⟩ := h.slots j s hold
      exact ⟨hidx, congrArg some (hkept _ hbound).symm⟩
  · intro shown hshown
    exact congrArg some (hkept _ (h.source shown hshown)).symm

theorem leavesBound_storeBuf {out : I3Output} (h : OutputBinding out) (overlay : Bool)
    {event : CaptureEvent} (fd : ℤ) (answers : XAnswers) (hlt : channelOf event.slot < 4)
    (hfree : out.boundChannel = some (channelOf event.slot) ∨ out.boundChannel = none) :
    LeavesBound (some (channelOf event.slot)) (storeBuf overlay event fd answers out) := by
  have hemptied : (emptiedFor event out).1 = { out with
      boundChannel := some (channelOf event.slot)
      slots := Function.update out.slots (localIdx event.slot) none } := releaseSlot_fst _ _
  have hfreed : ∀ pixmap window width height,
      .copyArea pixmap window width height ∉ (emptiedFor event out).2 ++
        [importRequest event fd answers (emptiedFor event out).1] := by
    intro pixmap window width height hmem
    unfold emptiedFor releaseSlot importRequest at hmem
    split at hmem <;> simp at hmem
  cases himported : answers.imported with
  | false =>
      rw [storeBuf_of_failed overlay event fd himported]
      refine ⟨?_, by rw [hemptied], fun p w a b hmem ↦ absurd hmem (hfreed p w a b)⟩
      rw [hemptied]
      exact h.putSlot hlt hfree fun s hs ↦ absurd hs (by simp)
  | true =>
      have hfilled : filledFor event answers out = { out with
          boundChannel := some (channelOf event.slot)
          slots := Function.update out.slots (localIdx event.slot)
            (some ⟨event.slot, answers.pixmap, event.width, event.height⟩) } := by
        rw [filledFor, hemptied, Function.update_idem]
      have hput : OutputBinding (filledFor event answers out) := by
        rw [hfilled]
        exact h.putSlot hlt hfree fun s hs ↦ Option.some.inj hs ▸ rfl
      have hbound : (filledFor event answers out).boundChannel = some (channelOf event.slot) := by
        rw [hfilled]
      obtain ⟨hbinding, hchannel, hshows⟩ := leavesBound_setCurrentSource hput overlay
        (.slot event.slot) fun w hw ↦ I3Source.slot.inj hw ▸ hbound
      rw [storeBuf_of_imported overlay event fd himported]
      refine ⟨hbinding, hchannel.trans hbound, ?_⟩
      intro pixmap window width height hmem
      rcases List.mem_append.mp hmem with hmem | hmem
      · exact absurd (List.mem_append_left _ hmem) (hfreed _ _ _ _)
      · rcases List.mem_cons.mp hmem with heq | hmem
        · exact absurd heq (by simp [importRequest])
        · exact hshows _ _ _ _ hmem

theorem leavesBound_storeShm {out : I3Output} (h : OutputBinding out) (overlay : Bool)
    (event : CaptureEvent) (fd : ℤ) (answers : XAnswers) :
    LeavesBound out.boundChannel (storeShm overlay event fd answers out) := by
  unfold storeShm
  split
  · exact ⟨h, rfl, fun _ _ _ _ hmem ↦ by simp at hmem⟩
  · split
    · exact ⟨h, rfl, fun _ _ _ _ hmem ↦ by simp at hmem⟩
    · split
      · exact ⟨h, rfl, fun _ _ _ _ hmem ↦ by simp at hmem⟩
      · have hstored : OutputBinding { out with
            currentShmPixmap := some ⟨answers.pixmap, answers.seg, event.width, event.height⟩ } :=
          ⟨h.bounded, h.slots, h.source⟩
        obtain ⟨hbinding, hchannel, hshows⟩ :=
          leavesBound_setCurrentSource hstored overlay .shm
            fun w hw ↦ absurd hw (by simp)
        refine ⟨hbinding, hchannel, ?_⟩
        intro pixmap window width height hmem
        rcases List.mem_append.mp hmem with hmem | hmem
        · unfold releaseShm at hmem
          split at hmem <;> simp at hmem
        · exact hshows _ _ _ _ hmem

/-! ## One step -/

theorem findOutputForChannel_eq_none {outputs : List I3Output} {channel : UInt32}
    (h : findOutputForChannel outputs channel = none) {out : I3Output} (hout : out ∈ outputs) :
    out.boundChannel ≠ some channel := by
  intro hbound
  have hnot := List.findIdx?_eq_none_iff.mp h out hout
  rw [hbound, beq_self_eq_true] at hnot
  exact absurd hnot (by simp)

/-- Sound before and after, with the bindings kept and only own images
shown. -/
structure StaysSound (st : I3State) (result : I3State × List I3Effect) : Prop where
  sound : BindingSound result.1
  keeps : KeepsBindings st result.1
  shows : ShowsOwn result.1 result.2

theorem staysSound_silent {st : I3State} (h : BindingSound st) {effects : List I3Effect}
    (hnone : ∀ pixmap window width height, .copyArea pixmap window width height ∉ effects) :
    StaysSound st (st, effects) :=
  ⟨h, fun _ out _ hout hchannel ↦ ⟨out, hout, hchannel⟩,
    fun _ _ _ _ hmem ↦ absurd hmem (hnone _ _ _ _)⟩

theorem BindingSound.updateOutput {st : I3State} (h : BindingSound st) {i : ℕ} {out : I3Output}
    (hout : st.outputs[i]? = some out) {bound : Option UInt32}
    {f : I3Output → I3Output × List I3Effect} (hf : LeavesBound bound (f out))
    (hbound : bound = out.boundChannel ∨ out.boundChannel = none ∧
      ∀ channel, bound = some channel → findOutputForChannel st.outputs channel = none) :
    StaysSound st (I3.updateOutput st i f) := by
  obtain ⟨hlt, _⟩ := List.getElem?_eq_some_iff.mp hout
  have hself : (st.outputs.set i (f out).1)[i]? = some (f out).1 := List.getElem?_set_self hlt
  simp only [I3.updateOutput, hout]
  refine ⟨⟨?_, ?_⟩, ?_, ?_⟩
  · intro out' hout'
    rcases List.mem_or_eq_of_mem_set hout' with hold | rfl
    · exact h.outputs out' hold
    · exact hf.binding
  · apply h.apart.set hout
    intro channel hchannel
    rw [hf.channel] at hchannel
    rcases hbound with rfl | ⟨_, hnew⟩
    · exact .inl hchannel
    · exact .inr fun out' hout' ↦ findOutputForChannel_eq_none (hnew channel hchannel) hout'
  · intro k out' channel hout' hchannel
    by_cases hk : k = i
    · subst hk
      obtain rfl := Option.some.inj (hout.symm.trans hout')
      refine ⟨_, hself, ?_⟩
      rcases hbound with rfl | ⟨hnone, _⟩
      · exact hf.channel.trans hchannel
      · exact absurd (hnone.symm.trans hchannel) (by simp)
    · exact ⟨out', (List.getElem?_set_ne (Ne.symm hk)).trans hout', hchannel⟩
  · intro pixmap window width height hcopy
    exact ⟨_, List.mem_of_getElem? hself, hf.shows _ _ _ _ hcopy⟩

theorem BindingSound.handleBuf {st : I3State} (h : BindingSound st) (event : CaptureEvent)
    (fd : ℤ) (answers : XAnswers) : StaysSound st (handleBuf st event fd answers) := by
  have hdropped : StaysSound st (st, [.closeFd fd]) :=
    staysSound_silent h fun _ _ _ _ ↦ by simp
  unfold I3.handleBuf
  split
  · exact hdropped
  · rename_i hlt
    split
    · exact hdropped
    · rename_i i hi
      obtain ⟨out, hout, htarget⟩ := outputForBuf_eq_some hi
      apply h.updateOutput hout (leavesBound_storeBuf (h.outputs out (List.mem_of_getElem? hout)) _
        fd answers (UInt32.not_le.mp hlt) (htarget.imp_right And.left))
      refine htarget.imp Eq.symm fun hclaimed ↦ ⟨hclaimed.1, ?_⟩
      intro channel hchannel
      exact Option.some.inj hchannel ▸ hclaimed.2

theorem BindingSound.handleShm {st : I3State} (h : BindingSound st) (event : CaptureEvent)
    (fd : ℤ) (answers : XAnswers) : StaysSound st (handleShm st event fd answers) := by
  unfold I3.handleShm
  split
  · exact staysSound_silent h fun _ _ _ _ ↦ by simp
  · rename_i hsome
    obtain ⟨out, outs, houtputs⟩ := List.exists_cons_of_ne_nil hsome
    have hout : st.outputs[0]? = some out := by rw [houtputs, List.getElem?_cons_zero]
    exact h.updateOutput hout
      (leavesBound_storeShm (h.outputs out (List.mem_of_getElem? hout)) _ event fd answers)
      (.inl rfl)

theorem BindingSound.handleFrame {st : I3State} (h : BindingSound st) (wireSlot : UInt32) :
    StaysSound st (handleFrame st wireSlot) := by
  unfold I3.handleFrame
  split
  · exact staysSound_silent h fun _ _ _ _ ↦ List.not_mem_nil
  · rename_i i hi
    obtain ⟨out, hout, hbound⟩ := findOutputForChannel_eq_some hi
    have hout' := h.outputs out (List.mem_of_getElem? hout)
    refine h.updateOutput hout ?_ (.inl rfl)
    split
    · exact leavesBound_setCurrentSource hout' _ (.slot wireSlot)
        fun w hw ↦ I3Source.slot.inj hw ▸ hbound
    · exact ⟨hout', rfl, fun _ _ _ _ hmem ↦ absurd hmem List.not_mem_nil⟩

/-- Closing descriptors first changes nothing. -/
theorem StaysSound.close {st : I3State} {result : I3State × List I3Effect}
    (h : StaysSound st result) (fds : List ℤ) :
    StaysSound st (result.1, fds.map .closeFd ++ result.2) := by
  refine ⟨h.sound, h.keeps, ?_⟩
  intro pixmap window width height hmem
  rcases List.mem_append.mp hmem with hmem | hmem
  · obtain ⟨fd, _, heq⟩ := List.mem_map.mp hmem
    exact absurd heq (by simp)
  · exact h.shows _ _ _ _ hmem

theorem BindingSound.capture {st : I3State} (h : BindingSound st) (event : CaptureEvent)
    (answers : XAnswers) : StaysSound st (handleCaptureEvent st event answers) := by
  unfold handleCaptureEvent
  split
  · exact (h.handleBuf event _ answers).close _
  · exact (h.handleFrame event.slot).close _
  · exact h.handleShm event _ answers

theorem detach_released (st : I3State) : AllReleased (detach st).1 := by
  intro out hout
  obtain ⟨out₀, _, rfl⟩ := List.mem_map.mp hout
  exact ⟨rfl, rfl, rfl⟩

theorem AllReleased.sound {st : I3State} (h : AllReleased st) : BindingSound st := by
  refine ⟨?_, keysApart_of_none fun out hout ↦ (h out hout).1⟩
  intro out hout
  obtain ⟨hbound, hsource, hnone⟩ := h out hout
  refine ⟨?_, ?_, ?_⟩
  · intro channel hchannel
    exact absurd (hbound.symm.trans hchannel) (by simp)
  · intro j slot hslot
    have hheld : slot.resource ∈ outputResources out := by
      apply List.mem_append_left
      exact List.mem_filterMap.mpr ⟨j, List.mem_finRange j, by rw [hslot]; rfl⟩
    exact absurd (hnone ▸ hheld) List.not_mem_nil
  · intro wireSlot hwire
    exact absurd (hsource.symm.trans hwire) (by simp)

theorem BindingSound.displays {st : I3State} (h : BindingSound st) {effects : List I3Effect}
    (hdisplays : Displays st effects) : ShowsOwn st effects := by
  intro pixmap window width height hmem
  rcases hdisplays with rfl | ⟨out, hout, rfl | ⟨overlay, rfl⟩⟩
  · exact absurd hmem List.not_mem_nil
  · simp [drawDebugOverlay] at hmem
  · exact ⟨out, hout, shows_refreshBuffer (h.outputs out hout) overlay hmem⟩

theorem detach_shows (st : I3State) : ShowsOwn (detach st).1 (detach st).2 := by
  intro pixmap window width height hmem
  obtain ⟨out, _, hmem⟩ := List.mem_flatMap.mp hmem
  simp only [detachOutput, releaseShm, List.mem_append, List.mem_map] at hmem
  rcases hmem with (⟨slot, _, heq⟩ | hmem) | hmem
  · exact absurd heq (by simp)
  · split at hmem <;> simp at hmem
  · simp at hmem

theorem BindingSound.label {st st' : I3State} (h : BindingSound st) {l : I3Label}
    {effects : List I3Effect} (hlabel : handleLabel st l = some (st', effects)) :
    BindingSound st' ∧ (l ≠ .detach → KeepsBindings st st') ∧ ShowsOwn st' effects := by
  rcases handleLabel_cases hlabel with
    ⟨event, answers, rfl, heq⟩ | ⟨rfl, heq⟩ | ⟨_, houtputs, hdisplays⟩
  · have hstays := h.capture event answers
    rw [heq] at hstays
    exact ⟨hstays.sound, fun _ ↦ hstays.keeps, hstays.shows⟩
  · obtain ⟨rfl, rfl⟩ := Prod.mk.inj heq
    exact ⟨(detach_released st).sound, fun hne ↦ absurd rfl hne, detach_shows st⟩
  · obtain ⟨outputs, debugEnabled⟩ := st'
    subst houtputs
    exact ⟨⟨h.outputs, h.apart⟩, fun _ _ out _ hout hchannel ↦ ⟨out, hout, hchannel⟩,
      h.displays hdisplays⟩

/-- A slot in use carries its own wire slot, so the check for it never stands
in the way of a frame. -/
theorem BindingSound.frame {st : I3State} (h : BindingSound st) {wireSlot : UInt32} {i : ℕ}
    {out : I3Output} {slot : I3Slot}
    (hfind : findOutputForChannel st.outputs (channelOf wireSlot) = some i)
    (hout : st.outputs[i]? = some out) (hslot : out.slots (localIdx wireSlot) = some slot) :
    .copyArea slot.pixmap out.window slot.width.toUInt16 slot.height.toUInt16 ∈
      (I3.handleFrame st wireSlot).2 := by
  obtain ⟨out', hout', hbound⟩ := findOutputForChannel_eq_some hfind
  obtain rfl := Option.some.inj (hout.symm.trans hout')
  obtain ⟨hidx, hchannel⟩ := (h.outputs out (List.mem_of_getElem? hout)).slots _ slot hslot
  have hwire : slot.slot = wireSlot := by
    have hdiv : channelOf slot.slot = channelOf wireSlot :=
      Option.some.inj (hchannel.symm.trans hbound)
    have hmod : slot.slot.toNat % 3 = wireSlot.toNat % 3 := congrArg Fin.val hidx
    have hquot : slot.slot.toNat / 3 = wireSlot.toNat / 3 := by
      have hnat := congrArg UInt32.toNat hdiv
      simpa [channelOf] using hnat
    apply UInt32.toNat_inj.mp
    omega
  have hshown : shownPixmap { out with currentSource := some (.slot wireSlot) } =
      some (slot.pixmap, slot.width, slot.height) := by
    simp [shownPixmap, hslot, hwire]
  simp only [I3.handleFrame, hfind, I3.updateOutput, hout, hslot, Option.isSome_some, if_true,
    setCurrentSource, refreshBuffer, hshown]
  exact List.mem_cons_self

/-! ## Runs -/

theorem bindingSound_step {s s' : I3System} {l : I3Label} (h : BindingSound s.portal)
    (hstep : i3Step s l = some s') : BindingSound s'.portal := by
  unfold i3Step at hstep
  split at hstep
  · obtain ⟨⟨portal, effects⟩, hlabel, rfl⟩ := Option.map_eq_some_iff.mp hstep
    exact (h.label hlabel).1
  · exact absurd hstep (by simp)

theorem i3_display_sound (screens : List I3Screen) (ls : List I3Label) {s : I3System}
    (h : exec i3Step (I3System.initial screens) ls = some s) : DisplaySound s.portal := by
  have hnew : AllReleased (I3System.initial screens).portal := by
    intro out hout
    obtain ⟨screen, _, rfl⟩ := List.mem_map.mp hout
    exact ⟨rfl, rfl, rfl⟩
  have hsound : BindingSound s.portal :=
    exec_invariant (I := fun s ↦ BindingSound s.portal) (fun _ _ _ ↦ bindingSound_step)
      hnew.sound h
  exact {
    sound := hsound
    detach := detach_released s.portal
    keeps := fun l st' effects hne hlabel ↦ (hsound.label hlabel).2.1 hne
    shows := fun l st' effects hlabel ↦ (hsound.label hlabel).2.2
    frame := fun wireSlot i out slot ↦ hsound.frame }

theorem i3_display_sound_detach :
    ∃ s, exec i3Step (I3System.initial [⟨0, 0, 1920, 1080, 7⟩]) importsAndDetach = some s ∧
      DisplaySound s.portal :=
  ⟨_, rfl, i3_display_sound [⟨0, 0, 1920, 1080, 7⟩] importsAndDetach rfl⟩

end Wallpiper.I3
