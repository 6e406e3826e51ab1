import Wallpiper.Foundations.Runs
import Wallpiper.Portal.OutputSteps

/-!
# Channels bound to outputs

Outputs are bound to different channels below the maximum and keep them until
DETACH, and the slots of an output belong to its channel.  A frame finds its
slot by this alone.
-/

namespace Wallpiper.Portal

open Foundations Capture

variable {β : Type*}

/-- The channel is below the maximum, and a slot in use at index `j` is the
`j`-th wire slot of it. -/
structure OutputBinding (out : WlOutput β) : Prop where
  bounded : ∀ channel, out.boundChannel = some channel → channel.toNat < wpWlMaxCaptureChannels
  slots : ∀ j slot, out.slots j = some slot →
    ∃ channel, out.boundChannel = some channel ∧
      slot.slot.toNat = wpWlCaptureSlotCount * channel.toNat + j.val

structure BindingSound (st : WlState β) : Prop where
  outputs : ∀ out ∈ st.outputs, OutputBinding out
  apart : ChannelsApart st

def KeepsBindings (st st' : WlState β) : Prop :=
  ∀ (i : ℕ) (out : WlOutput β) (channel : UInt32),
    st.outputs[i]? = some out → out.boundChannel = some channel →
      ∃ out', st'.outputs[i]? = some out' ∧ out'.boundChannel = some channel

def AllReleased (st : WlState β) : Prop :=
  ∀ out ∈ st.outputs, out.boundChannel = none ∧ ∀ j, out.slots j = none

/-- Bindings are sound, DETACH removes all of them and every other step keeps
them. -/
structure BindingInvariant (st : WlState β) : Prop where
  sound : BindingSound st
  detach : ∀ st', wlStep st .detach = some st' → AllReleased st'
  keeps : ∀ l st', l ≠ .detach → wlStep st l = some st' → KeepsBindings st st'

/-! ## The code of one output -/

theorem toNat_channelOf (wireSlot : UInt32) :
    wireSlot.toNat =
      wpWlCaptureSlotCount * (channelOf wireSlot).toNat + (localIdx wireSlot).val := by
  have hdiv : (channelOf wireSlot).toNat = wireSlot.toNat / 3 := by
    rw [channelOf, UInt32.toNat_div]
    rfl
  rw [hdiv, localIdx]
  exact (Nat.div_add_mod _ 3).symm

theorem OutputBinding.display {out out' : WlOutput β} (h : OutputBinding out)
    (hdisplay : SameButDisplay out out') : OutputBinding out' := by
  obtain ⟨_, _, _, _, rfl⟩ := hdisplay
  exact ⟨h.bounded, h.slots⟩

theorem OutputBinding.setCurrentSource {out : WlOutput β} (h : OutputBinding out) (shm : Bool)
    (source : WlSource) : OutputBinding (wpWlSetCurrentSource shm out source).1 := by
  have hset : OutputBinding { out with currentSource := some source } := ⟨h.bounded, h.slots⟩
  exact hset.display (wpWlSetCurrentSource_display shm source out).1

/-- One slot of the output is emptied or filled with its wire slot, on the
channel that the output is bound to or becomes bound to. -/
theorem OutputBinding.putSlot {out : WlOutput β} (h : OutputBinding out) {wireSlot : UInt32}
    (hlt : channelOf wireSlot < 4)
    (hfree : out.boundChannel = some (channelOf wireSlot) ∨ out.boundChannel = none)
    {slot : Option (WlSlot β)} (hslot : ∀ s, slot = some s → s.slot = wireSlot) :
    OutputBinding { out with
      boundChannel := some (channelOf wireSlot)
      slots := Function.update out.slots (localIdx wireSlot) slot } := by
  refine ⟨?_, ?_⟩
  · intro channel hchannel
    obtain rfl := Option.some.inj hchannel
    exact UInt32.lt_iff_toNat_lt.mp hlt
  · intro j s hs
    refine ⟨channelOf wireSlot, rfl, ?_⟩
    by_cases hj : j = localIdx wireSlot
    · subst hj
      have hnew : slot = some s := by simpa using hs
      rw [hslot s hnew]
      exact toNat_channelOf wireSlot
    · have hold : out.slots j = some s := by simpa [hj] using hs
      obtain ⟨channel, hchannel, heq⟩ := h.slots j s hold
      rcases hfree with hbound | hnone
      · obtain rfl := Option.some.inj (hbound.symm.trans hchannel)
        exact heq
      · exact absurd (hnone.symm.trans hchannel) (by simp)

theorem OutputBinding.storeBuf {out : WlOutput β} (h : OutputBinding out) (shm : Bool)
    {event : CaptureEvent} (fd : ℤ) (imported : Option β) (hlt : channelOf event.slot < 4)
    (hfree : out.boundChannel = some (channelOf event.slot) ∨ out.boundChannel = none) :
    OutputBinding (storeBuf shm event fd imported out).1 ∧
      (Portal.storeBuf shm event fd imported out).1.boundChannel =
        some (channelOf event.slot) := by
  cases imported with
  | none =>
      rw [(storeBuf_none shm event fd out).1]
      exact ⟨h.putSlot hlt hfree fun s hs ↦ absurd hs (by simp), rfl⟩
  | some buffer =>
      have hput : OutputBinding { out with
          boundChannel := some (channelOf event.slot)
          slots := Function.update out.slots (localIdx event.slot)
            (some ⟨event.slot, buffer, fd, event.width, event.height⟩) } :=
        h.putSlot hlt hfree fun s hs ↦ Option.some.inj hs ▸ rfl
      have hdisplay := (storeBuf_some shm event fd buffer out).1
      have hset : OutputBinding { out with
          boundChannel := some (channelOf event.slot)
          slots := Function.update out.slots (localIdx event.slot)
            (some ⟨event.slot, buffer, fd, event.width, event.height⟩)
          currentSource := some (.slot event.slot) } := ⟨hput.bounded, hput.slots⟩
      constructor
      · exact hset.display hdisplay
      · obtain ⟨_, _, _, _, heq⟩ := hdisplay
        rw [heq]

/-! ## One step -/

theorem detach_released (st : WlState β) : AllReleased (wpWlDetach st) := by
  intro out hout
  obtain ⟨out₀, _, rfl⟩ := List.mem_map.mp hout
  exact ⟨rfl, fun _ ↦ rfl⟩

theorem AllReleased.sound {st : WlState β} (h : AllReleased st) : BindingSound st := by
  constructor
  · intro out hout
    obtain ⟨hbound, hslots⟩ := h out hout
    constructor
    · intro channel hchannel
      exact absurd (hbound.symm.trans hchannel) (by simp)
    · intro j slot hslot
      exact absurd ((hslots j).symm.trans hslot) (by simp)
  · intro i k out out' channel hout _ hchannel
    exact absurd ((h out (List.mem_of_getElem? hout)).1.symm.trans hchannel) (by simp)

/-- Code of one output that keeps the output's binding, or binds it to a
channel that nobody is bound to. -/
theorem BindingSound.updateOutput {st : WlState β} (h : BindingSound st) {i : ℕ}
    {f : WlOutput β → WlOutput β × List (WlEffect β)}
    (hf : ∀ out, st.outputs[i]? = some out → OutputBinding (f out).1 ∧
      ((f out).1.boundChannel = out.boundChannel ∨
        out.boundChannel = none ∧ ∀ channel, (f out).1.boundChannel = some channel →
          findOutputForChannel st.outputs channel = none)) :
    BindingSound (Portal.updateOutput st i f) ∧
      KeepsBindings st (Portal.updateOutput st i f) := by
  refine ⟨⟨?_, ?_⟩, ?_⟩
  · intro out' hmem
    obtain ⟨k, hout'⟩ := List.mem_iff_getElem?.mp hmem
    rw [updateOutput_getElem?] at hout'
    split at hout'
    · rename_i hk
      subst hk
      obtain ⟨out, hout, rfl⟩ := Option.map_eq_some_iff.mp hout'
      exact (hf out hout).1
    · exact h.outputs out' (List.mem_of_getElem? hout')
  · apply h.apart.updateOutput
    intro out channel hout hchannel
    rcases (hf out hout).2 with hsame | ⟨_, hnew⟩
    · exact .inl (hsame.symm.trans hchannel)
    · exact .inr (hnew channel hchannel)
  · intro k out channel hout hchannel
    rw [updateOutput_getElem?]
    split
    · rename_i hk
      subst hk
      rw [hout]
      refine ⟨_, rfl, ?_⟩
      rcases (hf out hout).2 with hsame | ⟨hnone, _⟩
      · exact hsame.trans hchannel
      · exact absurd (hnone.symm.trans hchannel) (by simp)
    · exact ⟨out, hout, hchannel⟩

theorem KeepsBindings.of_outputs {st st' : WlState β} (h : st'.outputs = st.outputs) :
    KeepsBindings st st' := by
  intro i out channel hout hchannel
  exact ⟨out, by rw [h, hout], hchannel⟩

theorem BindingSound.handleBuf {st : WlState β} (h : BindingSound st) (event : CaptureEvent)
    (fd : ℤ) (imported : Option β) :
    BindingSound (Portal.handleBuf st event fd imported) ∧
      KeepsBindings st (Portal.handleBuf st event fd imported) := by
  have hdropped : BindingSound { st with effects := st.effects ++ [.closeFd fd] } ∧
      KeepsBindings st { st with effects := st.effects ++ [.closeFd fd] } :=
    ⟨⟨h.outputs, h.apart⟩, .of_outputs rfl⟩
  unfold Portal.handleBuf
  split
  · exact hdropped
  · rename_i hlt
    split
    · exact hdropped
    · rename_i i hi
      apply h.updateOutput
      intro out hout
      have hout' := h.outputs out (List.mem_of_getElem? hout)
      have htarget := outputForBuf_eq_some hi hout
      obtain ⟨hsound, hbound⟩ := hout'.storeBuf st.shm fd
        (if st.dmabuf then imported else none) (UInt32.not_le.mp hlt)
        (htarget.imp_right And.left)
      refine ⟨hsound, ?_⟩
      rcases htarget with hown | ⟨hnone, hnobody⟩
      · exact .inl (hbound.trans hown.symm)
      · refine .inr ⟨hnone, ?_⟩
        intro channel hchannel
        obtain rfl := Option.some.inj (hbound.symm.trans hchannel)
        exact hnobody

theorem BindingSound.setCurrentSource {st : WlState β} (h : BindingSound st) (i : ℕ)
    (source : WlSource) (shown : WlOutput β → Bool) :
    BindingSound (Portal.updateOutput st i fun out ↦
        if shown out then wpWlSetCurrentSource st.shm out source else (out, [])) ∧
      KeepsBindings st (Portal.updateOutput st i fun out ↦
        if shown out then wpWlSetCurrentSource st.shm out source else (out, [])) := by
  apply h.updateOutput
  intro out hout
  have hsound := h.outputs out (List.mem_of_getElem? hout)
  split
  · refine ⟨hsound.setCurrentSource st.shm source, .inl ?_⟩
    obtain ⟨_, _, _, _, heq⟩ := (wpWlSetCurrentSource_display st.shm source out).1
    rw [heq]
  · exact ⟨hsound, .inl rfl⟩

/-- Code that leaves the binding and the slots of an output alone. -/
theorem BindingSound.modifyOutput {st : WlState β} (h : BindingSound st) (i : ℕ)
    {f : WlOutput β → WlOutput β}
    (hf : ∀ out : WlOutput β,
      (f out).boundChannel = out.boundChannel ∧ (f out).slots = out.slots) :
    BindingSound (Portal.modifyOutput st i f) ∧
      KeepsBindings st (Portal.modifyOutput st i f) := by
  apply h.updateOutput
  intro out hout
  have hsound := h.outputs out (List.mem_of_getElem? hout)
  obtain ⟨hbound, hslots⟩ := hf out
  refine ⟨⟨?_, ?_⟩, .inl hbound⟩
  · intro channel hchannel
    exact hsound.bounded channel (hbound.symm.trans hchannel)
  · intro j slot hslot
    rw [hbound]
    exact hsound.slots j slot (hslots ▸ hslot)

theorem BindingSound.addOutput {st : WlState β} (h : BindingSound st) :
    BindingSound (wpWlAddOutput st) ∧ KeepsBindings st (wpWlAddOutput st) := by
  unfold wpWlAddOutput
  split
  · exact ⟨h, .of_outputs rfl⟩
  · refine ⟨⟨?_, ?_⟩, ?_⟩
    · intro out hout
      rcases List.mem_append.mp hout with hout | hout
      · exact h.outputs out hout
      · obtain rfl := List.mem_singleton.mp hout
        exact ⟨fun _ hc ↦ absurd hc (by simp [WlOutput.zero]),
          fun _ _ hs ↦ absurd hs (by simp [WlOutput.zero])⟩
    · -- a bound output is not the new one
      have hold : ∀ (k : ℕ) (out : WlOutput β) (channel : UInt32),
          (st.outputs ++ [WlOutput.zero])[k]? = some out →
          out.boundChannel = some channel → st.outputs[k]? = some out := by
        intro k out channel hout hchannel
        by_cases hk : k < st.outputs.length
        · rwa [List.getElem?_append_left hk] at hout
        · rw [List.getElem?_append_right (Nat.le_of_not_lt hk)] at hout
          obtain rfl := List.mem_singleton.mp (List.mem_of_getElem? hout)
          exact absurd hchannel (by simp [WlOutput.zero])
      intro i k out out' channel hout hout' hchannel hchannel'
      exact h.apart i k out out' channel (hold i out channel hout hchannel)
        (hold k out' channel hout' hchannel') hchannel hchannel'
    · intro i out channel hout hchannel
      refine ⟨out, ?_, hchannel⟩
      rw [List.getElem?_append_left (List.getElem?_eq_some_iff.mp hout).1, hout]

/-- Every step but DETACH keeps the bindings. -/
theorem BindingSound.step {st st' : WlState β} {l : WlLabel β} (h : BindingSound st)
    (hl : l ≠ .detach) (hstep : wlStep st l = some st') :
    BindingSound st' ∧ KeepsBindings st st' := by
  cases l with
  | capture event imported =>
      obtain rfl := Option.some.inj hstep
      cases htag : event.tag with
      | buf =>
          simp only [wpWlHandleCaptureEvent, htag]
          have hclosed : BindingSound
              { st with effects := st.effects ++ (event.fds.drop 1).map .closeFd } :=
            ⟨h.outputs, h.apart⟩
          exact hclosed.handleBuf event _ imported
      | frame =>
          simp only [wpWlHandleCaptureEvent, handleFrame, htag]
          split
          · exact ⟨⟨h.outputs, h.apart⟩, .of_outputs rfl⟩
          · have hclosed : BindingSound
                { st with effects := st.effects ++ (event.fds.take 1).map .closeFd } :=
              ⟨h.outputs, h.apart⟩
            exact hclosed.setCurrentSource _ _ _
      | shm =>
          simp only [wpWlHandleCaptureEvent, handleShm, htag]
          split
          · exact ⟨⟨h.outputs, h.apart⟩, .of_outputs rfl⟩
          · exact h.setCurrentSource 0 _ fun _ ↦ true
  | detach => exact absurd rfl hl
  | frameDone i =>
      obtain ⟨_, _, _, rfl⟩ := wlStep_frameDone hstep
      apply h.updateOutput
      intro out hout
      have hsound := h.outputs out (List.mem_of_getElem? hout)
      have hdisplay := (wpWlRefreshBuffer_display st.shm
        { out with pendingCallbacks := out.pendingCallbacks - 1 }).1
      refine ⟨OutputBinding.display ⟨hsound.bounded, hsound.slots⟩ hdisplay, .inl ?_⟩
      obtain ⟨_, _, _, _, heq⟩ := hdisplay
      rw [frameCallbackDone, heq]
  | configure i width height =>
      obtain rfl := wlStep_configure hstep
      exact h.modifyOutput i fun _ ↦ ⟨rfl, rfl⟩
  | addOutput =>
      obtain rfl := Option.some.inj hstep
      exact h.addOutput
  | geometry i x y =>
      obtain rfl := Option.some.inj hstep
      exact h.modifyOutput i fun _ ↦ ⟨rfl, rfl⟩
  | mode i current width height =>
      obtain rfl := Option.some.inj hstep
      apply h.modifyOutput i
      intro out
      unfold outputMode
      split
      · exact ⟨rfl, rfl⟩
      · exact ⟨rfl, rfl⟩
  | done i =>
      obtain rfl := Option.some.inj hstep
      apply h.modifyOutput i
      intro out
      unfold outputDone wpWlOutputReady
      split
      · exact ⟨rfl, rfl⟩
      · exact ⟨rfl, rfl⟩

theorem BindingSound.invariant {st : WlState β} (h : BindingSound st) : BindingInvariant st := by
  refine ⟨h, ?_, ?_⟩
  · intro st' hstep
    obtain rfl := Option.some.inj hstep
    exact detach_released st
  · intro l st' hl hstep
    exact (h.step hl hstep).2

/-! ## Runs -/

/-- In every reachable state the bindings are sound, and only DETACH changes
one. -/
theorem binding_always (dmabuf viewporter shm : Bool) (ls : List (WlLabel β)) :
    Always wlStep BindingInvariant (WlState.initial dmabuf viewporter shm) ls := by
  have hinitial : BindingSound (WlState.initial (β := β) dmabuf viewporter shm) :=
    AllReleased.sound fun _ hout ↦ absurd hout List.not_mem_nil
  have hsound : Always wlStep BindingSound (WlState.initial dmabuf viewporter shm) ls := by
    apply always_of_step ?_ hinitial
    intro st l st' h hstep
    by_cases hl : l = .detach
    · subst hl
      obtain rfl := Option.some.inj hstep
      exact (detach_released st).sound
    · exact (h.step hl hstep).1
  exact hsound.mono fun _ h ↦ h.invariant

end Wallpiper.Portal
