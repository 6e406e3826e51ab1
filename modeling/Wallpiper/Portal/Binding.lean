import Wallpiper.Capture.Layer
import Wallpiper.Foundations.Table
import Wallpiper.Portal.OutputSteps

/-!
# Outputs and the windows they show

A buffer is known here by the position of the window it was exported for.  As
long as buffers are announced for one position a channel, and for no position
on more channels than there are outputs at it, every output is bound to a
channel of its own position and shows only windows at it.
-/

namespace Wallpiper.Portal

open Foundations Capture

abbrev Origin : Type := Option Position

/-- A channel and a position that its buffers were announced for. -/
abbrev Announcement : Type := UInt32 × Position

def WlOutput.position {β : Type*} (out : WlOutput β) : Position := (out.x, out.y)

def WlOutput.place {β : Type*} (out : WlOutput β) : Bool × Position := (out.known, out.position)

def WlState.places {β : Type*} (st : WlState β) : List (Bool × Position) :=
  st.outputs.map WlOutput.place

/-- The number of known outputs at a position. -/
def WlState.outputsAt {β : Type*} (st : WlState β) (p : Position) : ℕ := st.places.count (true, p)

def announcedChannels (ann : List Announcement) (p : Position) : Finset UInt32 :=
  ((ann.filter fun a ↦ a.2 = p).map Prod.fst).toFinset

def EffectInPlace : WlEffect Origin → Prop
  | .attach x y buffer _ _ => buffer = some (x, y)
  | _ => True

instance : DecidablePred EffectInPlace := fun e ↦ by
  cases e <;> unfold EffectInPlace <;> infer_instance

structure OutputInPlace (ann : List Announcement) (out : WlOutput Origin) : Prop where
  bound : ∀ channel, out.boundChannel = some channel → (channel, out.position) ∈ ann
  slots : ∀ j slot, out.slots j = some slot → slot.buffer = some out.position

structure PortalInPlace (ann : List Announcement) (st : WlState Origin) : Prop where
  outputs : ∀ out ∈ st.outputs, OutputInPlace ann out
  distinct : ∀ (i k : ℕ) (out out' : WlOutput Origin) (channel : UInt32),
    st.outputs[i]? = some out → st.outputs[k]? = some out' →
      out.boundChannel = some channel → out'.boundChannel = some channel → i = k
  effects : ∀ e ∈ st.effects, EffectInPlace e

/-- Code that leaves an output where it is and shows nothing out of place. -/
structure StaysInPlace (ann : List Announcement) (out : WlOutput Origin)
    (result : WlOutput Origin × List (WlEffect Origin)) : Prop where
  output : OutputInPlace ann result.1
  place : result.1.place = out.place
  effects : ∀ e ∈ result.2, EffectInPlace e

theorem mem_announcedChannels {ann : List Announcement} {p : Position} {channel : UInt32} :
    channel ∈ announcedChannels ann p ↔ (channel, p) ∈ ann := by
  unfold announcedChannels
  rw [List.mem_toFinset, List.mem_map]
  constructor
  · rintro ⟨a, ha, rfl⟩
    obtain ⟨hmem, hp⟩ := List.mem_filter.mp ha
    obtain rfl := of_decide_eq_true hp
    exact hmem
  · intro h
    exact ⟨(channel, p), List.mem_filter.mpr ⟨h, by simp⟩, rfl⟩

theorem PortalInPlace.mono {ann ann' : List Announcement} {st : WlState Origin}
    (h : PortalInPlace ann st) (hsub : ann ⊆ ann') : PortalInPlace ann' st := by
  refine ⟨?_, h.distinct, h.effects⟩
  intro out hout
  exact ⟨fun channel hbound ↦ hsub ((h.outputs out hout).bound channel hbound),
    (h.outputs out hout).slots⟩

/-! ## One output -/

section Output

variable {ann : List Announcement} {out : WlOutput Origin}

theorem staysInPlace_silent (h : OutputInPlace ann out) :
    StaysInPlace ann out (out, []) ∧ (out, ([] : List (WlEffect Origin))).1.boundChannel =
      out.boundChannel :=
  have hstays : StaysInPlace ann out (out, []) := ⟨h, rfl, fun _ he ↦ absurd he List.not_mem_nil⟩
  ⟨hstays, rfl⟩

theorem viewportDestination_inPlace (out : WlOutput Origin) :
    ∀ e ∈ viewportDestination out, EffectInPlace e := by
  intro e he
  unfold viewportDestination at he
  split at he
  · obtain rfl := List.mem_singleton.mp he
    trivial
  · exact absurd he List.not_mem_nil

theorem refresh_staysInPlace (shm : Bool) (h : OutputInPlace ann out) :
    StaysInPlace ann out (wpWlRefreshBuffer shm out) ∧
      (wpWlRefreshBuffer shm out).1.boundChannel = out.boundChannel := by
  unfold wpWlRefreshBuffer
  split
  · exact staysInPlace_silent h
  · split
    · exact staysInPlace_silent h
    · split
      · exact staysInPlace_silent h
      · rename_i slot hslot
        split
        · exact staysInPlace_silent h
        · refine ⟨⟨⟨h.bound, h.slots⟩, rfl, ?_⟩, rfl⟩
          intro e he
          rcases List.mem_cons.mp he with rfl | he
          · exact h.slots _ slot hslot
          · exact viewportDestination_inPlace out e he
    · split
      · exact staysInPlace_silent h
      · refine ⟨⟨⟨h.bound, h.slots⟩, rfl, ?_⟩, rfl⟩
        intro e he
        rcases List.mem_cons.mp he with rfl | he
        · trivial
        · exact viewportDestination_inPlace out e he

theorem setCurrentSource_staysInPlace (shm : Bool) (source : WlSource)
    (h : OutputInPlace ann out) :
    StaysInPlace ann out (wpWlSetCurrentSource shm out source) ∧
      (wpWlSetCurrentSource shm out source).1.boundChannel = out.boundChannel := by
  by_cases hrun : out.frameLoopRunning = true
  · have hkept : OutputInPlace ann { out with currentSource := some source } :=
      ⟨h.bound, h.slots⟩
    rw [wpWlSetCurrentSource_of_running shm source hrun]
    exact ⟨⟨hkept, rfl, fun _ he ↦ absurd he List.not_mem_nil⟩, rfl⟩
  · have hstarted : OutputInPlace ann
        { out with currentSource := some source, frameLoopRunning := true } := ⟨h.bound, h.slots⟩
    obtain ⟨hstays, hbound⟩ := refresh_staysInPlace shm hstarted
    rw [wpWlSetCurrentSource_of_idle shm source (Bool.not_eq_true _ ▸ hrun)]
    exact ⟨⟨hstays.output, hstays.place, hstays.effects⟩, hbound⟩

theorem releaseSlot_staysInPlace (j : Fin wpWlCaptureSlotCount) (h : OutputInPlace ann out) :
    StaysInPlace ann out (releaseSlot out j) ∧
      (releaseSlot out j).1.boundChannel = out.boundChannel := by
  unfold releaseSlot
  split
  · exact staysInPlace_silent h
  · refine ⟨⟨⟨h.bound, ?_⟩, rfl, ?_⟩, rfl⟩
    · intro k slot hslot
      by_cases hk : k = j
      · exact absurd hslot (by simp [hk])
      · exact h.slots k slot (by simpa [hk] using hslot)
    · intro e he
      simp only [List.mem_cons, List.not_mem_nil, or_false] at he
      rcases he with rfl | rfl
      · trivial
      · trivial

/-- A buffer for the output's own position is stored and shown. -/
theorem storeBuf_staysInPlace (shm : Bool) (event : CaptureEvent) (fd : ℤ)
    (imported : Option Origin) (h : OutputInPlace ann out)
    (hann : (channelOf event.slot, out.position) ∈ ann)
    (horigin : ∀ buffer, imported = some buffer → buffer = some out.position) :
    StaysInPlace ann out (storeBuf shm event fd imported out) ∧
      (storeBuf shm event fd imported out).1.boundChannel = some (channelOf event.slot) := by
  have hbinds : OutputInPlace ann { out with boundChannel := some (channelOf event.slot) } := by
    refine ⟨?_, h.slots⟩
    intro channel hchannel
    obtain rfl := Option.some.inj hchannel
    exact hann
  obtain ⟨hreleased, hchannel⟩ := releaseSlot_staysInPlace (localIdx event.slot) hbinds
  cases imported with
  | none =>
      refine ⟨⟨hreleased.output, hreleased.place, ?_⟩, hchannel⟩
      intro e he
      rcases List.mem_append.mp he with he | he
      · exact hreleased.effects e he
      · obtain rfl := List.mem_singleton.mp he
        trivial
  | some buffer =>
      have hstored : OutputInPlace ann { (releaseSlot
          { out with boundChannel := some (channelOf event.slot) } (localIdx event.slot)).1 with
          slots := Function.update (releaseSlot
            { out with boundChannel := some (channelOf event.slot) } (localIdx event.slot)).1.slots
              (localIdx event.slot)
              (some ⟨event.slot, buffer, fd, event.width, event.height⟩) } := by
        refine ⟨hreleased.output.bound, ?_⟩
        intro k slot hslot
        by_cases hk : k = localIdx event.slot
        · have hnew : ⟨event.slot, buffer, fd, event.width, event.height⟩ = slot := by
            simpa [hk] using hslot
          rw [← hnew, horigin buffer rfl]
          exact congrArg some (Prod.mk.inj hreleased.place).2.symm
        · exact hreleased.output.slots k slot (by simpa [hk] using hslot)
      obtain ⟨hshown, hbound⟩ :=
        setCurrentSource_staysInPlace shm (.slot event.slot) hstored
      refine ⟨⟨hshown.output, hshown.place.trans hreleased.place, ?_⟩, hbound.trans hchannel⟩
      intro e he
      rcases List.mem_append.mp he with he | he
      · exact hreleased.effects e he
      · exact hshown.effects e he

end Output

/-! ## The portal -/

section Portal

variable {ann : List Announcement} {st : WlState Origin}

theorem outputAtPosition_eq_some {outputs : List (WlOutput Origin)} {x y : Int32} {i : ℕ}
    (h : outputAtPosition outputs x y = some i) {out : WlOutput Origin}
    (hout : outputs[i]? = some out) : out.position = (x, y) := by
  obtain ⟨hi, hmatch, _⟩ := List.findIdx?_eq_some_iff_getElem.mp h
  obtain ⟨_, rfl⟩ := List.getElem?_eq_some_iff.mp hout
  simp only [Bool.and_eq_true, beq_iff_eq] at hmatch
  exact Prod.ext hmatch.1.2 hmatch.2

theorem outputAtPosition_ne_none {outputs : List (WlOutput Origin)} {out : WlOutput Origin}
    (hout : out ∈ outputs) {p : Position} (hplace : out.place = (true, p))
    (hfree : out.boundChannel = none) : outputAtPosition outputs p.1 p.2 ≠ none := by
  intro h
  have hnot := List.findIdx?_eq_none_iff.mp h out hout
  obtain ⟨hknown, hposition⟩ := Prod.mk.inj hplace
  have hx : out.x = p.1 := congrArg Prod.fst hposition
  have hy : out.y = p.2 := congrArg Prod.snd hposition
  exact absurd hnot (by simp [hknown, hfree, hx, hy])

theorem places_updateOutput {i : ℕ} {f : WlOutput Origin → WlOutput Origin × List (WlEffect Origin)}
    (hplace : ∀ out, st.outputs[i]? = some out → (f out).1.place = out.place) :
    (updateOutput st i f).places = st.places := by
  apply List.ext_getElem?
  intro k
  simp only [WlState.places, List.getElem?_map, updateOutput_getElem?]
  by_cases hk : k = i
  · subst hk
    rw [if_pos rfl]
    cases hout : st.outputs[k]? with
    | none => rfl
    | some out => exact congrArg some (hplace out hout)
  · rw [if_neg hk]

/-- Code of one output that stays in place keeps the portal in place, if a
channel that it binds is bound to no other output. -/
theorem PortalInPlace.updateOutput (h : PortalInPlace ann st) {i : ℕ}
    {f : WlOutput Origin → WlOutput Origin × List (WlEffect Origin)}
    (hstays : ∀ out, st.outputs[i]? = some out → StaysInPlace ann out (f out))
    (hbinds : ∀ out channel, st.outputs[i]? = some out → (f out).1.boundChannel = some channel →
      out.boundChannel = some channel ∨ findOutputForChannel st.outputs channel = none) :
    PortalInPlace ann (updateOutput st i f) ∧ (Portal.updateOutput st i f).places = st.places := by
  have hdistinct : ChannelsApart (Portal.updateOutput st i f) :=
    ChannelsApart.updateOutput h.distinct hbinds
  refine ⟨⟨?_, hdistinct, ?_⟩, places_updateOutput fun out hout ↦ (hstays out hout).place⟩
  · intro out' hmem
    obtain ⟨k, hout'⟩ := List.mem_iff_getElem?.mp hmem
    rw [updateOutput_getElem?] at hout'
    split at hout'
    · rename_i hk
      subst hk
      obtain ⟨out, hout, rfl⟩ := Option.map_eq_some_iff.mp hout'
      exact (hstays out hout).output
    · exact h.outputs out' (List.mem_of_getElem? hout')
  · intro e he
    rcases updateOutput_effects st i f he with he | ⟨out, hout, he⟩
    · exact h.effects e he
    · exact (hstays out hout).effects e he

theorem PortalInPlace.addEffects (h : PortalInPlace ann st) {effects : List (WlEffect Origin)}
    (heffects : ∀ e ∈ effects, EffectInPlace e) :
    PortalInPlace ann { st with effects := st.effects ++ effects } := by
  refine ⟨h.outputs, h.distinct, ?_⟩
  intro e he
  rcases List.mem_append.mp he with he | he
  · exact h.effects e he
  · exact heffects e he

/-- Some output at the position is free as long as its channels are not more
than its outputs. -/
theorem exists_free_output (h : PortalInPlace ann st) {p : Position} {channel : UInt32}
    (hann : (channel, p) ∈ ann) (hroom : (announcedChannels ann p).card ≤ st.outputsAt p)
    (hunbound : findOutputForChannel st.outputs channel = none) :
    ∃ out ∈ st.outputs, out.place = (true, p) ∧ out.boundChannel = none := by
  have hmem : ∀ out, out ∈ (st.outputs.filter fun out ↦ out.place == (true, p)) ↔
      out ∈ st.outputs ∧ out.place = (true, p) := by
    intro out
    rw [List.mem_filter, beq_iff_eq]
  have hnone : none ∈ (st.outputs.filter fun out ↦ out.place == (true, p)).map
      WlOutput.boundChannel := by
    apply Table.none_mem_of_claims _ _ (mem_announcedChannels.mpr hann)
    · intro hclaim
      obtain ⟨out, hout, hbound⟩ := List.mem_map.mp hclaim
      exact findOutputForChannel_eq_none hunbound ((hmem out).mp hout).1 hbound
    · rw [List.length_map, ← List.countP_eq_length_filter]
      refine hroom.trans (le_of_eq ?_)
      rw [WlState.outputsAt, WlState.places, List.count, List.countP_map]
      rfl
    · rw [List.pairwise_map]
      apply List.Pairwise.filter
      apply List.pairwise_iff_getElem.mpr
      intro i k hi hk hlt
      rw [or_iff_not_imp_left]
      intro hsome heq
      obtain ⟨channel', hchannel'⟩ := Option.ne_none_iff_exists'.mp hsome
      exact absurd (h.distinct i k _ _ channel' (List.getElem?_eq_getElem hi)
        (List.getElem?_eq_getElem hk) hchannel' (heq ▸ hchannel')) hlt.ne
    · intro channel' hclaim
      obtain ⟨out, hout, hbound⟩ := List.mem_map.mp hclaim
      obtain ⟨hmem', hplace⟩ := (hmem out).mp hout
      have hposition : out.position = p := (Prod.mk.inj hplace).2
      exact mem_announcedChannels.mpr (hposition ▸ (h.outputs out hmem').bound channel' hbound)
  obtain ⟨out, hout, hfree⟩ := List.mem_map.mp hnone
  obtain ⟨hmem', hplace⟩ := (hmem out).mp hout
  exact ⟨out, hmem', hplace, hfree⟩

/-- A buffer announced for a position goes to an output at it: the one bound
to its channel, or one that is free. -/
theorem outputForBuf_position (h : PortalInPlace ann st) {event : CaptureEvent}
    (hgeometry : event.hasGeometry = true)
    (hann : (channelOf event.slot, (event.geomX, event.geomY)) ∈ ann)
    (hone : ∀ q, (channelOf event.slot, q) ∈ ann → q = (event.geomX, event.geomY))
    (hroom : (announcedChannels ann (event.geomX, event.geomY)).card ≤
      st.outputsAt (event.geomX, event.geomY))
    {i : ℕ} (hi : outputForBuf st.outputs event = some i) {out : WlOutput Origin}
    (hout : st.outputs[i]? = some out) :
    out.position = (event.geomX, event.geomY) ∧
      (out.boundChannel = some (channelOf event.slot) ∨
        findOutputForChannel st.outputs (channelOf event.slot) = none) := by
  unfold outputForBuf at hi
  cases hfind : findOutputForChannel st.outputs (channelOf event.slot) with
  | some k =>
      rw [hfind] at hi
      obtain rfl := Option.some.inj hi
      have hbound := findOutputForChannel_eq_some hfind hout
      exact ⟨hone _ ((h.outputs out (List.mem_of_getElem? hout)).bound _ hbound), .inl hbound⟩
  | none =>
      simp only [hfind, hgeometry, if_true] at hi
      obtain ⟨free, hfree, hplace, hunbound⟩ := exists_free_output h hann hroom hfind
      cases hat : outputAtPosition st.outputs event.geomX event.geomY with
      | none => exact absurd hat (outputAtPosition_ne_none hfree hplace hunbound)
      | some k =>
          rw [hat] at hi
          obtain rfl := Option.some.inj hi
          have hplaced := outputAtPosition_eq_some hat hout
          exact ⟨hplaced, .inr rfl⟩

theorem closeFds_inPlace (fds : List ℤ) :
    ∀ e ∈ fds.map (WlEffect.closeFd (β := Origin)), EffectInPlace e := by
  intro e he
  obtain ⟨fd, _, rfl⟩ := List.mem_map.mp he
  trivial

theorem PortalInPlace.handleBuf (h : PortalInPlace ann st) {event : CaptureEvent} (fd : ℤ)
    {imported : Option Origin} (hgeometry : event.hasGeometry = true)
    (hann : (channelOf event.slot, (event.geomX, event.geomY)) ∈ ann)
    (hone : ∀ q, (channelOf event.slot, q) ∈ ann → q = (event.geomX, event.geomY))
    (hroom : (announcedChannels ann (event.geomX, event.geomY)).card ≤
      st.outputsAt (event.geomX, event.geomY))
    (horigin : ∀ buffer, imported = some buffer → buffer = some (event.geomX, event.geomY)) :
    PortalInPlace ann (handleBuf st event fd imported) ∧
      (Portal.handleBuf st event fd imported).places = st.places := by
  have hclosed := h.addEffects (closeFds_inPlace [fd])
  unfold Portal.handleBuf
  split
  · exact ⟨hclosed, rfl⟩
  · split
    · exact ⟨hclosed, rfl⟩
    · rename_i i hi
      have hbuffer : ∀ buffer, (if st.dmabuf then imported else none) = some buffer →
          buffer = some (event.geomX, event.geomY) := by
        intro buffer hbuffer
        split at hbuffer
        · exact horigin buffer hbuffer
        · exact absurd hbuffer (by simp)
      have hstored : ∀ out, st.outputs[i]? = some out →
          StaysInPlace ann out
              (storeBuf st.shm event fd (if st.dmabuf then imported else none) out) ∧
            (storeBuf st.shm event fd (if st.dmabuf then imported else none) out).1.boundChannel =
              some (channelOf event.slot) := by
        intro out hout
        have hposition := (outputForBuf_position h hgeometry hann hone hroom hi hout).1
        apply storeBuf_staysInPlace st.shm event fd _ (h.outputs out (List.mem_of_getElem? hout))
        · rw [hposition]
          exact hann
        · intro buffer hb
          rw [hposition]
          exact hbuffer buffer hb
      apply h.updateOutput
      · intro out hout
        exact (hstored out hout).1
      · intro out channel hout hchannel
        obtain rfl := Option.some.inj ((hstored out hout).2.symm.trans hchannel)
        exact (outputForBuf_position h hgeometry hann hone hroom hi hout).2

theorem PortalInPlace.handleFrame (h : PortalInPlace ann st) (wireSlot : UInt32) :
    PortalInPlace ann (handleFrame st wireSlot) ∧
      (Portal.handleFrame st wireSlot).places = st.places := by
  unfold Portal.handleFrame
  split
  · exact ⟨h, rfl⟩
  · rename_i i hi
    have hstays : ∀ out, st.outputs[i]? = some out →
        StaysInPlace ann out (if (out.slots (localIdx wireSlot)).isSome then
          wpWlSetCurrentSource st.shm out (.slot wireSlot) else (out, [])) ∧
        (if (out.slots (localIdx wireSlot)).isSome then
          wpWlSetCurrentSource st.shm out (.slot wireSlot) else (out, [])).1.boundChannel =
            out.boundChannel := by
      intro out hout
      have hplaced := h.outputs out (List.mem_of_getElem? hout)
      split
      · exact setCurrentSource_staysInPlace st.shm (.slot wireSlot) hplaced
      · exact staysInPlace_silent hplaced
    apply h.updateOutput
    · intro out hout
      exact (hstays out hout).1
    · intro out channel hout hchannel
      exact .inl ((hstays out hout).2.symm.trans hchannel)

theorem PortalInPlace.detach (h : PortalInPlace ann st) :
    PortalInPlace ann (wpWlDetach st) ∧ (wpWlDetach st).places = st.places := by
  have hunbound : ∀ (i : ℕ) (out : WlOutput Origin), (wpWlDetach st).outputs[i]? = some out →
      out.boundChannel = none := by
    intro i out hout
    obtain ⟨before, _, rfl⟩ := List.mem_map.mp (List.mem_of_getElem? hout)
    rfl
  refine ⟨⟨?_, ?_, ?_⟩, ?_⟩
  · intro out hout
    obtain ⟨before, _, rfl⟩ := List.mem_map.mp hout
    exact ⟨fun _ hbound ↦ absurd hbound (by simp [detachOutput]),
      fun _ _ hslot ↦ absurd hslot (by simp [detachOutput])⟩
  · intro i k out out' channel hout _ hchannel
    exact absurd ((hunbound i out hout).symm.trans hchannel) (by simp)
  · intro e he
    rcases List.mem_append.mp he with he | he
    · exact h.effects e he
    · obtain ⟨out, _, he⟩ := List.mem_flatMap.mp he
      rcases List.mem_append.mp he with he | he
      · split at he
        · obtain rfl := List.mem_singleton.mp he
          trivial
        · exact absurd he List.not_mem_nil
      · obtain ⟨slot, _, he⟩ := List.mem_flatMap.mp he
        simp only [List.mem_cons, List.not_mem_nil, or_false] at he
        rcases he with rfl | rfl
        · trivial
        · trivial
  · rw [WlState.places, wpWlDetach, List.map_map]
    rfl

/-- What the compositor does to an output keeps it in place. -/
theorem PortalInPlace.frameDone (h : PortalInPlace ann st) (i : ℕ) :
    PortalInPlace ann (Portal.updateOutput st i (frameCallbackDone st.shm)) ∧
      (Portal.updateOutput st i (frameCallbackDone st.shm)).places = st.places := by
  have hstays : ∀ out, st.outputs[i]? = some out →
      StaysInPlace ann out (frameCallbackDone st.shm out) ∧
        (frameCallbackDone st.shm out).1.boundChannel = out.boundChannel := by
    intro out hout
    have hplaced := h.outputs out (List.mem_of_getElem? hout)
    have hdelivered : OutputInPlace ann
        { out with pendingCallbacks := out.pendingCallbacks - 1 } := ⟨hplaced.bound, hplaced.slots⟩
    obtain ⟨hrefresh, hbound⟩ := refresh_staysInPlace st.shm hdelivered
    exact ⟨⟨hrefresh.output, hrefresh.place, hrefresh.effects⟩, hbound⟩
  apply h.updateOutput
  · intro out hout
    exact (hstays out hout).1
  · intro out channel hout hchannel
    exact .inl ((hstays out hout).2.symm.trans hchannel)

theorem PortalInPlace.configure (h : PortalInPlace ann st) (i : ℕ) (width height : UInt32) :
    PortalInPlace ann (modifyOutput st i (layerSurfaceConfigure width height)) ∧
      (modifyOutput st i (layerSurfaceConfigure width height)).places = st.places := by
  apply h.updateOutput
  · intro out hout
    have hplaced := h.outputs out (List.mem_of_getElem? hout)
    exact ⟨⟨hplaced.bound, hplaced.slots⟩, rfl, fun _ he ↦ absurd he List.not_mem_nil⟩
  · intro out channel _ hchannel
    exact .inl hchannel

end Portal

end Wallpiper.Portal
