import Wallpiper.Capture.Layer

/-!
# What the capture layer's operations change

Registering fills one free place with a swapchain on a free wire channel,
destroying empties one, and a present replaces one swapchain by one that has
sent no more than before.  Later modules use only these descriptions.
-/

namespace Wallpiper.Capture

open Foundations

/-- The swapchain at a place of a device's table. -/
def CaptureLayer.stateAt (layer : CaptureLayer) (d : ℕ) (i : Fin wpMaxSwapchains) :
    Option SwapchainState :=
  (layer.devices d).swapchains i

/-- The slot's buffer is marked as sent. -/
def SwapchainState.Sent (state : SwapchainState) (j : SlotIndex) : Prop :=
  ∃ slot, state.slots j = some slot ∧ slot.bufSent = true

/-- The swapchain is the same one, with no more buffers sent. -/
structure SwapchainState.Continues (state state' : SwapchainState) : Prop where
  swapchain : state'.swapchain = state.swapchain
  wireChannel : state'.wireChannel = state.wireChannel
  window : state'.window = state.window
  sent : ∀ j, state'.Sent j → state.Sent j

/-- The notice describes a copy into one of the swapchain's slots: a buffer
goes out with the channel's position, a frame only for a sent buffer. -/
structure Notice.Describes (notice : Notice) (layer : CaptureLayer) (state : SwapchainState) :
    Prop where
  swapchain : notice.swapchain = state.swapchain
  window : notice.window = state.window
  message :
    (∃ width height format stride modifier imageFd syncFd,
      notice.message = .buf (wireSlot state.wireChannel notice.slotIdx) width height format stride
        modifier (layer.channelGeometry state.wireChannel) imageFd syncFd) ∨
    ∃ syncFd, notice.message = .frame (wireSlot state.wireChannel notice.slotIdx) syncFd ∧
      state.Sent notice.slotIdx

/-! ## Places -/

theorem CaptureLayer.stateAt_put (layer : CaptureLayer) (d e : ℕ) (i k : Fin wpMaxSwapchains)
    (state : Option SwapchainState) :
    (layer.put d i state).stateAt e k =
      if e = d ∧ k = i then state else layer.stateAt e k := by
  unfold stateAt put
  by_cases hd : e = d
  · subst hd
    by_cases hi : k = i
    · subst hi
      simp
    · simp [hi]
  · simp [hd]

theorem CaptureLayer.stateAt_put_self (layer : CaptureLayer) (d : ℕ) (i : Fin wpMaxSwapchains)
    (state : Option SwapchainState) : (layer.put d i state).stateAt d i = state := by
  rw [stateAt_put, if_pos ⟨rfl, rfl⟩]

theorem CaptureLayer.addCalls_nil (layer : CaptureLayer) : layer.addCalls [] = layer := by
  simp [addCalls]

theorem findSwapchain_eq_some {layer : CaptureLayer} {d : ℕ} {swapchain : UInt64}
    {i : Fin wpMaxSwapchains} {state : SwapchainState}
    (h : findSwapchain (layer.devices d) swapchain = some (i, state)) :
    layer.stateAt d i = some state ∧ state.swapchain = swapchain := by
  obtain ⟨hstate, hswapchain⟩ := Table.find_eq_some h
  exact ⟨hstate, eq_of_beq hswapchain⟩

theorem findSwapchain_put {layer : CaptureLayer} {d : ℕ} {swapchain : UInt64}
    {i : Fin wpMaxSwapchains} {state state' : SwapchainState}
    (h : findSwapchain (layer.devices d) swapchain = some (i, state))
    (hsame : state'.swapchain = swapchain) :
    findSwapchain ((layer.put d i (some state')).devices d) swapchain = some (i, state') := by
  have hput : (layer.put d i (some state')).devices d =
      { swapchains := Function.update (layer.devices d).swapchains i (some state') } :=
    Function.update_self ..
  rw [hput]
  exact Table.find_update h (beq_iff_eq.mpr hsame)

/-! ## Registering and destroying -/

theorem channel_free_of_alloc {layer : CaptureLayer} {c : WireChannel}
    (h : allocWireChannel layer = some c) : layer.channelInUse c = false := by
  have hfree := List.find?_some h
  simpa using hfree

theorem wpRegisterSwapchain_cases (layer : CaptureLayer) (d : ℕ) (swapchain : UInt64)
    (info : SwapchainInfo) :
    wpRegisterSwapchain layer d swapchain info = layer ∨
      ∃ i c, Table.free (layer.devices d).swapchains = some i ∧
        allocWireChannel layer = some c ∧
        wpRegisterSwapchain layer d swapchain info =
          { layer.put d i (some (newSwapchain swapchain info c)) with
            channelInUse := Function.update layer.channelInUse c true
            channelGeometry := Function.update layer.channelGeometry c info.geometry } := by
  unfold wpRegisterSwapchain
  split
  · exact .inl rfl
  · rename_i i hi
    split
    · exact .inl rfl
    · rename_i c hc
      exact .inr ⟨i, c, hi, hc, rfl⟩

theorem wpTeardownSwapchain_cases (layer : CaptureLayer) (d : ℕ) (swapchain : UInt64)
    (fenceWait : SlotIndex → Bool) :
    wpTeardownSwapchain layer d swapchain fenceWait = layer ∨
      ∃ i state calls, layer.stateAt d i = some state ∧
        wpTeardownSwapchain layer d swapchain fenceWait =
          ({ layer.put d i none with
            channelInUse := Function.update layer.channelInUse state.wireChannel false }).addCalls
              calls := by
  unfold wpTeardownSwapchain
  split
  · exact .inl rfl
  · rename_i i state hfind
    exact .inr ⟨i, state, _, (findSwapchain_eq_some hfind).1, rfl⟩

/-! ## Presenting -/

theorem clearFence_bufSent {slot slot' : CaptureSlot} {driver : DriverAnswers}
    {calls : List DriverCall} (h : clearFence slot driver = (some slot', calls)) :
    slot'.bufSent = slot.bufSent := by
  unfold clearFence at h
  split at h
  · obtain ⟨hslot, _⟩ := Prod.mk.inj h
    rw [← Option.some.inj hslot]
  · split at h
    · obtain ⟨hslot, _⟩ := Prod.mk.inj h
      rw [← Option.some.inj hslot]
    · split at h
      · obtain ⟨hslot, _⟩ := Prod.mk.inj h
        rw [← Option.some.inj hslot]
      · exact absurd (Prod.mk.inj h).1 (by simp)
    · exact absurd (Prod.mk.inj h).1 (by simp)

theorem captureSlot_bufSent (slot : CaptureSlot) (driver : DriverAnswers) :
    (captureSlot slot driver).slot.bufSent = slot.bufSent := by
  unfold captureSlot
  split
  · rfl
  · rename_i slot' calls hclear
    have hsent := clearFence_bufSent hclear
    split
    · exact hsent
    · split
      · exact hsent
      · simp only
        split
        · exact hsent
        · exact hsent

/-- The slot a present copies into is an old one, or a new one that was not
sent. -/
theorem sent_of_or {state : SwapchainState} {driver : DriverAnswers} {j : SlotIndex}
    {slot : CaptureSlot} (h : (state.slots j).or (createCaptureSlot state driver) = some slot)
    (hsent : slot.bufSent = true) : state.Sent j := by
  cases hslot : state.slots j with
  | some slot₀ =>
      rw [hslot, Option.some_or] at h
      exact ⟨slot, hslot.trans h, hsent⟩
  | none =>
      rw [hslot, Option.none_or] at h
      unfold createCaptureSlot at h
      split at h
      · exact absurd h (by simp)
      · obtain ⟨_, _, rfl⟩ := Option.map_eq_some_iff.mp h
        exact absurd hsent (by simp)

theorem captureMessage_describes {layer : CaptureLayer} {state : SwapchainState} {j : SlotIndex}
    {slot : CaptureSlot} {driver : DriverAnswers} {message : CaptureMessage}
    (hsent : slot.bufSent = true → state.Sent j)
    (h : captureMessage layer state j slot driver = some message) :
    (⟨state.swapchain, j, message, state.window⟩ : Notice).Describes layer state := by
  refine ⟨rfl, rfl, ?_⟩
  unfold captureMessage at h
  split at h
  · obtain ⟨fd, _, rfl⟩ := Option.map_eq_some_iff.mp h
    exact .inl ⟨_, _, _, _, _, _, _, rfl⟩
  · rename_i hbuf
    obtain rfl := Option.some.inj h
    exact .inr ⟨_, rfl, hsent (by simpa using hbuf)⟩

/-- The copy leaves the mark of its slot alone. -/
theorem sent_of_copy {state : SwapchainState} {driver : DriverAnswers} {j k : SlotIndex}
    {slot : CaptureSlot} (hslot : slot.bufSent = true → state.Sent j)
    (h : ({ state with
      slots := Function.update state.slots j (some (captureSlot slot driver).slot) } :
        SwapchainState).Sent k) : state.Sent k := by
  obtain ⟨slot', hslot', hsent⟩ := h
  by_cases hk : k = j
  · subst hk
    have hcopy : (captureSlot slot driver).slot = slot' := by simpa using hslot'
    rw [← hcopy, captureSlot_bufSent] at hsent
    exact hslot hsent
  · have hold : state.slots k = some slot' := by simpa [hk] using hslot'
    exact ⟨slot', hold, hsent⟩

theorem presentSlot_cases (layer : CaptureLayer) (d : ℕ) (i : Fin wpMaxSwapchains)
    (state : SwapchainState) {j : SlotIndex} {slot : CaptureSlot} (driver : DriverAnswers)
    (hslot : slot.bufSent = true → state.Sent j) :
    ∃ state' calls notice, state.Continues state' ∧
      (∀ n, notice = some n → n.Describes layer state) ∧
      presentSlot layer d i state j slot driver =
        ((layer.put d i (some state')).addCalls calls, notice) := by
  have hcontinues : state.Continues { state with
      slots := Function.update state.slots j (some (captureSlot slot driver).slot) } :=
    ⟨rfl, rfl, rfl, fun k hk ↦ sent_of_copy hslot hk⟩
  simp only [presentSlot]
  split
  · exact ⟨_, _, none, hcontinues, fun n hn ↦ absurd hn (by simp), rfl⟩
  · refine ⟨_, _, _, hcontinues, ?_, rfl⟩
    intro n hn
    obtain ⟨message, hmessage, rfl⟩ := Option.map_eq_some_iff.mp hn
    rw [← captureSlot_bufSent slot driver] at hslot
    exact captureMessage_describes hslot hmessage

/-- A present changes nothing, or one swapchain that goes on as the same one
and may have a notice sent. -/
theorem wpCaptureAndNotify_cases (layer : CaptureLayer) (d : ℕ) (swapchain : UInt64)
    (imageIndex : UInt32) (driver : DriverAnswers) :
    wpCaptureAndNotify layer d swapchain imageIndex driver = (layer, none) ∨
      ∃ i state state' calls notice,
        findSwapchain (layer.devices d) swapchain = some (i, state) ∧
        state.Continues state' ∧
        (∀ n, notice = some n → n.Describes layer state) ∧
        wpCaptureAndNotify layer d swapchain imageIndex driver =
          ((layer.put d i (some state')).addCalls calls, notice) := by
  unfold wpCaptureAndNotify
  split
  · exact .inl rfl
  · split
    · exact .inl rfl
    · rename_i i state hfind
      split
      · exact .inl rfl
      · split
        · exact .inr ⟨i, state, { state with nextSlot := state.nextSlot + 1 }, [], none, hfind,
            ⟨rfl, rfl, rfl, fun _ h ↦ h⟩, fun _ h ↦ absurd h (by simp),
            by rw [CaptureLayer.addCalls_nil]⟩
        · rename_i slot hslot
          obtain ⟨state', calls, notice, hcontinues, hnotice, heq⟩ :=
            presentSlot_cases layer d i { state with nextSlot := state.nextSlot + 1 } driver
              (sent_of_or hslot)
          exact .inr ⟨i, state, state', calls, notice, hfind,
            ⟨hcontinues.swapchain, hcontinues.wireChannel, hcontinues.window, hcontinues.sent⟩,
            fun n hn ↦ ⟨(hnotice n hn).swapchain, (hnotice n hn).window, (hnotice n hn).message⟩,
            heq⟩

theorem markBufSent_cases (layer : CaptureLayer) (d : ℕ) (notice : Notice) :
    markBufSent layer d notice = layer ∨
      ∃ i state state', layer.stateAt d i = some state ∧
        state'.wireChannel = state.wireChannel ∧ state'.window = state.window ∧
        markBufSent layer d notice = layer.put d i (some state') := by
  unfold markBufSent
  split
  · exact .inl rfl
  · split
    · exact .inl rfl
    · rename_i i state hfind
      split
      · exact .inl rfl
      · rename_i slot _
        exact .inr ⟨i, state, { state with
          slots := Function.update state.slots notice.slotIdx
            (some { slot with bufSent := true }) },
          (findSwapchain_eq_some hfind).1, rfl, rfl, rfl⟩

end Wallpiper.Capture
