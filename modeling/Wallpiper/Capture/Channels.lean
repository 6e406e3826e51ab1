import Wallpiper.Capture.LayerSteps

/-!
# Wire channels of live swapchains

The wire channels in use are those of the live swapchains, one each, and the
position kept for a channel is that of its swapchain's window.
-/

namespace Wallpiper.Capture

structure ChannelsSound (layer : CaptureLayer) : Prop where
  inUse : ∀ d i state, layer.stateAt d i = some state →
    layer.channelInUse state.wireChannel = true
  held : ∀ c, layer.channelInUse c = true →
    ∃ d i state, layer.stateAt d i = some state ∧ state.wireChannel = c
  geometry : ∀ d i state, layer.stateAt d i = some state →
    layer.channelGeometry state.wireChannel = state.window
  unique : ∀ d i e k state other, layer.stateAt d i = some state → layer.stateAt e k = some other →
    state.wireChannel = other.wireChannel → d = e ∧ i = k

theorem ChannelsSound.initial : ChannelsSound .initial := by
  have hnone : ∀ d i state, CaptureLayer.initial.stateAt d i ≠ some state := by
    intro d i state h
    exact absurd h (by simp [CaptureLayer.initial, CaptureLayer.stateAt, DeviceData.empty])
  refine ⟨?_, ?_, ?_, ?_⟩
  · intro d i state h
    exact absurd h (hnone d i state)
  · intro c h
    exact absurd h (by simp [CaptureLayer.initial])
  · intro d i state h
    exact absurd h (hnone d i state)
  · intro d i e k state other h
    exact absurd h (hnone d i state)

/-- A swapchain is replaced by one with its channel and window. -/
theorem ChannelsSound.replace {layer : CaptureLayer} (h : ChannelsSound layer) {d : ℕ}
    {i : Fin wpMaxSwapchains} {state state' : SwapchainState}
    (hstate : layer.stateAt d i = some state) (hchannel : state'.wireChannel = state.wireChannel)
    (hwindow : state'.window = state.window) : ChannelsSound (layer.put d i (some state')) := by
  have hold : ∀ e k other, (layer.put d i (some state')).stateAt e k = some other →
      ∃ before, layer.stateAt e k = some before ∧ other.wireChannel = before.wireChannel ∧
        other.window = before.window := by
    intro e k other hother
    rw [CaptureLayer.stateAt_put] at hother
    split at hother
    · rename_i hplace
      obtain ⟨rfl, rfl⟩ := hplace
      obtain rfl := Option.some.inj hother
      exact ⟨state, hstate, hchannel, hwindow⟩
    · exact ⟨other, hother, rfl, rfl⟩
  refine ⟨?_, ?_, ?_, ?_⟩
  · intro e k other hother
    obtain ⟨before, hbefore, hc, _⟩ := hold e k other hother
    rw [hc]
    exact h.inUse e k before hbefore
  · intro c hc
    obtain ⟨e, k, other, hother, hchannel'⟩ := h.held c hc
    by_cases hplace : e = d ∧ k = i
    · obtain ⟨rfl, rfl⟩ := hplace
      obtain rfl := Option.some.inj (hother.symm.trans hstate)
      exact ⟨e, k, state', layer.stateAt_put_self e k _, hchannel.trans hchannel'⟩
    · exact ⟨e, k, other, by rw [CaptureLayer.stateAt_put, if_neg hplace, hother], hchannel'⟩
  · intro e k other hother
    obtain ⟨before, hbefore, hc, hw⟩ := hold e k other hother
    rw [hc, hw]
    exact h.geometry e k before hbefore
  · intro e k e' k' other other' hother hother' heq
    obtain ⟨before, hbefore, hc, _⟩ := hold e k other hother
    obtain ⟨before', hbefore', hc', _⟩ := hold e' k' other' hother'
    exact h.unique e k e' k' before before' hbefore hbefore' (hc.symm.trans (heq.trans hc'))

theorem ChannelsSound.addCalls {layer : CaptureLayer} (h : ChannelsSound layer)
    (calls : List DriverCall) : ChannelsSound (layer.addCalls calls) :=
  ⟨h.inUse, h.held, h.geometry, h.unique⟩

theorem ChannelsSound.register {layer : CaptureLayer} (h : ChannelsSound layer) {d : ℕ}
    {i : Fin wpMaxSwapchains} {c : WireChannel} {new : SwapchainState} {geometry : Option Position}
    (hplace : layer.stateAt d i = none) (hfree : layer.channelInUse c = false)
    (hchannel : new.wireChannel = c) (hwindow : new.window = geometry) :
    ChannelsSound { layer.put d i (some new) with
      channelInUse := Function.update layer.channelInUse c true
      channelGeometry := Function.update layer.channelGeometry c geometry } := by
  -- a swapchain after the step is the new one, or an old one on another channel
  have hold : ∀ e k other, (layer.put d i (some new)).stateAt e k = some other →
      (e = d ∧ k = i ∧ other = new) ∨
        layer.stateAt e k = some other ∧ other.wireChannel ≠ c := by
    intro e k other hother
    rw [CaptureLayer.stateAt_put] at hother
    split at hother
    · rename_i hnew
      exact .inl ⟨hnew.1, hnew.2, (Option.some.inj hother).symm⟩
    · refine .inr ⟨hother, ?_⟩
      rintro rfl
      exact absurd (h.inUse e k other hother) (by simp [hfree])
  refine ⟨?_, ?_, ?_, ?_⟩
  · intro e k other hother
    rcases hold e k other hother with ⟨_, _, rfl⟩ | ⟨hbefore, hne⟩
    · simp [hchannel]
    · simpa [hne] using h.inUse e k other hbefore
  · intro c' hc'
    by_cases hc : c' = c
    · exact ⟨d, i, new, layer.stateAt_put_self d i _, hchannel.trans hc.symm⟩
    · have hbefore : layer.channelInUse c' = true := by simpa [hc] using hc'
      obtain ⟨e, k, other, hother, hchannel'⟩ := h.held c' hbefore
      have hne : ¬(e = d ∧ k = i) := by
        rintro ⟨rfl, rfl⟩
        exact absurd (hplace.symm.trans hother) (by simp)
      refine ⟨e, k, other, ?_, hchannel'⟩
      exact (layer.stateAt_put d e i k _).trans ((if_neg hne).trans hother)
  · intro e k other hother
    rcases hold e k other hother with ⟨_, _, rfl⟩ | ⟨hbefore, hne⟩
    · simp [hchannel, hwindow]
    · simpa [hne] using h.geometry e k other hbefore
  · intro e k e' k' other other' hother hother' heq
    rcases hold e k other hother with ⟨rfl, rfl, rfl⟩ | ⟨hbefore, hne⟩
    · rcases hold e' k' other' hother' with ⟨rfl, rfl, rfl⟩ | ⟨_, hne'⟩
      · exact ⟨rfl, rfl⟩
      · exact absurd (heq.symm.trans hchannel) hne'
    · rcases hold e' k' other' hother' with ⟨rfl, rfl, rfl⟩ | ⟨hbefore', _⟩
      · exact absurd (heq.trans hchannel) hne
      · exact h.unique e k e' k' other other' hbefore hbefore' heq

theorem ChannelsSound.teardown {layer : CaptureLayer} (h : ChannelsSound layer) {d : ℕ}
    {i : Fin wpMaxSwapchains} {state : SwapchainState} (hstate : layer.stateAt d i = some state) :
    ChannelsSound { layer.put d i none with
      channelInUse := Function.update layer.channelInUse state.wireChannel false } := by
  have hold : ∀ e k other, (layer.put d i none).stateAt e k = some other →
      layer.stateAt e k = some other ∧ other.wireChannel ≠ state.wireChannel := by
    intro e k other hother
    rw [CaptureLayer.stateAt_put] at hother
    split at hother
    · exact absurd hother (by simp)
    · rename_i hplace
      exact ⟨hother, fun heq ↦ hplace (h.unique e k d i other state hother hstate heq)⟩
  refine ⟨?_, ?_, ?_, ?_⟩
  · intro e k other hother
    obtain ⟨hbefore, hne⟩ := hold e k other hother
    simpa [hne] using h.inUse e k other hbefore
  · intro c hc
    have hne : c ≠ state.wireChannel := by
      rintro rfl
      exact absurd hc (by simp)
    have hbefore : layer.channelInUse c = true := by simpa [hne] using hc
    obtain ⟨e, k, other, hother, hchannel⟩ := h.held c hbefore
    have hplace : ¬(e = d ∧ k = i) := by
      rintro ⟨rfl, rfl⟩
      obtain rfl := Option.some.inj (hother.symm.trans hstate)
      exact hne hchannel.symm
    refine ⟨e, k, other, ?_, hchannel⟩
    exact (layer.stateAt_put d e i k _).trans ((if_neg hplace).trans hother)
  · intro e k other hother
    exact h.geometry e k other (hold e k other hother).1
  · intro e k e' k' other other' hother hother' heq
    exact h.unique e k e' k' other other' (hold e k other hother).1
      (hold e' k' other' hother').1 heq

/-- A present leaves the channels and their positions alone; its notice comes
from a live swapchain. -/
theorem ChannelsSound.present {layer layer' : CaptureLayer} (h : ChannelsSound layer) {d : ℕ}
    {swapchain : UInt64} {imageIndex : UInt32} {driver : DriverAnswers} {notice : Option Notice}
    (hpresent : wpCaptureAndNotify layer d swapchain imageIndex driver = (layer', notice)) :
    ChannelsSound layer' ∧ layer'.channelInUse = layer.channelInUse ∧
      layer'.channelGeometry = layer.channelGeometry ∧
      ∀ n, notice = some n →
        ∃ i state, layer.stateAt d i = some state ∧ n.Describes layer state := by
  rcases wpCaptureAndNotify_cases layer d swapchain imageIndex driver with
    heq | ⟨i, state, state', calls, notice', hfind, hcontinues, hdescribes, heq⟩
  · obtain ⟨rfl, rfl⟩ := Prod.mk.inj (hpresent.symm.trans heq)
    exact ⟨h, rfl, rfl, fun n hn ↦ absurd hn (by simp)⟩
  · obtain ⟨rfl, rfl⟩ := Prod.mk.inj (hpresent.symm.trans heq)
    have hstate := (findSwapchain_eq_some hfind).1
    have hput := h.replace hstate hcontinues.wireChannel hcontinues.window
    exact ⟨hput.addCalls calls, rfl, rfl, fun n hn ↦ ⟨i, state, hstate, hdescribes n hn⟩⟩

theorem ChannelsSound.mark {layer : CaptureLayer} (h : ChannelsSound layer) (d : ℕ)
    (notice : Notice) :
    ChannelsSound (markBufSent layer d notice) ∧
      (markBufSent layer d notice).channelInUse = layer.channelInUse ∧
      (markBufSent layer d notice).channelGeometry = layer.channelGeometry := by
  rcases markBufSent_cases layer d notice with
    heq | ⟨i, state, state', hstate, hchannel, hwindow, heq⟩
  · rw [heq]
    exact ⟨h, rfl, rfl⟩
  · rw [heq]
    exact ⟨h.replace hstate hchannel hwindow, rfl, rfl⟩

end Wallpiper.Capture
