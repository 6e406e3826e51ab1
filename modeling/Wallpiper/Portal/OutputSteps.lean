import Wallpiper.Portal.State

/-!
# What the portal's code changes on an output

A buffer goes to the output bound to its channel, or to an unbound one when
no output is.  Displaying touches only the display state of an output, a new
source also sets the loop's flag, and a buffer replaces one slot.  Only the
release of a slot closes a descriptor.
-/

namespace Wallpiper.Portal

open Capture

variable {β : Type*}

/-! ## The output of a channel -/

/-- No channel is bound to two outputs. -/
def ChannelsApart (st : WlState β) : Prop :=
  ∀ (i k : ℕ) (out out' : WlOutput β) (channel : UInt32),
    st.outputs[i]? = some out → st.outputs[k]? = some out' →
      out.boundChannel = some channel → out'.boundChannel = some channel → i = k

theorem findOutputForChannel_eq_some {outputs : List (WlOutput β)} {channel : UInt32} {i : ℕ}
    (h : findOutputForChannel outputs channel = some i) {out : WlOutput β}
    (hout : outputs[i]? = some out) : out.boundChannel = some channel := by
  obtain ⟨hi, hbound, _⟩ := List.findIdx?_eq_some_iff_getElem.mp h
  obtain ⟨_, rfl⟩ := List.getElem?_eq_some_iff.mp hout
  exact eq_of_beq hbound

theorem findOutputForChannel_eq_none {outputs : List (WlOutput β)} {channel : UInt32}
    (h : findOutputForChannel outputs channel = none) {out : WlOutput β}
    (hout : out ∈ outputs) : out.boundChannel ≠ some channel := by
  intro hbound
  have hnot := List.findIdx?_eq_none_iff.mp h out hout
  rw [hbound, beq_self_eq_true] at hnot
  exact absurd hnot (by simp)

theorem leftmostFree_eq_some {best : Option (ℕ × Int32)} {i k : ℕ} {outs : List (WlOutput β)}
    (h : leftmostFree best i outs = some k) :
    best.map Prod.fst = some k ∨
      ∃ j out, outs[j]? = some out ∧ k = i + j ∧ out.boundChannel = none := by
  induction outs generalizing best i with
  | nil => exact .inl h
  | cons out outs ih =>
      have hlater : (∃ j out', outs[j]? = some out' ∧ k = i + 1 + j ∧ out'.boundChannel = none) →
          ∃ j out', (out :: outs)[j]? = some out' ∧ k = i + j ∧ out'.boundChannel = none := by
        rintro ⟨j, out', hout', rfl, hfree⟩
        exact ⟨j + 1, out', hout', by omega, hfree⟩
      unfold leftmostFree at h
      split at h
      · exact (ih h).imp_right hlater
      · rename_i hfree
        have hunbound : out.boundChannel = none := by
          rw [not_or, Option.not_isSome_iff_eq_none] at hfree
          exact hfree.2
        have hhere : (some (i, out.x)).map Prod.fst = some k →
            ∃ j out', (out :: outs)[j]? = some out' ∧ k = i + j ∧ out'.boundChannel = none := by
          intro hk
          exact ⟨0, out, rfl, (Option.some.inj hk).symm, hunbound⟩
        cases best with
        | none => exact .inr ((ih h).elim hhere hlater)
        | some best =>
            simp only at h
            split at h
            · exact .inr ((ih h).elim hhere hlater)
            · exact (ih h).imp_right hlater

theorem outputOfSize_eq_some {outputs : List (WlOutput β)} {width height : UInt32} {i : ℕ}
    (h : outputOfSize outputs width height = some i) {out : WlOutput β}
    (hout : outputs[i]? = some out) : out.boundChannel = none := by
  unfold outputOfSize at h
  split at h
  · rename_i k hk
    obtain rfl := Option.some.inj h
    obtain ⟨_, hmatch, _⟩ := List.findIdx?_eq_some_iff_getElem.mp hk
    obtain ⟨_, rfl⟩ := List.getElem?_eq_some_iff.mp hout
    simp only [Bool.and_eq_true, Option.isNone_iff_eq_none] at hmatch
    exact hmatch.1.1.2
  · rcases leftmostFree_eq_some h with hbest | ⟨j, out', hout', hi, hfree⟩
    · exact absurd hbest (by simp)
    · rw [Nat.zero_add] at hi
      subst hi
      obtain rfl := Option.some.inj (hout.symm.trans hout')
      exact hfree

theorem outputAtPosition_unbound {outputs : List (WlOutput β)} {x y : Int32} {i : ℕ}
    (h : outputAtPosition outputs x y = some i) {out : WlOutput β}
    (hout : outputs[i]? = some out) : out.boundChannel = none := by
  obtain ⟨_, hmatch, _⟩ := List.findIdx?_eq_some_iff_getElem.mp h
  obtain ⟨_, rfl⟩ := List.getElem?_eq_some_iff.mp hout
  simp only [Bool.and_eq_true, Option.isNone_iff_eq_none] at hmatch
  exact hmatch.1.1.2

/-- A buffer goes to the output of its channel, or to a free output if the
channel has none. -/
theorem outputForBuf_eq_some {outputs : List (WlOutput β)} {event : CaptureEvent} {i : ℕ}
    (h : outputForBuf outputs event = some i) {out : WlOutput β}
    (hout : outputs[i]? = some out) :
    out.boundChannel = some (channelOf event.slot) ∨
      out.boundChannel = none ∧ findOutputForChannel outputs (channelOf event.slot) = none := by
  unfold outputForBuf at h
  split at h
  · rename_i k hk
    obtain rfl := Option.some.inj h
    exact .inl (findOutputForChannel_eq_some hk hout)
  · rename_i hnone
    refine .inr ⟨?_, hnone⟩
    split at h
    · rename_i k hk
      obtain rfl := Option.some.inj h
      split at hk
      · exact outputAtPosition_unbound hk hout
      · exact absurd hk (by simp)
    · exact outputOfSize_eq_some h hout

theorem findIdx?_lt {outputs : List (WlOutput β)} {p : WlOutput β → Bool} {i : ℕ}
    (h : outputs.findIdx? p = some i) : i < outputs.length :=
  (List.findIdx?_eq_some_iff_getElem.mp h).1

theorem outputOfSize_lt {outputs : List (WlOutput β)} {width height : UInt32} {i : ℕ}
    (h : outputOfSize outputs width height = some i) : i < outputs.length := by
  unfold outputOfSize at h
  split at h
  · rename_i k hk
    obtain rfl := Option.some.inj h
    exact findIdx?_lt hk
  · rcases leftmostFree_eq_some h with hbest | ⟨j, out, hout, hi, _⟩
    · exact absurd hbest (by simp)
    · rw [Nat.zero_add] at hi
      subst hi
      exact (List.getElem?_eq_some_iff.mp hout).1

theorem outputForBuf_lt {outputs : List (WlOutput β)} {event : CaptureEvent} {i : ℕ}
    (h : outputForBuf outputs event = some i) : i < outputs.length := by
  unfold outputForBuf at h
  split at h
  · rename_i k hk
    obtain rfl := Option.some.inj h
    exact findIdx?_lt hk
  · split at h
    · rename_i k hk
      obtain rfl := Option.some.inj h
      split at hk
      · exact findIdx?_lt hk
      · exact absurd hk (by simp)
    · exact outputOfSize_lt h

/-- Code that binds its output to a channel of its own, or to one bound to
nobody, keeps the channels apart. -/
theorem ChannelsApart.updateOutput {st : WlState β} (h : ChannelsApart st) {i : ℕ}
    {f : WlOutput β → WlOutput β × List (WlEffect β)}
    (hbinds : ∀ out channel, st.outputs[i]? = some out → (f out).1.boundChannel = some channel →
      out.boundChannel = some channel ∨ findOutputForChannel st.outputs channel = none) :
    ChannelsApart (updateOutput st i f) := by
  -- the channel an output is bound to afterwards was its own or nobody's
  have hbound : ∀ k out' channel, (Portal.updateOutput st i f).outputs[k]? = some out' →
      out'.boundChannel = some channel →
      (∃ out, st.outputs[k]? = some out ∧ out.boundChannel = some channel) ∨
        k = i ∧ findOutputForChannel st.outputs channel = none := by
    intro k out' channel hout' hchannel
    rw [updateOutput_getElem?] at hout'
    split at hout'
    · rename_i hk
      subst hk
      obtain ⟨out, hout, rfl⟩ := Option.map_eq_some_iff.mp hout'
      rcases hbinds out channel hout hchannel with hold | hnone
      · exact .inl ⟨out, hout, hold⟩
      · exact .inr ⟨rfl, hnone⟩
    · exact .inl ⟨out', hout', hchannel⟩
  intro k k' out out' channel hout hout' hchannel hchannel'
  rcases hbound k out channel hout hchannel with ⟨o, ho, hc⟩ | ⟨hk, hnone⟩
  · rcases hbound k' out' channel hout' hchannel' with ⟨o', ho', hc'⟩ | ⟨_, hnone⟩
    · exact h k k' o o' channel ho ho' hc hc'
    · exact absurd hc (findOutputForChannel_eq_none hnone (List.mem_of_getElem? ho))
  · rcases hbound k' out' channel hout' hchannel' with ⟨o', ho', hc'⟩ | ⟨hk', _⟩
    · exact absurd hc' (findOutputForChannel_eq_none hnone (List.mem_of_getElem? ho'))
    · exact hk.trans hk'.symm

/-! ## The code of one output -/

/-- The outputs differ at most in their display state. -/
def SameButDisplay (out out' : WlOutput β) : Prop :=
  ∃ running pending buffer pool,
    out' = { out with
      frameLoopRunning := running, pendingCallbacks := pending, currentShmBuffer := buffer
      currentShmPool := pool }

/-- The descriptors closed by a list of effects. -/
def closedFds (effects : List (WlEffect β)) : List ℤ :=
  effects.filterMap fun
    | .closeFd fd => some fd
    | _ => none

@[simp] theorem closedFds_nil : closedFds ([] : List (WlEffect β)) = [] := rfl

@[simp] theorem closedFds_append (es fs : List (WlEffect β)) :
    closedFds (es ++ fs) = closedFds es ++ closedFds fs :=
  List.filterMap_append

@[simp] theorem closedFds_closeFd (fd : ℤ) : closedFds [(.closeFd fd : WlEffect β)] = [fd] := rfl

@[simp] theorem closedFds_map_closeFd (fds : List ℤ) :
    closedFds (fds.map (WlEffect.closeFd (β := β))) = fds := by
  induction fds with
  | nil => rfl
  | cons fd fds ih => exact congrArg (fd :: ·) ih

theorem closedFds_viewportDestination (out : WlOutput β) :
    closedFds (viewportDestination out) = [] := by
  unfold viewportDestination
  split
  · rfl
  · rfl

theorem wpWlRefreshBuffer_display (shm : Bool) (out : WlOutput β) :
    SameButDisplay out (wpWlRefreshBuffer shm out).1 ∧
      closedFds (wpWlRefreshBuffer shm out).2 = [] := by
  have hsame : SameButDisplay out out := ⟨_, _, _, _, rfl⟩
  unfold wpWlRefreshBuffer
  split
  · exact ⟨hsame, rfl⟩
  · split
    · exact ⟨hsame, rfl⟩
    · split
      · exact ⟨hsame, rfl⟩
      · split
        · exact ⟨hsame, rfl⟩
        · exact ⟨⟨_, _, _, _, rfl⟩, closedFds_viewportDestination out⟩
    · split
      · exact ⟨hsame, rfl⟩
      · exact ⟨⟨_, _, _, _, rfl⟩, closedFds_viewportDestination out⟩

theorem wpWlSetCurrentSource_display (shm : Bool) (source : WlSource) (out : WlOutput β) :
    SameButDisplay { out with currentSource := some source }
        (wpWlSetCurrentSource shm out source).1 ∧
      closedFds (wpWlSetCurrentSource shm out source).2 = [] := by
  cases hrun : out.frameLoopRunning with
  | true =>
      rw [wpWlSetCurrentSource_of_running shm source hrun]
      exact ⟨⟨_, _, _, _, rfl⟩, rfl⟩
  | false =>
      rw [wpWlSetCurrentSource_of_idle shm source hrun]
      obtain ⟨⟨running, pending, buffer, pool, heq⟩, hclosed⟩ := wpWlRefreshBuffer_display shm
        { out with currentSource := some source, frameLoopRunning := true }
      exact ⟨⟨running, pending, buffer, pool, heq⟩, hclosed⟩

theorem releaseSlot_fst (out : WlOutput β) (j : Fin wpWlCaptureSlotCount) :
    (releaseSlot out j).1 = { out with slots := Function.update out.slots j none } := by
  unfold releaseSlot
  split
  · rename_i hslot
    rw [← hslot, Function.update_eq_self]
  · rfl

theorem closedFds_releaseSlot (out : WlOutput β) (j : Fin wpWlCaptureSlotCount) :
    closedFds (releaseSlot out j).2 = ((out.slots j).map WlSlot.fd).toList := by
  unfold releaseSlot
  split
  · rename_i hslot
    rw [hslot]
    rfl
  · rename_i hslot
    rw [hslot]
    rfl

/-- A failed import leaves the slot empty. -/
theorem storeBuf_none (shm : Bool) (event : CaptureEvent) (fd : ℤ) (out : WlOutput β) :
    (storeBuf shm event fd none out).1 =
        { out with
          boundChannel := some (channelOf event.slot)
          slots := Function.update out.slots (localIdx event.slot) none } ∧
      closedFds (storeBuf shm event fd none out).2 =
        ((out.slots (localIdx event.slot)).map WlSlot.fd).toList ++ [fd] := by
  constructor
  · simp only [storeBuf, releaseSlot_fst]
  · simp only [storeBuf, closedFds_append, closedFds_releaseSlot, closedFds_closeFd]

theorem storeBuf_some (shm : Bool) (event : CaptureEvent) (fd : ℤ) (buffer : β)
    (out : WlOutput β) :
    SameButDisplay { out with
        boundChannel := some (channelOf event.slot)
        slots := Function.update out.slots (localIdx event.slot)
          (some ⟨event.slot, buffer, fd, event.width, event.height⟩)
        currentSource := some (.slot event.slot) }
        (storeBuf shm event fd (some buffer) out).1 ∧
      closedFds (storeBuf shm event fd (some buffer) out).2 =
        ((out.slots (localIdx event.slot)).map WlSlot.fd).toList := by
  obtain ⟨hdisplay, hclosed⟩ := wpWlSetCurrentSource_display shm (.slot event.slot)
    { out with
      boundChannel := some (channelOf event.slot)
      slots := Function.update out.slots (localIdx event.slot)
        (some ⟨event.slot, buffer, fd, event.width, event.height⟩) }
  constructor
  · simp only [storeBuf, releaseSlot_fst, Function.update_idem]
    exact hdisplay
  · simp only [storeBuf, releaseSlot_fst, Function.update_idem, closedFds_append,
      closedFds_releaseSlot, hclosed, List.append_nil]

theorem closedFds_detachOutput (out : WlOutput β) :
    closedFds (detachOutput out).2 =
      ((List.finRange wpWlCaptureSlotCount).filterMap out.slots).map WlSlot.fd := by
  have hslots : ∀ slots : List (WlSlot β),
      closedFds (slots.flatMap fun slot ↦ [.destroyBuffer slot.buffer, .closeFd slot.fd]) =
        slots.map WlSlot.fd := by
    intro slots
    induction slots with
    | nil => rfl
    | cons slot slots ih => exact congrArg (slot.fd :: ·) ih
  have hattach : closedFds (if out.surface then [(.attachNone : WlEffect β)] else []) = [] := by
    split
    · rfl
    · rfl
  simp only [detachOutput, closedFds_append, hslots, hattach, List.nil_append]

end Wallpiper.Portal
