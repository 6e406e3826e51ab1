import Wallpiper.Portal.State

/-!
# The frame-callback loop

An output whose loop is running should have one frame callback pending, an
idle output none.  The flag is set before the display code decides whether
it can show anything, and DETACH clears it without cancelling the callback,
so the invariant survives exactly the steps that avoid both.
-/

namespace Wallpiper.Portal

open Foundations Capture

variable {β : Type*}

def LoopSound (out : WlOutput β) : Prop :=
  out.pendingCallbacks = if out.frameLoopRunning then 1 else 0

instance (out : WlOutput β) : Decidable (LoopSound out) := inferInstanceAs (Decidable (_ = _))

def FrameLoopInvariant (st : WlState β) : Prop := ∀ out ∈ st.outputs, LoopSound out

instance : DecidablePred fun st : WlState β ↦ FrameLoopInvariant st :=
  fun st ↦ inferInstanceAs (Decidable (∀ out ∈ st.outputs, LoopSound out))

/-- The display code would attach a buffer. -/
def displayable (shm : Bool) (out : WlOutput β) : Bool :=
  out.surface &&
    match out.currentSource with
    | none => false
    | some (.slot wireSlot) => (out.slots (localIdx wireSlot)).any fun slot ↦ slot.slot == wireSlot
    | some (.shm ..) => shm

/-- A new source on an idle output can be shown. -/
def StartsShown (shm : Bool) (source : WlSource) (out : WlOutput β) : Prop :=
  out.frameLoopRunning = false → displayable shm { out with currentSource := some source } = true

/-- The steps that keep the loops going: DETACH only while no loop runs, a
buffer, frame or SHM event starts a loop only where it can be shown, and a
callback finds something to show. -/
def KeepsLoops (st : WlState β) : WlLabel β → Prop
  | .capture event imported =>
      match event.tag with
      | .buf =>
          channelOf event.slot < 4 → st.dmabuf = true → imported.isSome →
            ∀ i out, outputForBuf st.outputs event = some i → st.outputs[i]? = some out →
              out.frameLoopRunning = false → out.surface = true
      | .frame =>
          ∀ i out, findOutputForChannel st.outputs (channelOf event.slot) = some i →
            st.outputs[i]? = some out → (out.slots (localIdx event.slot)).isSome →
              StartsShown st.shm (.slot event.slot) out
      | .shm =>
          ∀ out, st.outputs[0]? = some out →
            StartsShown st.shm
              (.shm (event.fds.headD 0) event.width event.height event.stride) out
  | .detach => ∀ out ∈ st.outputs, out.frameLoopRunning = false
  | .frameDone i => ∀ out, st.outputs[i]? = some out → displayable st.shm out = true
  | _ => True

/-! ## One output -/

theorem wpWlRefreshBuffer_running (shm : Bool) (out : WlOutput β) :
    (wpWlRefreshBuffer shm out).1.frameLoopRunning = out.frameLoopRunning := by
  simp only [wpWlRefreshBuffer]
  split
  · rfl
  · split
    · rfl
    · split
      · rfl
      · split
        · rfl
        · rfl
    · split
      · rfl
      · rfl

/-- A callback is requested exactly when something is attached. -/
theorem wpWlRefreshBuffer_pending (shm : Bool) (out : WlOutput β) :
    (wpWlRefreshBuffer shm out).1.pendingCallbacks =
      out.pendingCallbacks + if displayable shm out then 1 else 0 := by
  by_cases hsurface : out.surface = true
  · cases hsource : out.currentSource with
    | none => simp [wpWlRefreshBuffer, displayable, hsurface, hsource]
    | some source =>
        cases source with
        | slot wireSlot =>
            cases hslot : out.slots (localIdx wireSlot) with
            | none => simp [wpWlRefreshBuffer, displayable, hsurface, hsource, hslot]
            | some slot =>
                by_cases hid : slot.slot = wireSlot
                · simp [wpWlRefreshBuffer, displayable, hsurface, hsource, hslot, hid]
                · simp [wpWlRefreshBuffer, displayable, hsurface, hsource, hslot, hid]
        | shm fd width height stride =>
            cases shm with
            | false => simp [wpWlRefreshBuffer, displayable, hsurface, hsource]
            | true => simp [wpWlRefreshBuffer, displayable, hsurface, hsource]
  · simp [wpWlRefreshBuffer, displayable, hsurface]

/-- A running loop that has just lost its callback asks for the next one only
if it shows something. -/
theorem loopSound_refresh_iff (shm : Bool) (out : WlOutput β) (hrun : out.frameLoopRunning = true)
    (hpending : out.pendingCallbacks = 0) :
    LoopSound (wpWlRefreshBuffer shm out).1 ↔ displayable shm out = true := by
  rw [LoopSound, wpWlRefreshBuffer_running, wpWlRefreshBuffer_pending, hrun, hpending]
  cases displayable shm out with
  | true => simp
  | false => simp

/-- An idle output with nothing pending ends up sound when one callback is
requested, a running one when it still has its own. -/
theorem loopSound_setCurrentSource_iff (shm : Bool) (source : WlSource) {out : WlOutput β}
    (h : LoopSound out) :
    LoopSound (wpWlSetCurrentSource shm out source).1 ↔ StartsShown shm source out := by
  by_cases hrun : out.frameLoopRunning = true
  · have hkeep : LoopSound { out with currentSource := some source } := h
    rw [wpWlSetCurrentSource_of_running shm source hrun]
    exact ⟨fun _ hidle ↦ absurd (hrun.symm.trans hidle) (by decide), fun _ ↦ hkeep⟩
  · have hidle : out.frameLoopRunning = false := Bool.not_eq_true _ ▸ hrun
    have hpending : out.pendingCallbacks = 0 := by simpa [LoopSound, hidle] using h
    have hloop := loopSound_refresh_iff shm
      { out with currentSource := some source, frameLoopRunning := true } rfl hpending
    rw [wpWlSetCurrentSource_of_idle shm source hidle, hloop]
    exact ⟨fun hshown _ ↦ hshown, fun hstarts ↦ hstarts hidle⟩

theorem releaseSlot_loop (out : WlOutput β) (j : Fin wpWlCaptureSlotCount) :
    (releaseSlot out j).1.frameLoopRunning = out.frameLoopRunning ∧
      (releaseSlot out j).1.pendingCallbacks = out.pendingCallbacks ∧
      (releaseSlot out j).1.surface = out.surface := by
  unfold releaseSlot
  split
  · exact ⟨rfl, rfl, rfl⟩
  · exact ⟨rfl, rfl, rfl⟩

theorem loopSound_storeBuf_iff (shm : Bool) (event : CaptureEvent) (fd : ℤ) (imported : Option β)
    {out : WlOutput β} (h : LoopSound out) :
    LoopSound (storeBuf shm event fd imported out).1 ↔
      (imported.isSome → out.frameLoopRunning = false → out.surface = true) := by
  obtain ⟨hrun, hpending, hsurface⟩ := releaseSlot_loop
    { out with boundChannel := some (channelOf event.slot) } (localIdx event.slot)
  cases imported with
  | none =>
      simp only [storeBuf, Option.isSome_none, Bool.false_eq_true, false_implies, iff_true]
      rw [LoopSound, hrun, hpending]
      exact h
  | some buffer =>
      simp only [storeBuf, Option.isSome_some, true_implies]
      rw [loopSound_setCurrentSource_iff]
      · simp [StartsShown, displayable, hrun, hsurface]
      · rw [LoopSound, hrun, hpending]
        exact h

theorem loopSound_frameCallbackDone_iff (shm : Bool) {out : WlOutput β} (h : LoopSound out)
    (hpending : out.pendingCallbacks ≠ 0) :
    LoopSound (frameCallbackDone shm out).1 ↔ displayable shm out = true := by
  have hrun : out.frameLoopRunning = true := by
    by_contra hidle
    rw [Bool.not_eq_true] at hidle
    exact hpending (by simpa [LoopSound, hidle] using h)
  have hone : out.pendingCallbacks = 1 := by simpa [LoopSound, hrun] using h
  have hnone : out.pendingCallbacks - 1 = 0 := by rw [hone]
  exact loopSound_refresh_iff shm { out with pendingCallbacks := out.pendingCallbacks - 1 }
    hrun hnone

theorem loopSound_detachOutput_iff {out : WlOutput β} (h : LoopSound out) :
    LoopSound (detachOutput out).1 ↔ out.frameLoopRunning = false := by
  cases hrun : out.frameLoopRunning with
  | true => simp_all [LoopSound, detachOutput]
  | false => simp_all [LoopSound, detachOutput]

/-! ## One step -/

theorem frameLoopInvariant_updateOutput_iff {st : WlState β} (h : FrameLoopInvariant st) (i : ℕ)
    (f : WlOutput β → WlOutput β × List (WlEffect β)) :
    FrameLoopInvariant (updateOutput st i f) ↔
      ∀ out, st.outputs[i]? = some out → LoopSound (f out).1 := by
  unfold updateOutput
  cases hout : st.outputs[i]? with
  | none => simp [h]
  | some out =>
      have hi : i < st.outputs.length := (List.getElem?_eq_some_iff.mp hout).1
      constructor
      · intro ht o ho
        obtain rfl := Option.some.inj ho
        exact ht _ (List.mem_set hi _)
      · intro hf o ho
        rcases List.mem_or_eq_of_mem_set ho with ho | rfl
        · exact h o ho
        · exact hf out rfl

theorem frameLoopInvariant_modifyOutput {st : WlState β} (h : FrameLoopInvariant st) (i : ℕ)
    {f : WlOutput β → WlOutput β}
    (hf : ∀ out, (f out).frameLoopRunning = out.frameLoopRunning ∧
      (f out).pendingCallbacks = out.pendingCallbacks) :
    FrameLoopInvariant (modifyOutput st i f) := by
  apply (frameLoopInvariant_updateOutput_iff h i _).mpr
  intro out hout
  have hsound := h out (List.mem_of_getElem? hout)
  rw [LoopSound] at hsound ⊢
  rw [(hf out).1, (hf out).2]
  exact hsound

theorem handleBuf_loop_iff {st : WlState β} (h : FrameLoopInvariant st) (event : CaptureEvent)
    (fd : ℤ) (imported : Option β) :
    FrameLoopInvariant (handleBuf st event fd imported) ↔
      (channelOf event.slot < 4 → st.dmabuf = true → imported.isSome →
        ∀ i out, outputForBuf st.outputs event = some i → st.outputs[i]? = some out →
          out.frameLoopRunning = false → out.surface = true) := by
  unfold handleBuf
  by_cases hchannel : channelOf event.slot ≥ 4
  · have hnot : ¬ channelOf event.slot < 4 := UInt32.not_lt.mpr hchannel
    have hkeep : FrameLoopInvariant { st with effects := st.effects ++ [.closeFd fd] } := h
    simp [hchannel, hnot, hkeep]
  · have hlt : channelOf event.slot < 4 := UInt32.not_le.mp hchannel
    rw [if_neg hchannel]
    cases htarget : outputForBuf st.outputs event with
    | none =>
        have hkeep : FrameLoopInvariant { st with effects := st.effects ++ [.closeFd fd] } := h
        simp [hkeep]
    | some i =>
        have hstore : ∀ out, st.outputs[i]? = some out → ∀ buffer : Option β,
            (LoopSound (storeBuf st.shm event fd buffer out).1 ↔
              (buffer.isSome → out.frameLoopRunning = false → out.surface = true)) :=
          fun out hout buffer ↦
            loopSound_storeBuf_iff st.shm event fd buffer (h out (List.mem_of_getElem? hout))
        simp only [frameLoopInvariant_updateOutput_iff h, hlt, true_implies]
        constructor
        · intro hall hdmabuf himported j out hj hout hidle
          obtain rfl := Option.some.inj hj
          have hsound := (hstore out hout _).mp (hall out hout)
          rw [if_pos hdmabuf] at hsound
          exact hsound himported hidle
        · intro hall out hout
          rw [hstore out hout]
          intro himported hidle
          cases hdmabuf : st.dmabuf with
          | false => simp [hdmabuf] at himported
          | true =>
              rw [hdmabuf, if_pos rfl] at himported
              exact hall hdmabuf himported i out rfl hout hidle

theorem handleFrame_loop_iff {st : WlState β} (h : FrameLoopInvariant st) (wireSlot : UInt32) :
    FrameLoopInvariant (handleFrame st wireSlot) ↔
      ∀ i out, findOutputForChannel st.outputs (channelOf wireSlot) = some i →
        st.outputs[i]? = some out → (out.slots (localIdx wireSlot)).isSome →
          StartsShown st.shm (.slot wireSlot) out := by
  unfold handleFrame
  cases hfind : findOutputForChannel st.outputs (channelOf wireSlot) with
  | none => simp [h]
  | some i =>
      simp only [frameLoopInvariant_updateOutput_iff h]
      have hout : ∀ out, st.outputs[i]? = some out →
          (LoopSound (if (out.slots (localIdx wireSlot)).isSome = true then
              wpWlSetCurrentSource st.shm out (.slot wireSlot) else (out, [])).1 ↔
            ((out.slots (localIdx wireSlot)).isSome = true →
              StartsShown st.shm (.slot wireSlot) out)) := by
        intro out hout
        have hsound := h out (List.mem_of_getElem? hout)
        by_cases hslot : (out.slots (localIdx wireSlot)).isSome = true
        · rw [if_pos hslot, loopSound_setCurrentSource_iff _ _ hsound]
          exact ⟨fun hs _ ↦ hs, fun hs ↦ hs hslot⟩
        · rw [if_neg hslot]
          exact ⟨fun _ hs ↦ absurd hs hslot, fun _ ↦ hsound⟩
      constructor
      · intro hall j out hj ho
        obtain rfl := Option.some.inj hj
        exact (hout out ho).mp (hall out ho)
      · intro hall out ho
        exact (hout out ho).mpr (hall i out rfl ho)

theorem handleShm_loop_iff {st : WlState β} (h : FrameLoopInvariant st) (event : CaptureEvent)
    (fd : ℤ) :
    FrameLoopInvariant (handleShm st event fd) ↔
      ∀ out, st.outputs[0]? = some out →
        StartsShown st.shm (.shm fd event.width event.height event.stride) out := by
  unfold handleShm
  by_cases hnil : st.outputs = []
  · have hkeep : FrameLoopInvariant { st with effects := st.effects ++ [.closeFd fd] } := h
    rw [if_pos hnil]
    apply iff_of_true hkeep
    intro out hout
    simp [hnil] at hout
  · rw [if_neg hnil, frameLoopInvariant_updateOutput_iff h]
    constructor
    · intro hall out hout
      exact (loopSound_setCurrentSource_iff _ _ (h out (List.mem_of_getElem? hout))).mp
        (hall out hout)
    · intro hall out hout
      exact (loopSound_setCurrentSource_iff _ _ (h out (List.mem_of_getElem? hout))).mpr
        (hall out hout)

theorem wpWlDetach_loop_iff {st : WlState β} (h : FrameLoopInvariant st) :
    FrameLoopInvariant (wpWlDetach st) ↔ ∀ out ∈ st.outputs, out.frameLoopRunning = false := by
  constructor
  · intro hall out hout
    apply (loopSound_detachOutput_iff (h out hout)).mp
    exact hall _ (List.mem_map_of_mem hout)
  · intro hall out' hout'
    obtain ⟨out, hout, rfl⟩ := List.mem_map.mp hout'
    exact (loopSound_detachOutput_iff (h out hout)).mpr (hall out hout)

/-- From a state with the invariant, a step keeps it exactly when it keeps
the loops. -/
theorem wlStep_loop_iff {st st' : WlState β} {l : WlLabel β} (h : FrameLoopInvariant st)
    (hstep : wlStep st l = some st') : FrameLoopInvariant st' ↔ KeepsLoops st l := by
  cases l with
  | capture event imported =>
      obtain rfl := Option.some.inj hstep
      cases htag : event.tag with
      | buf =>
          simp only [wpWlHandleCaptureEvent, KeepsLoops, htag]
          apply handleBuf_loop_iff
          exact h
      | frame =>
          simp only [wpWlHandleCaptureEvent, KeepsLoops, htag]
          apply handleFrame_loop_iff
          exact h
      | shm =>
          simp only [wpWlHandleCaptureEvent, KeepsLoops, htag]
          exact handleShm_loop_iff h event _
  | detach =>
      obtain rfl := Option.some.inj hstep
      exact wpWlDetach_loop_iff h
  | frameDone i =>
      obtain ⟨out, hout, hpending, rfl⟩ := wlStep_frameDone hstep
      have hsound := h out (List.mem_of_getElem? hout)
      rw [frameLoopInvariant_updateOutput_iff h, KeepsLoops]
      simp only [hout, Option.some.injEq, forall_eq']
      exact loopSound_frameCallbackDone_iff st.shm hsound hpending
  | configure i width height =>
      obtain rfl := wlStep_configure hstep
      simp only [KeepsLoops, iff_true]
      exact frameLoopInvariant_modifyOutput h i fun _ ↦ ⟨rfl, rfl⟩
  | addOutput =>
      obtain rfl := Option.some.inj hstep
      simp only [KeepsLoops, iff_true]
      unfold wpWlAddOutput
      split
      · exact h
      · intro out hout
        rcases List.mem_append.mp hout with hout | hout
        · exact h out hout
        · obtain rfl := List.mem_singleton.mp hout
          rfl
  | geometry i x y =>
      obtain rfl := Option.some.inj hstep
      simp only [KeepsLoops, iff_true]
      exact frameLoopInvariant_modifyOutput h i fun _ ↦ ⟨rfl, rfl⟩
  | mode i current width height =>
      obtain rfl := Option.some.inj hstep
      simp only [KeepsLoops, iff_true]
      apply frameLoopInvariant_modifyOutput h i
      intro out
      unfold outputMode
      split
      · exact ⟨rfl, rfl⟩
      · exact ⟨rfl, rfl⟩
  | done i =>
      obtain rfl := Option.some.inj hstep
      simp only [KeepsLoops, iff_true]
      apply frameLoopInvariant_modifyOutput h i
      intro out
      unfold outputDone wpWlOutputReady
      split
      · exact ⟨rfl, rfl⟩
      · exact ⟨rfl, rfl⟩

/-! ## Runs -/

/-- The loop invariant holds throughout exactly the runs whose steps keep the
loops. -/
theorem frameLoop_always_iff (dmabuf viewporter shm : Bool) (ls : List (WlLabel β)) :
    Always wlStep FrameLoopInvariant (WlState.initial dmabuf viewporter shm) ls ↔
      Guarded wlStep KeepsLoops (WlState.initial dmabuf viewporter shm) ls := by
  apply always_iff_guarded
  · intro st l st' h hstep
    exact wlStep_loop_iff h hstep
  · intro out hout
    exact absurd hout List.not_mem_nil

/-- One output shows a buffer and is detached before its callback comes. -/
def detachedWhileShowing : List (WlLabel ℕ) :=
  [.addOutput, .mode 0 true 1920 1080, .done 0, .configure 0 1920 1080,
    .capture
      { tag := .buf, slot := 0, width := 1920, height := 1080, stride := 7680, modifier := 0
        hasGeometry := true, geomX := 0, geomY := 0, fds := [7] } (some 0),
    .detach]

/-- DETACH leaves the output idle with a callback pending. -/
theorem frameLoop_not_always :
    (exec wlStep (WlState.initial true true true) detachedWhileShowing).map
        (fun st ↦ st.outputs.map fun out ↦ (out.frameLoopRunning, out.pendingCallbacks)) =
      some [(false, 1)] ∧
    ¬ Always wlStep FrameLoopInvariant (WlState.initial true true true) detachedWhileShowing := by
  decide

end Wallpiper.Portal
