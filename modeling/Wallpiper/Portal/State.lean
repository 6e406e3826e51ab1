import Mathlib.Logic.Function.Basic
import Wallpiper.Capture.WireFormat
import Wallpiper.Foundations.Runs

/-!
# The wlroots portal

Outputs with their capture slots, the binding of wire channels to outputs,
and the display loop driven by frame callbacks.  Buffers imported from
dmabufs are of an arbitrary type: the portal never looks into them.  What it
asks of the compositor and the descriptors it closes are recorded as effects.
-/

namespace Wallpiper.Portal

open Capture

def wpWlCaptureSlotCount : ℕ := 3

def wpWlMaxCaptureChannels : ℕ := 4

def wpWlMaxOutputs : ℕ := wpWlMaxCaptureChannels

/-- A slot in use. -/
structure WlSlot (β : Type*) where
  slot : UInt32
  buffer : β
  fd : ℤ
  width : UInt32
  height : UInt32
  deriving DecidableEq, Repr

inductive WlSource where
  | slot (slot : UInt32)
  | shm (fd : ℤ) (width height stride : UInt32)
  deriving DecidableEq, Repr

/-- `pendingCallbacks` counts the frame callbacks that were requested on the
surface and not delivered yet; the other fields are the portal's own. -/
structure WlOutput (β : Type*) where
  known : Bool
  x : Int32
  y : Int32
  width : UInt32
  height : UInt32
  boundChannel : Option UInt32
  surface : Bool
  viewport : Bool
  configuredWidth : UInt32
  configuredHeight : UInt32
  slots : Fin wpWlCaptureSlotCount → Option (WlSlot β)
  currentSource : Option WlSource
  currentShmBuffer : Bool
  currentShmPool : Bool
  frameLoopRunning : Bool
  pendingCallbacks : ℕ

inductive WlEffect (β : Type*) where
  | closeFd (fd : ℤ)
  | destroyBuffer (buffer : β)
  /-- a capture buffer is put on the output at this position -/
  | attach (x y : Int32) (buffer : β) (width height : UInt32)
  | attachShm (x y : Int32) (fd : ℤ) (poolSize width height stride : Int32)
  | attachNone
  | setDestination (width height : UInt32)
  deriving DecidableEq, Repr

structure WlState (β : Type*) where
  outputs : List (WlOutput β)
  dmabuf : Bool
  viewporter : Bool
  shm : Bool
  effects : List (WlEffect β)

variable {β : Type*}

def WlState.initial (dmabuf viewporter shm : Bool) : WlState β :=
  { outputs := [], dmabuf := dmabuf, viewporter := viewporter, shm := shm, effects := [] }

/-- An output as `calloc` and `wp_wl_add_output` leave it. -/
def WlOutput.zero : WlOutput β :=
  { known := false, x := 0, y := 0, width := 0, height := 0, boundChannel := none
    surface := false, viewport := false, configuredWidth := 0, configuredHeight := 0
    slots := fun _ ↦ none, currentSource := none, currentShmBuffer := false
    currentShmPool := false, frameLoopRunning := false, pendingCallbacks := 0 }

def channelOf (wireSlot : UInt32) : UInt32 := wireSlot / 3

def localIdx (wireSlot : UInt32) : Fin wpWlCaptureSlotCount :=
  ⟨wireSlot.toNat % 3, Nat.mod_lt _ (by decide)⟩

/-! ## Binding channels to outputs -/

def findOutputForChannel (outputs : List (WlOutput β)) (channel : UInt32) : Option ℕ :=
  outputs.findIdx? fun out ↦ out.boundChannel == some channel

/-- The output that `claim_output_for_position` would bind. -/
def outputAtPosition (outputs : List (WlOutput β)) (geomX geomY : Int32) : Option ℕ :=
  outputs.findIdx? fun out ↦
    out.known && out.boundChannel.isNone && out.x == geomX && out.y == geomY

/-- The first of the free known outputs that lie furthest to the left, after
`best`. -/
def leftmostFree (best : Option (ℕ × Int32)) (i : ℕ) : List (WlOutput β) → Option ℕ
  | [] => best.map Prod.fst
  | out :: outs =>
      if out.known = false ∨ out.boundChannel.isSome then leftmostFree best (i + 1) outs
      else
        match best with
        | none => leftmostFree (some (i, out.x)) (i + 1) outs
        | some (j, x) =>
            if out.x < x then leftmostFree (some (i, out.x)) (i + 1) outs
            else leftmostFree (some (j, x)) (i + 1) outs

/-- The output that `claim_output_for_size` would bind. -/
def outputOfSize (outputs : List (WlOutput β)) (width height : UInt32) : Option ℕ :=
  match outputs.findIdx? fun out ↦
      out.known && out.boundChannel.isNone && out.width == width && out.height == height with
  | some i => some i
  | none => leftmostFree none 0 outputs

/-- The output that a buffer goes to: the bound one, else the one claimed. -/
def outputForBuf (outputs : List (WlOutput β)) (event : CaptureEvent) : Option ℕ :=
  match findOutputForChannel outputs (channelOf event.slot) with
  | some i => some i
  | none =>
      match if event.hasGeometry then outputAtPosition outputs event.geomX event.geomY
        else none with
      | some i => some i
      | none => outputOfSize outputs event.width event.height

/-! ## Displaying -/

def viewportDestination (out : WlOutput β) : List (WlEffect β) :=
  if out.viewport then [.setDestination out.configuredWidth out.configuredHeight] else []

/-- What the surface is given is decided by the current source; without one,
or when its slot is gone, nothing is attached and no callback requested. -/
def wpWlRefreshBuffer (shm : Bool) (out : WlOutput β) : WlOutput β × List (WlEffect β) :=
  if out.surface = false then (out, [])
  else
    match out.currentSource with
    | none => (out, [])
    | some (.slot wireSlot) =>
        match out.slots (localIdx wireSlot) with
        | none => (out, [])
        | some slot =>
            if slot.slot ≠ wireSlot then (out, [])
            else
              ({ out with
                  pendingCallbacks := out.pendingCallbacks + 1, currentShmBuffer := false },
                .attach out.x out.y slot.buffer slot.width slot.height ::
                  viewportDestination out)
    | some (.shm fd width height stride) =>
        if shm = false then (out, [])
        else
          ({ out with
              pendingCallbacks := out.pendingCallbacks + 1
              currentShmPool := true
              currentShmBuffer := true },
            .attachShm out.x out.y fd (stride.toInt32 * height.toInt32) width.toInt32
              height.toInt32 stride.toInt32 :: viewportDestination out)

def wpWlSetCurrentSource (shm : Bool) (out : WlOutput β) (source : WlSource) :
    WlOutput β × List (WlEffect β) :=
  let out := { out with currentSource := some source }
  if out.frameLoopRunning = false then wpWlRefreshBuffer shm { out with frameLoopRunning := true }
  else (out, [])

theorem wpWlSetCurrentSource_of_running (shm : Bool) (source : WlSource) {out : WlOutput β}
    (h : out.frameLoopRunning = true) :
    wpWlSetCurrentSource shm out source = ({ out with currentSource := some source }, []) := by
  simp [wpWlSetCurrentSource, h]

theorem wpWlSetCurrentSource_of_idle (shm : Bool) (source : WlSource) {out : WlOutput β}
    (h : out.frameLoopRunning = false) :
    wpWlSetCurrentSource shm out source =
      wpWlRefreshBuffer shm
        { out with currentSource := some source, frameLoopRunning := true } := by
  simp [wpWlSetCurrentSource, h]

/-- Run one output's code and record its effects. -/
def updateOutput (st : WlState β) (i : ℕ) (f : WlOutput β → WlOutput β × List (WlEffect β)) :
    WlState β :=
  match st.outputs[i]? with
  | none => st
  | some out =>
      { st with outputs := st.outputs.set i (f out).1, effects := st.effects ++ (f out).2 }

theorem updateOutput_getElem? (st : WlState β) (i k : ℕ)
    (f : WlOutput β → WlOutput β × List (WlEffect β)) :
    (updateOutput st i f).outputs[k]? =
      if k = i then (st.outputs[k]?).map fun out ↦ (f out).1 else st.outputs[k]? := by
  unfold updateOutput
  by_cases hk : k = i
  · subst hk
    rw [if_pos rfl]
    cases hout : st.outputs[k]? with
    | none => simp [hout]
    | some out =>
        have hlt := (List.getElem?_eq_some_iff.mp hout).1
        simp [hlt]
  · rw [if_neg hk]
    cases hout : st.outputs[i]? with
    | none => rfl
    | some out => exact List.getElem?_set_ne (Ne.symm hk)

theorem updateOutput_effects (st : WlState β) (i : ℕ)
    (f : WlOutput β → WlOutput β × List (WlEffect β)) {e : WlEffect β}
    (he : e ∈ (updateOutput st i f).effects) :
    e ∈ st.effects ∨ ∃ out, st.outputs[i]? = some out ∧ e ∈ (f out).2 := by
  unfold updateOutput at he
  cases hout : st.outputs[i]? with
  | none =>
      rw [hout] at he
      exact .inl he
  | some out =>
      rw [hout] at he
      rcases List.mem_append.mp he with he | he
      · exact .inl he
      · exact .inr ⟨out, rfl, he⟩

/-- The slot is emptied before the new buffer is imported. -/
def releaseSlot (out : WlOutput β) (j : Fin wpWlCaptureSlotCount) :
    WlOutput β × List (WlEffect β) :=
  match out.slots j with
  | none => (out, [])
  | some slot =>
      ({ out with slots := Function.update out.slots j none },
        [.destroyBuffer slot.buffer, .closeFd slot.fd])

/-- A buffer on its output.  `imported` is what the compositor's import
returns. -/
def storeBuf (shm : Bool) (event : CaptureEvent) (fd : ℤ) (imported : Option β)
    (out : WlOutput β) : WlOutput β × List (WlEffect β) :=
  let out := { out with boundChannel := some (channelOf event.slot) }
  let (out, released) := releaseSlot out (localIdx event.slot)
  match imported with
  | none => (out, released ++ [.closeFd fd])
  | some buffer =>
      let slot : WlSlot β := ⟨event.slot, buffer, fd, event.width, event.height⟩
      let out := { out with slots := Function.update out.slots (localIdx event.slot) (some slot) }
      let (out, shown) := wpWlSetCurrentSource shm out (.slot event.slot)
      (out, released ++ shown)

def handleBuf (st : WlState β) (event : CaptureEvent) (fd : ℤ) (imported : Option β) :
    WlState β :=
  if channelOf event.slot ≥ 4 then { st with effects := st.effects ++ [.closeFd fd] }
  else
    match outputForBuf st.outputs event with
    | none => { st with effects := st.effects ++ [.closeFd fd] }
    | some i =>
        let buffer := if st.dmabuf then imported else none
        updateOutput st i (storeBuf st.shm event fd buffer)

def handleFrame (st : WlState β) (wireSlot : UInt32) : WlState β :=
  match findOutputForChannel st.outputs (channelOf wireSlot) with
  | none => st
  | some i =>
      updateOutput st i fun out ↦
        if (out.slots (localIdx wireSlot)).isSome then
          wpWlSetCurrentSource st.shm out (.slot wireSlot)
        else (out, [])

def handleShm (st : WlState β) (event : CaptureEvent) (fd : ℤ) : WlState β :=
  if st.outputs = [] then { st with effects := st.effects ++ [.closeFd fd] }
  else
    updateOutput st 0 fun out ↦
      wpWlSetCurrentSource st.shm out (.shm fd event.width event.height event.stride)

/-- The first descriptor of a buffer or SHM event is its image; a second one
and that of a frame are sync descriptors, which are closed. -/
def wpWlHandleCaptureEvent (st : WlState β) (event : CaptureEvent) (imported : Option β) :
    WlState β :=
  match event.tag with
  | .buf =>
      let st := { st with effects := st.effects ++ (event.fds.drop 1).map .closeFd }
      handleBuf st event (event.fds.headD 0) imported
  | .frame =>
      let st := { st with effects := st.effects ++ (event.fds.take 1).map .closeFd }
      handleFrame st event.slot
  | .shm => handleShm st event (event.fds.headD 0)

def detachOutput (out : WlOutput β) : WlOutput β × List (WlEffect β) :=
  let inUse := (List.finRange wpWlCaptureSlotCount).filterMap out.slots
  ({ out with
      currentSource := none
      frameLoopRunning := false
      boundChannel := none
      currentShmBuffer := false
      currentShmPool := false
      slots := fun _ ↦ none },
    (if out.surface then [.attachNone] else []) ++
      inUse.flatMap fun slot ↦ [.destroyBuffer slot.buffer, .closeFd slot.fd])

def wpWlDetach (st : WlState β) : WlState β :=
  { st with
    outputs := st.outputs.map fun out ↦ (detachOutput out).1
    effects := st.effects ++ st.outputs.flatMap fun out ↦ (detachOutput out).2 }

/-! ## Compositor events -/

def frameCallbackDone (shm : Bool) (out : WlOutput β) : WlOutput β × List (WlEffect β) :=
  wpWlRefreshBuffer shm { out with pendingCallbacks := out.pendingCallbacks - 1 }

def layerSurfaceConfigure (width height : UInt32) (out : WlOutput β) : WlOutput β :=
  { out with
    configuredWidth := if width > 0 then width else out.configuredWidth
    configuredHeight := if height > 0 then height else out.configuredHeight }

def outputGeometry (x y : Int32) (out : WlOutput β) : WlOutput β := { out with x := x, y := y }

def outputMode (current : Bool) (width height : Int32) (out : WlOutput β) : WlOutput β :=
  if current then { out with width := width.toUInt32, height := height.toUInt32 } else out

def wpWlOutputReady (viewporter : Bool) (out : WlOutput β) : WlOutput β :=
  if out.surface then out else { out with surface := true, viewport := viewporter }

def outputDone (viewporter : Bool) (out : WlOutput β) : WlOutput β :=
  wpWlOutputReady viewporter { out with known := true }

def wpWlAddOutput (st : WlState β) : WlState β :=
  if st.outputs.length ≥ wpWlMaxOutputs then st
  else { st with outputs := st.outputs ++ [.zero] }

inductive WlLabel (β : Type*) where
  | capture (event : CaptureEvent) (imported : Option β)
  | detach
  | frameDone (output : ℕ)
  | configure (output : ℕ) (width height : UInt32)
  | addOutput
  | geometry (output : ℕ) (x y : Int32)
  | mode (output : ℕ) (current : Bool) (width height : Int32)
  | done (output : ℕ)

/-- Code that changes an output without effects. -/
def modifyOutput (st : WlState β) (i : ℕ) (f : WlOutput β → WlOutput β) : WlState β :=
  updateOutput st i fun out ↦ (f out, [])

/-- A frame callback is delivered only if one is pending; a surface is
configured only if it exists. -/
def wlStep (st : WlState β) : WlLabel β → Option (WlState β)
  | .capture event imported => some (wpWlHandleCaptureEvent st event imported)
  | .detach => some (wpWlDetach st)
  | .frameDone i =>
      match st.outputs[i]? with
      | some out =>
          if out.pendingCallbacks = 0 then none
          else some (updateOutput st i (frameCallbackDone st.shm))
      | none => none
  | .configure i width height =>
      match st.outputs[i]? with
      | some out =>
          if out.surface = false then none
          else some (modifyOutput st i (layerSurfaceConfigure width height))
      | none => none
  | .addOutput => some (wpWlAddOutput st)
  | .geometry i x y => some (modifyOutput st i (outputGeometry x y))
  | .mode i current width height => some (modifyOutput st i (outputMode current width height))
  | .done i => some (modifyOutput st i (outputDone st.viewporter))

theorem wlStep_frameDone {st st' : WlState β} {i : ℕ} (h : wlStep st (.frameDone i) = some st') :
    ∃ out, st.outputs[i]? = some out ∧ out.pendingCallbacks ≠ 0 ∧
      st' = updateOutput st i (frameCallbackDone st.shm) := by
  simp only [wlStep] at h
  split at h
  · rename_i out hout
    split at h
    · exact absurd h (by simp)
    · rename_i hpending
      exact ⟨out, hout, hpending, (Option.some.inj h).symm⟩
  · exact absurd h (by simp)

theorem wlStep_configure {st st' : WlState β} {i : ℕ} {width height : UInt32}
    (h : wlStep st (.configure i width height) = some st') :
    st' = modifyOutput st i (layerSurfaceConfigure width height) := by
  simp only [wlStep] at h
  split at h
  · split at h
    · exact absurd h (by simp)
    · exact (Option.some.inj h).symm
  · exact absurd h (by simp)

end Wallpiper.Portal
