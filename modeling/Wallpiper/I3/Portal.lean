import Mathlib.Logic.Function.Basic
import Wallpiper.Capture.WireFormat
import Wallpiper.Foundations.Ledgers

/-!
# The i3 portal

Outputs with their background windows, the pixmaps imported for them and the
requests that the portal makes of the X server.  The names that
`xcb_generate_id` returns and the errors that the server reports are part of
the input; what the portal asks of the server and the descriptors it closes
are recorded as effects.
-/

namespace Wallpiper.I3

open Capture Foundations

def wpI3CaptureSlotCount : ℕ := 3

def wpI3MaxCaptureChannels : ℕ := 4

def wpDebugOverlayHeight : Int32 := 120

/-- A slot in use. -/
structure I3Slot where
  slot : UInt32
  pixmap : ℕ
  width : UInt32
  height : UInt32
  deriving DecidableEq, Repr

/-- A valid SHM pixmap. -/
structure I3ShmPixmap where
  pixmap : ℕ
  seg : ℕ
  width : UInt32
  height : UInt32
  deriving DecidableEq, Repr

inductive I3Source where
  | slot (slot : UInt32)
  | shm
  deriving DecidableEq, Repr

structure I3Output where
  known : Bool
  x : Int32
  y : Int32
  width : UInt32
  height : UInt32
  window : ℕ
  boundChannel : Option UInt32
  slots : Fin wpI3CaptureSlotCount → Option I3Slot
  currentShmPixmap : Option I3ShmPixmap
  currentSource : Option I3Source

inductive I3Effect where
  | closeFd (fd : ℤ)
  | pixmapFromBuffers (pixmap window : ℕ) (width height : UInt16) (stride : UInt32)
      (modifier : UInt64) (fd : ℤ) (ok : Bool)
  | shmAttachFd (seg : ℕ) (fd : ℤ) (ok : Bool)
  | shmCreatePixmap (pixmap window : ℕ) (width height : UInt16) (seg : ℕ) (ok : Bool)
  | freePixmap (pixmap : ℕ)
  | shmDetach (seg : ℕ)
  | copyArea (pixmap window : ℕ) (width height : UInt16)
  | putOverlay (window : ℕ) (y : Int16)
  | clearWindow (window : ℕ)
  deriving DecidableEq, Repr

structure I3State where
  outputs : List I3Output
  debugEnabled : Bool

/-- What `xcb_generate_id` and `xcb_request_check` return while one event is
handled. -/
structure XAnswers where
  pixmap : ℕ
  seg : ℕ
  imported : Bool
  attached : Bool
  created : Bool
  deriving DecidableEq, Repr

/-- An active output of i3 and the window created for it. -/
structure I3Screen where
  x : Int32
  y : Int32
  width : UInt32
  height : UInt32
  window : ℕ
  deriving DecidableEq, Repr

/-- An output as `try_detect_outputs` and the window creation leave it. -/
def I3Output.detected (screen : I3Screen) : I3Output :=
  { known := true, x := screen.x, y := screen.y, width := screen.width, height := screen.height
    window := screen.window, boundChannel := none, slots := fun _ ↦ none
    currentShmPixmap := none, currentSource := none }

def channelOf (wireSlot : UInt32) : UInt32 := wireSlot / 3

def localIdx (wireSlot : UInt32) : Fin wpI3CaptureSlotCount :=
  ⟨wireSlot.toNat % wpI3CaptureSlotCount, Nat.mod_lt _ (Nat.succ_pos 2)⟩

/-! ## Displaying -/

def overlayY (height : UInt32) : Int16 :=
  let y := (height.toInt32 - wpDebugOverlayHeight) / 2
  (if y < 0 then 0 else y).toInt16

def drawDebugOverlay (out : I3Output) : List I3Effect :=
  [.putOverlay out.window (overlayY out.height)]

/-- The pixmap that the current source names, with its size. -/
def shownPixmap (out : I3Output) : Option (ℕ × UInt32 × UInt32) :=
  match out.currentSource with
  | none => none
  | some (.slot wireSlot) =>
      match out.slots (localIdx wireSlot) with
      | none => none
      | some slot =>
          if slot.slot ≠ wireSlot then none else some (slot.pixmap, slot.width, slot.height)
  | some .shm => out.currentShmPixmap.map fun shm ↦ (shm.pixmap, shm.width, shm.height)

/-- `overlay` tells that the panel is enabled and this is the first output. -/
def refreshBuffer (overlay : Bool) (out : I3Output) : List I3Effect :=
  match shownPixmap out with
  | none => []
  | some (pixmap, width, height) =>
      .copyArea pixmap out.window width.toUInt16 height.toUInt16 ::
        if overlay then drawDebugOverlay out else []

def setCurrentSource (overlay : Bool) (out : I3Output) (source : I3Source) :
    I3Output × List I3Effect :=
  let out := { out with currentSource := some source }
  (out, refreshBuffer overlay out)

/-! ## Binding channels to outputs -/

def findOutputForChannel (outputs : List I3Output) (channel : UInt32) : Option ℕ :=
  outputs.findIdx? fun out ↦ out.boundChannel == some channel

/-- The first of the free known outputs that lie furthest to the left, after
`best`. -/
def leftmostFree (best : Option (ℕ × Int32)) (i : ℕ) : List I3Output → Option ℕ
  | [] => best.map Prod.fst
  | out :: outs =>
      if out.known = false ∨ out.boundChannel.isSome then leftmostFree best (i + 1) outs
      else if best.all fun b ↦ out.x < b.2 then leftmostFree (some (i, out.x)) (i + 1) outs
      else leftmostFree best (i + 1) outs

/-- The output that `claim_output_for_size` binds. -/
def outputForSize (outputs : List I3Output) (width height : UInt32) : Option ℕ :=
  match outputs.findIdx? fun out ↦
      out.known && out.boundChannel.isNone && out.width == width && out.height == height with
  | some i => some i
  | none => leftmostFree none 0 outputs

/-- The output that a buffer goes to: the bound one, else the one claimed. -/
def outputForBuf (outputs : List I3Output) (event : CaptureEvent) : Option ℕ :=
  match findOutputForChannel outputs (channelOf event.slot) with
  | some i => some i
  | none => outputForSize outputs event.width event.height

/-! ## Capture events -/

/-- Run one output's code. -/
def updateOutput (st : I3State) (i : ℕ) (f : I3Output → I3Output × List I3Effect) :
    I3State × List I3Effect :=
  match st.outputs[i]? with
  | none => (st, [])
  | some out => ({ st with outputs := st.outputs.set i (f out).1 }, (f out).2)

/-- The slot is emptied before the new buffer is imported. -/
def releaseSlot (out : I3Output) (j : Fin wpI3CaptureSlotCount) : I3Output × List I3Effect :=
  match out.slots j with
  | none => (out, [])
  | some slot =>
      ({ out with slots := Function.update out.slots j none }, [.freePixmap slot.pixmap])

/-- A buffer on its output.  XCB closes the descriptor once the request is
sent, whatever the server answers. -/
def storeBuf (overlay : Bool) (event : CaptureEvent) (fd : ℤ) (answers : XAnswers)
    (out : I3Output) : I3Output × List I3Effect :=
  let out := { out with boundChannel := some (channelOf event.slot) }
  let (out, released) := releaseSlot out (localIdx event.slot)
  let request : I3Effect := .pixmapFromBuffers answers.pixmap out.window event.width.toUInt16
    event.height.toUInt16 event.stride event.modifier fd answers.imported
  if answers.imported then
    let slot : I3Slot := ⟨event.slot, answers.pixmap, event.width, event.height⟩
    let out := { out with slots := Function.update out.slots (localIdx event.slot) (some slot) }
    let (out, shown) := setCurrentSource overlay out (.slot event.slot)
    (out, released ++ request :: shown)
  else (out, released ++ [request])

def handleBuf (st : I3State) (event : CaptureEvent) (fd : ℤ) (answers : XAnswers) :
    I3State × List I3Effect :=
  if channelOf event.slot ≥ 4 then (st, [.closeFd fd])
  else
    match outputForBuf st.outputs event with
    | none => (st, [.closeFd fd])
    | some i =>
        updateOutput st i (storeBuf (st.debugEnabled && i == 0) event fd answers)

def releaseShm (out : I3Output) : List I3Effect :=
  match out.currentShmPixmap with
  | none => []
  | some shm => [.freePixmap shm.pixmap, .shmDetach shm.seg]

/-- An SHM image on the first output.  Only tightly packed rows can be
imported. -/
def storeShm (overlay : Bool) (event : CaptureEvent) (fd : ℤ) (answers : XAnswers)
    (out : I3Output) : I3Output × List I3Effect :=
  if event.stride ≠ event.width * 4 then (out, [.closeFd fd])
  else if answers.attached = false then (out, [.shmAttachFd answers.seg fd false])
  else
    let request : I3Effect := .shmCreatePixmap answers.pixmap out.window event.width.toUInt16
      event.height.toUInt16 answers.seg answers.created
    if answers.created = false then
      (out, [.shmAttachFd answers.seg fd true, request, .shmDetach answers.seg])
    else
      let released := releaseShm out
      let shm : I3ShmPixmap := ⟨answers.pixmap, answers.seg, event.width, event.height⟩
      let (out, shown) :=
        setCurrentSource overlay { out with currentShmPixmap := some shm } .shm
      (out, [.shmAttachFd answers.seg fd true, request] ++ released ++ shown)

def handleShm (st : I3State) (event : CaptureEvent) (fd : ℤ) (answers : XAnswers) :
    I3State × List I3Effect :=
  if st.outputs = [] then (st, [.closeFd fd])
  else updateOutput st 0 (storeShm st.debugEnabled event fd answers)

def handleFrame (st : I3State) (wireSlot : UInt32) : I3State × List I3Effect :=
  match findOutputForChannel st.outputs (channelOf wireSlot) with
  | none => (st, [])
  | some i =>
      updateOutput st i fun out ↦
        if (out.slots (localIdx wireSlot)).isSome then
          setCurrentSource (st.debugEnabled && i == 0) out (.slot wireSlot)
        else (out, [])

/-- The second descriptor of a buffer and the one of a frame are sync
descriptors, which are closed at once. -/
def handleCaptureEvent (st : I3State) (event : CaptureEvent) (answers : XAnswers) :
    I3State × List I3Effect :=
  match event.tag with
  | .buf =>
      let (st, effects) := handleBuf st event (event.fds.headD 0) answers
      (st, (event.fds.drop 1).map .closeFd ++ effects)
  | .frame =>
      let (st, effects) := handleFrame st event.slot
      (st, (event.fds.take 1).map .closeFd ++ effects)
  | .shm => handleShm st event (event.fds.headD 0) answers

/-! ## Requests and X events -/

def detachOutput (out : I3Output) : I3Output × List I3Effect :=
  ({ out with
      slots := fun _ ↦ none
      currentShmPixmap := none
      currentSource := none
      boundChannel := none },
    ((List.finRange wpI3CaptureSlotCount).filterMap out.slots).map
        (fun slot ↦ I3Effect.freePixmap slot.pixmap) ++
      releaseShm out ++ [.clearWindow out.window])

def detach (st : I3State) : I3State × List I3Effect :=
  ({ st with outputs := st.outputs.map fun out ↦ (detachOutput out).1 },
    st.outputs.flatMap fun out ↦ (detachOutput out).2)

def setDebugEnabled (st : I3State) (enabled : Bool) : I3State × List I3Effect :=
  let st := { st with debugEnabled := enabled }
  (st, (st.outputs.head?.elim []
    fun out ↦ if enabled then drawDebugOverlay out else refreshBuffer false out))

/-- The last of a series of exposures redraws the output of that window. -/
def handleExpose (st : I3State) (window count : ℕ) : List I3Effect :=
  if count = 0 then
    match st.outputs.findIdx? fun out ↦ out.window == window with
    | none => []
    | some i => st.outputs[i]?.elim [] (refreshBuffer (st.debugEnabled && i == 0))
  else []

inductive I3Label where
  | capture (event : CaptureEvent) (answers : XAnswers)
  | detach
  | debug (enabled : Bool)
  /-- the panel is redrawn if its interval is over -/
  | redraw (due : Bool)
  | expose (window count : ℕ)
  | destroyNotify (window : ℕ)
  deriving DecidableEq, Repr

/-- The process exits when one of its windows is destroyed. -/
def handleLabel (st : I3State) : I3Label → Option (I3State × List I3Effect)
  | .capture event answers => some (handleCaptureEvent st event answers)
  | .detach => some (detach st)
  | .debug enabled => some (setDebugEnabled st enabled)
  | .redraw due =>
      some (st, if st.debugEnabled && due then st.outputs.head?.elim [] drawDebugOverlay else [])
  | .expose window count => some (st, handleExpose st window count)
  | .destroyNotify window =>
      if st.outputs.any fun out ↦ out.window == window then none else some (st, [])

end Wallpiper.I3
