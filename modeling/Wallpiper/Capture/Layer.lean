import Wallpiper.Capture.WireFormat
import Wallpiper.Foundations.Table

/-!
# The capture layer

Each device has a table of swapchains with a ring of capture slots; the wire
channels and the window positions kept for them belong to the process.  What
the driver and the X server answer is part of the arguments.  A swapchain is
presented and destroyed by one thread at a time, and a present gives up the
table lock only to send, so a present is one step.
-/

namespace Wallpiper.Capture

open Foundations

def wpMaxSwapchains : ℕ := 16

def wpCaptureSlotCount : ℕ := 3

def wpMaxCaptureChannels : ℕ := 4

instance : NeZero wpCaptureSlotCount := ⟨by decide⟩

abbrev WireChannel : Type := Fin wpMaxCaptureChannels

abbrev SlotIndex : Type := Fin wpCaptureSlotCount

abbrev Position : Type := Int32 × Int32

inductive SlotOwnership where
  | neverWritten
  | releasedToForeign
  deriving DecidableEq, Repr

/-- A slot in use.  Its image stands for all its driver objects. -/
structure CaptureSlot where
  image : UInt64
  fencePending : Bool
  ownership : SlotOwnership
  bufSent : Bool
  stride : UInt32
  modifier : UInt64
  deriving DecidableEq, Repr

/-- A swapchain in use.  Where its window was when it was registered is never
read: the code keeps the position per wire channel. -/
structure SwapchainState where
  swapchain : UInt64
  format : UInt32
  width : UInt32
  height : UInt32
  imageCount : UInt32
  candidateModifiers : List UInt64
  slots : SlotIndex → Option CaptureSlot
  nextSlot : SlotIndex
  wireChannel : WireChannel
  window : Option Position

structure DeviceData where
  swapchains : Fin wpMaxSwapchains → Option SwapchainState

def DeviceData.empty : DeviceData := { swapchains := fun _ ↦ none }

inductive FenceStatus where
  | success
  | notReady
  | error
  deriving DecidableEq, Repr

/-- The driver calls of a present whose order matters, by slot image. -/
inductive DriverCall where
  | getFenceStatus (image : UInt64) (status : FenceStatus)
  | waitForFences (image : UInt64) (ok : Bool)
  | resetFences (image : UInt64) (ok : Bool)
  | resetCommandBuffer (image : UInt64) (ok : Bool)
  | beginCommandBuffer (image : UInt64) (ok : Bool)
  | copyBarriers (image : UInt64) (acquireFromForeign : Bool)
  | endCommandBuffer (image : UInt64) (ok : Bool)
  | queueSubmit (image : UInt64) (ok : Bool)
  | getSemaphoreFd (image : UInt64) (ok : Bool)
  | getMemoryFd (image : UInt64) (ok : Bool)
  | destroy (image : UInt64)
  deriving DecidableEq, Repr

structure CaptureLayer where
  devices : ℕ → DeviceData
  channelInUse : WireChannel → Bool
  channelGeometry : WireChannel → Option Position
  calls : List DriverCall

def CaptureLayer.initial : CaptureLayer :=
  { devices := fun _ ↦ .empty, channelInUse := fun _ ↦ false, channelGeometry := fun _ ↦ none
    calls := [] }

def CaptureLayer.put (layer : CaptureLayer) (d : ℕ) (i : Fin wpMaxSwapchains)
    (state : Option SwapchainState) : CaptureLayer :=
  { layer with
    devices := Function.update layer.devices d
      { swapchains := Function.update (layer.devices d).swapchains i state } }

def CaptureLayer.addCalls (layer : CaptureLayer) (calls : List DriverCall) : CaptureLayer :=
  { layer with calls := layer.calls ++ calls }

/-! ## Registering and destroying swapchains -/

def findSwapchain (dd : DeviceData) (swapchain : UInt64) :
    Option (Fin wpMaxSwapchains × SwapchainState) :=
  Table.find (fun state ↦ state.swapchain == swapchain) dd.swapchains

def allocWireChannel (layer : CaptureLayer) : Option WireChannel :=
  (List.finRange wpMaxCaptureChannels).find? fun c ↦ !layer.channelInUse c

/-- What a swapchain is created with, and the position of its window if the X
server knows it. -/
structure SwapchainInfo where
  format : UInt32
  width : UInt32
  height : UInt32
  imageCount : UInt32
  candidateModifiers : List UInt64
  geometry : Option Position
  deriving DecidableEq, Repr

def newSwapchain (swapchain : UInt64) (info : SwapchainInfo) (c : WireChannel) : SwapchainState :=
  { swapchain := swapchain, format := info.format, width := info.width, height := info.height
    imageCount := info.imageCount, candidateModifiers := info.candidateModifiers
    slots := fun _ ↦ none, nextSlot := 0, wireChannel := c, window := info.geometry }

def wpRegisterSwapchain (layer : CaptureLayer) (d : ℕ) (swapchain : UInt64)
    (info : SwapchainInfo) : CaptureLayer :=
  match Table.free (layer.devices d).swapchains with
  | none => layer
  | some i =>
      match allocWireChannel layer with
      | none => layer
      | some c =>
          { layer.put d i (some (newSwapchain swapchain info c)) with
            channelInUse := Function.update layer.channelInUse c true
            channelGeometry := Function.update layer.channelGeometry c info.geometry }

/-- A pending fence is waited for, but a timeout does not stop the slot's
destruction. -/
def destroyCaptureSlot (slot : CaptureSlot) (fenceWait : Bool) : List DriverCall :=
  (if slot.fencePending then [.waitForFences slot.image fenceWait] else []) ++
    [.destroy slot.image]

def wpTeardownSwapchain (layer : CaptureLayer) (d : ℕ) (swapchain : UInt64)
    (fenceWait : SlotIndex → Bool) : CaptureLayer :=
  match findSwapchain (layer.devices d) swapchain with
  | none => layer
  | some (i, state) =>
      let destroyed := (List.finRange wpCaptureSlotCount).flatMap fun j ↦
        match state.slots j with
        | none => []
        | some slot => destroyCaptureSlot slot (fenceWait j)
      ({ layer.put d i none with
        channelInUse := Function.update layer.channelInUse state.wireChannel false }).addCalls
          destroyed

/-- The device's table is freed as it is; wire channels of its swapchains stay
in use. -/
def wpDeviceDataRemove (layer : CaptureLayer) (d : ℕ) : CaptureLayer :=
  { layer with devices := Function.update layer.devices d .empty }

/-! ## Presenting -/

/-- The driver's answers to one present.  A created slot is its image, stride
and modifier; an exported semaphore may come without a descriptor. -/
structure DriverAnswers where
  queueFamilyKnown : Bool
  createSlot : Option (UInt64 × UInt32 × UInt64)
  fenceStatus : FenceStatus
  fenceWait : Bool
  resetFences : Bool
  resetCommandBuffer : Bool
  beginCommandBuffer : Bool
  endCommandBuffer : Bool
  queueSubmit : Bool
  semaphoreFd : Option (Option ℕ)
  memoryFd : Option ℕ
  deriving DecidableEq, Repr

def createCaptureSlot (state : SwapchainState) (driver : DriverAnswers) : Option CaptureSlot :=
  if state.candidateModifiers = [] then none
  else
    driver.createSlot.map fun (image, stride, modifier) ↦
      { image := image, fencePending := false, ownership := .neverWritten, bufSent := false
        stride := stride, modifier := modifier }

/-- The slot's last copy is known to be over, or the present is skipped. -/
def clearFence (slot : CaptureSlot) (driver : DriverAnswers) :
    Option CaptureSlot × List DriverCall :=
  if slot.fencePending = false then (some slot, [])
  else
    let polled : List DriverCall := [.getFenceStatus slot.image driver.fenceStatus]
    match driver.fenceStatus with
    | .success => (some { slot with fencePending := false }, polled)
    | .notReady =>
        let calls := polled ++ [.waitForFences slot.image driver.fenceWait]
        if driver.fenceWait then (some { slot with fencePending := false }, calls)
        else (none, calls)
    | .error => (none, polled)

def recordAndSubmitCopy (slot : CaptureSlot) (driver : DriverAnswers) : Bool × List DriverCall :=
  let begun : List DriverCall := [.beginCommandBuffer slot.image driver.beginCommandBuffer]
  if driver.beginCommandBuffer = false then (false, begun)
  else
    let recorded := begun ++
      [.copyBarriers slot.image (slot.ownership = .releasedToForeign),
        .endCommandBuffer slot.image driver.endCommandBuffer]
    if driver.endCommandBuffer = false then (false, recorded)
    else (driver.queueSubmit, recorded ++ [.queueSubmit slot.image driver.queueSubmit])

/-- A slot after its part of a present, whether a copy was submitted, and the
calls made. -/
structure SlotCopy where
  slot : CaptureSlot
  submitted : Bool
  calls : List DriverCall
  deriving DecidableEq, Repr

def captureSlot (slot : CaptureSlot) (driver : DriverAnswers) : SlotCopy :=
  match clearFence slot driver with
  | (none, calls) => ⟨slot, false, calls⟩
  | (some slot, calls) =>
      if driver.resetFences = false then ⟨slot, false, calls ++ [.resetFences slot.image false]⟩
      else if driver.resetCommandBuffer = false then
        ⟨slot, false, calls ++
          [.resetFences slot.image true, .resetCommandBuffer slot.image false]⟩
      else
        let copy := recordAndSubmitCopy slot driver
        let calls := calls ++
          [.resetFences slot.image true, .resetCommandBuffer slot.image true] ++ copy.2
        if copy.1 = false then ⟨slot, false, calls⟩
        else ⟨{ slot with ownership := .releasedToForeign, fencePending := true }, true, calls⟩

/-- A message of the capture link, with the descriptors it carries. -/
inductive CaptureMessage where
  | buf (slot width height formatRaw stride : UInt32) (modifier : UInt64)
      (geometry : Option Position) (imageFd : ℕ) (syncFd : Option ℕ)
  | frame (slot : UInt32) (syncFd : Option ℕ)
  deriving DecidableEq, Repr

/-- What a present hands to the link.  The window is that of the swapchain
the message comes from and is not sent. -/
structure Notice where
  swapchain : UInt64
  slotIdx : SlotIndex
  message : CaptureMessage
  window : Option Position
  deriving DecidableEq, Repr

def wireSlot (c : WireChannel) (j : SlotIndex) : UInt32 :=
  UInt32.ofNat (c.val * wpCaptureSlotCount + j.val)

/-- The message of a submitted copy: the buffer itself if it was not sent
yet, unless its memory cannot be exported. -/
def captureMessage (layer : CaptureLayer) (state : SwapchainState) (j : SlotIndex)
    (slot : CaptureSlot) (driver : DriverAnswers) : Option CaptureMessage :=
  let syncFd := driver.semaphoreFd.getD none
  if slot.bufSent = false then
    driver.memoryFd.map fun fd ↦
      .buf (wireSlot state.wireChannel j) state.width state.height state.format slot.stride
        slot.modifier (layer.channelGeometry state.wireChannel) fd syncFd
  else some (.frame (wireSlot state.wireChannel j) syncFd)

def exportCalls (slot : CaptureSlot) (driver : DriverAnswers) : List DriverCall :=
  .getSemaphoreFd slot.image driver.semaphoreFd.isSome ::
    if slot.bufSent = false then [.getMemoryFd slot.image driver.memoryFd.isSome] else []

/-- The part of a present that works on its slot, up to the message it sends. -/
def presentSlot (layer : CaptureLayer) (d : ℕ) (i : Fin wpMaxSwapchains) (state : SwapchainState)
    (j : SlotIndex) (slot : CaptureSlot) (driver : DriverAnswers) :
    CaptureLayer × Option Notice :=
  let copy := captureSlot slot driver
  let state := { state with slots := Function.update state.slots j (some copy.slot) }
  if copy.submitted = false then ((layer.put d i (some state)).addCalls copy.calls, none)
  else
    ((layer.put d i (some state)).addCalls (copy.calls ++ exportCalls copy.slot driver),
      (captureMessage layer state j copy.slot driver).map fun message ↦
        ⟨state.swapchain, j, message, state.window⟩)

def wpCaptureAndNotify (layer : CaptureLayer) (d : ℕ) (swapchain : UInt64) (imageIndex : UInt32)
    (driver : DriverAnswers) : CaptureLayer × Option Notice :=
  if driver.queueFamilyKnown = false then (layer, none)
  else
    match findSwapchain (layer.devices d) swapchain with
    | none => (layer, none)
    | some (i, state) =>
        if imageIndex ≥ state.imageCount then (layer, none)
        else
          match (state.slots state.nextSlot).or (createCaptureSlot state driver) with
          | none => (layer.put d i (some { state with nextSlot := state.nextSlot + 1 }), none)
          | some slot =>
              presentSlot layer d i { state with nextSlot := state.nextSlot + 1 } state.nextSlot
                slot driver

/-- A buffer that was sent is marked, if its slot is still there. -/
def markBufSent (layer : CaptureLayer) (d : ℕ) (notice : Notice) : CaptureLayer :=
  match notice.message with
  | .frame .. => layer
  | .buf .. =>
      match findSwapchain (layer.devices d) notice.swapchain with
      | none => layer
      | some (i, state) =>
          match state.slots notice.slotIdx with
          | none => layer
          | some slot =>
              layer.put d i (some { state with
                slots := Function.update state.slots notice.slotIdx
                  (some { slot with bufSent := true }) })

end Wallpiper.Capture
