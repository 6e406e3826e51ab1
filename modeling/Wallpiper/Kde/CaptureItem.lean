import Wallpiper.Capture.WireFormat
import Wallpiper.Foundations.Bindings

/-!
# The wallpaper item of the KDE portal

Buffers and sources are staged as they arrive and used at the next paint.  The
item owns the descriptors of everything that is staged, and of every slot a
duplicate of the buffer's memory.  What is drawn is left out: it does not decide
what happens to a descriptor.
-/

namespace Wallpiper.Kde

open Foundations Capture

/-- `importSyncFd` is the duplicate that the import keeps, `memFd` the item's. -/
structure SlotTexture where
  importSyncFd : ℤ
  width : UInt32
  height : UInt32
  stride : UInt32
  modifier : UInt64
  memFd : ℤ
  deriving DecidableEq, Repr

structure PendingBuf where
  slot : UInt32
  width : UInt32
  height : UInt32
  stride : UInt32
  modifier : UInt64
  fd : ℤ
  deriving DecidableEq, Repr

structure PendingShm where
  width : UInt32
  height : UInt32
  stride : UInt32
  fd : ℤ
  deriving DecidableEq, Repr

/-- An SHM image has no sync descriptor. -/
structure PendingSource where
  isShm : Bool
  slot : UInt32
  syncFd : ℤ
  shm_unsynced : isShm = true → syncFd = -1

structure CaptureItem where
  slotTextures : Bindings UInt32 SlotTexture
  pendingBufs : List PendingBuf
  pendingShm : Option PendingShm
  pendingSource : Option PendingSource
  pendingDetach : Bool
  currentSlot : Option UInt32
  currentIsShm : Bool

def CaptureItem.initial : CaptureItem :=
  { slotTextures := ∅, pendingBufs := [], pendingShm := none, pendingSource := none
    pendingDetach := false, currentSlot := none, currentIsShm := false }

/-- The item, every descriptor that it was given or has duplicated, and every
one that was closed. -/
structure ItemLedger where
  item : CaptureItem
  received : List ℤ
  closed : List ℤ

namespace ItemLedger

def initial : ItemLedger := { item := .initial, received := [], closed := [] }

/-- A negative number is no descriptor. -/
def receive (s : ItemLedger) (fd : ℤ) : ItemLedger :=
  { s with received := s.received ++ openFds [fd] }

/-- `close`, or handing over to the importer or to the wait. -/
def close (s : ItemLedger) (fd : ℤ) : ItemLedger := { s with closed := s.closed ++ openFds [fd] }

def setItem (s : ItemLedger) (item : CaptureItem) : ItemLedger := { s with item := item }

@[simp] theorem receive_item (s : ItemLedger) (fd : ℤ) : (s.receive fd).item = s.item := rfl

@[simp] theorem close_item (s : ItemLedger) (fd : ℤ) : (s.close fd).item = s.item := rfl

@[simp] theorem setItem_item (s : ItemLedger) (item : CaptureItem) :
    (s.setItem item).item = item := rfl

/-! ## Staging -/

def replacePendingSource (s : ItemLedger) (next : Option PendingSource) : ItemLedger :=
  let s := match s.item.pendingSource with
    | some source => s.close source.syncFd
    | none => s
  s.setItem { s.item with pendingSource := next }

def stageBuf (s : ItemLedger) (pending : PendingBuf) (syncFd : ℤ) : ItemLedger :=
  let s := (s.receive pending.fd).receive syncFd
  let s := s.setItem { s.item with pendingBufs := s.item.pendingBufs ++ [pending] }
  s.replacePendingSource (some ⟨false, pending.slot, syncFd, by simp⟩)

def stageFrame (s : ItemLedger) (slot : UInt32) (syncFd : ℤ) : ItemLedger :=
  let s := s.receive syncFd
  let knownAlready := (s.item.slotTextures.lookup slot).isSome
  let willBeKnown := s.item.pendingBufs.any fun pending ↦ pending.slot == slot
  if knownAlready || willBeKnown then
    s.replacePendingSource (some ⟨false, slot, syncFd, by simp⟩)
  else s.close syncFd

def stageShm (s : ItemLedger) (shm : PendingShm) : ItemLedger :=
  let s := s.receive shm.fd
  let s := s.setItem { s.item with pendingShm := some shm }
  s.replacePendingSource (some ⟨true, 0, -1, fun _ ↦ rfl⟩)

def clearDisplay (s : ItemLedger) : ItemLedger :=
  let s := s.replacePendingSource none
  s.setItem { s.item with currentSlot := none, currentIsShm := false }

def requestDetach (s : ItemLedger) : ItemLedger :=
  s.setItem { s.item with pendingDetach := true }

/-! ## Slots -/

def closeSlot (s : ItemLedger) (tex : SlotTexture) : ItemLedger :=
  (s.close tex.importSyncFd).close tex.memFd

def destroySlot (s : ItemLedger) (slot : UInt32) : ItemLedger :=
  match s.item.slotTextures.lookup slot with
  | none => s
  | some tex =>
      let s := s.closeSlot tex
      s.setItem { s.item with slotTextures := s.item.slotTextures.erase slot }

def destroyAllSlots (s : ItemLedger) : ItemLedger :=
  let s := s.item.slotTextures.entries.foldl (fun s e ↦ s.closeSlot e.2) s
  s.setItem { s.item with slotTextures := ∅ }

/-- `dupFd` is what `dup` returns.  The new image takes the duplicate with it
whether it is made or not. -/
def reimportSlot (s : ItemLedger) (slot : UInt32) (dupFd : ℤ) : ItemLedger :=
  match s.item.slotTextures.lookup slot with
  | none => s
  | some tex =>
      if tex.memFd < 0 then s
      else if dupFd < 0 then s
      else (s.receive dupFd).close dupFd

/-! ## Painting -/

/-- What `dup` returns, and the descriptor that the import keeps if it succeeds. -/
structure ImportOutcome where
  dupFd : ℤ
  imported : Option ℤ
  deriving DecidableEq, Repr

def importBuf (s : ItemLedger) (pending : PendingBuf) (outcome : ImportOutcome) : ItemLedger :=
  let s := s.destroySlot pending.slot
  let s := (s.receive outcome.dupFd).close pending.fd
  match outcome.imported with
  | none => s.close outcome.dupFd
  | some syncFd =>
      let s := s.receive syncFd
      let tex : SlotTexture :=
        { importSyncFd := syncFd, width := pending.width, height := pending.height
          stride := pending.stride, modifier := pending.modifier, memFd := outcome.dupFd }
      s.setItem { s.item with slotTextures := s.item.slotTextures.insert pending.slot tex }

/-- The pending buffers one after the other, with the slots that were imported. -/
def importBufs (imports : ℕ → ImportOutcome) : List PendingBuf → ItemLedger →
    List UInt32 → ItemLedger × List UInt32
  | [], s, fresh => (s, fresh)
  | pending :: rest, s, fresh =>
      let s := s.setItem { s.item with pendingBufs := rest }
      let fresh := if (imports 0).imported.isSome then fresh ++ [pending.slot] else fresh
      importBufs (fun n ↦ imports (n + 1)) rest (s.importBuf pending (imports 0)) fresh

def showShm (s : ItemLedger) : ItemLedger :=
  match s.item.pendingShm with
  | none => s
  | some shm => (s.setItem { s.item with pendingShm := none }).close shm.fd

/-- The pending source becomes the current one; the new frame's sync descriptor
is still to be dealt with. -/
def takeSource (s : ItemLedger) : ItemLedger × Option ℤ :=
  match s.item.pendingSource with
  | none => (s, none)
  | some source =>
      (s.setItem { s.item with
          pendingSource := none
          currentIsShm := source.isShm
          currentSlot := if source.isShm = true then none else some source.slot },
        some source.syncFd)

def showFrame (s : ItemLedger) (newFrameSyncFd : Option ℤ) (fresh : List UInt32) (dupFd : ℤ) :
    ItemLedger :=
  if s.item.currentIsShm = true then s
  else
    match s.item.currentSlot, newFrameSyncFd with
    | _, none => s
    | none, some syncFd => s.close syncFd
    | some slot, some syncFd =>
        match s.item.slotTextures.lookup slot with
        | none => s.close syncFd
        | some _ =>
            let s := s.close syncFd
            if slot ∈ fresh then s else s.reimportSlot slot dupFd

/-- The answers of the kernel and of EGL during one paint. -/
structure PaintAnswers where
  imports : ℕ → ImportOutcome
  refreshDupFd : ℤ

def updatePaintNode (s : ItemLedger) (answers : PaintAnswers) : ItemLedger :=
  if s.item.pendingDetach = true then
    let s := s.destroyAllSlots
    let s := s.setItem { s.item with currentSlot := none, currentIsShm := false }
    let s := s.replacePendingSource none
    s.setItem { s.item with pendingBufs := [], pendingShm := none, pendingDetach := false }
  else
    let (s, fresh) := importBufs answers.imports s.item.pendingBufs s []
    let (s, newFrameSyncFd) := s.showShm.takeSource
    s.showFrame newFrameSyncFd fresh answers.refreshDupFd

/-- The destructor. -/
def destroy (s : ItemLedger) : ItemLedger :=
  (s.replacePendingSource none).destroyAllSlots

end ItemLedger

inductive ItemLabel where
  | stageBuf (pending : PendingBuf) (syncFd : ℤ)
  | stageFrame (slot : UInt32) (syncFd : ℤ)
  | stageShm (shm : PendingShm)
  | clearDisplay
  | requestDetach
  | updatePaintNode (answers : ItemLedger.PaintAnswers)
  | destroy

def callItem (s : ItemLedger) : ItemLabel → ItemLedger
  | .stageBuf pending syncFd => s.stageBuf pending syncFd
  | .stageFrame slot syncFd => s.stageFrame slot syncFd
  | .stageShm shm => s.stageShm shm
  | .clearDisplay => s.clearDisplay
  | .requestDetach => s.requestDetach
  | .updatePaintNode answers => s.updatePaintNode answers
  | .destroy => s.destroy

/-- The members are gone when the item is not alive any more. -/
structure ItemRun where
  ledger : ItemLedger
  alive : Bool

def ItemRun.initial : ItemRun := { ledger := .initial, alive := true }

def ItemLabel.keepsAlive : ItemLabel → Bool
  | .destroy => false
  | _ => true

/-- Nothing is called after the destruction. -/
def itemStep (r : ItemRun) (l : ItemLabel) : Option ItemRun :=
  if r.alive = true then some { ledger := callItem r.ledger l, alive := l.keepsAlive } else none

end Wallpiper.Kde
