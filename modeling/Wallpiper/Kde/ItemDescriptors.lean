import Wallpiper.Foundations.Runs
import Wallpiper.Kde.CaptureItem

/-!
# The descriptors of a wallpaper item

Everything that the item was given or has duplicated is in one of its fields or
closed, except for what it forgets: a pending SHM image that another one
replaces, and what is pending when a detach is painted or the item is destroyed.
-/

namespace Wallpiper.Kde

open Foundations Capture

def bufFds (item : CaptureItem) : List ℤ := openFds (item.pendingBufs.map PendingBuf.fd)

def shmFds (item : CaptureItem) : List ℤ := openFds (item.pendingShm.toList.map PendingShm.fd)

def sourceFds (source : Option PendingSource) : List ℤ :=
  openFds (source.toList.map PendingSource.syncFd)

def texFds (tex : SlotTexture) : List ℤ := openFds [tex.importSyncFd] ++ openFds [tex.memFd]

def slotFds (slots : Bindings UInt32 SlotTexture) : List ℤ :=
  slots.entries.flatMap fun e ↦ texFds e.2

def itemFds (item : CaptureItem) : List ℤ :=
  slotFds item.slotTextures ++ bufFds item ++ shmFds item ++ sourceFds item.pendingSource

/-- Nothing is held in an item that is destroyed. -/
def heldFds (r : ItemRun) : List ℤ := if r.alive = true then itemFds r.ledger.item else []

/-- Every descriptor, as often as it was received, is held in one place or was
closed once. -/
def FdsConserved (r : ItemRun) : Prop := r.ledger.received.Perm (heldFds r ++ r.ledger.closed)

/-- The descriptors that a call forgets. -/
def droppedFds (item : CaptureItem) : ItemLabel → List ℤ
  | .stageShm _ => shmFds item
  | .updatePaintNode _ => if item.pendingDetach = true then bufFds item ++ shmFds item else []
  | .destroy => bufFds item ++ shmFds item
  | _ => []

/-- No SHM image is staged over a pending one, and nothing is pending when a
detach is painted or the item is destroyed. -/
def KeepsPending (r : ItemRun) (l : ItemLabel) : Prop := droppedFds r.ledger.item l = []

theorem sourceFds_none : sourceFds none = [] := rfl

theorem sourceFds_some (source : PendingSource) :
    sourceFds (some source) = openFds [source.syncFd] := rfl

/-! ## Slots -/

theorem openFds_cons (fd : ℤ) (fds : List ℤ) : openFds (fd :: fds) = openFds [fd] ++ openFds fds :=
  List.filter_append [fd] fds

theorem openFds_append (fds fds' : List ℤ) :
    openFds (fds ++ fds') = openFds fds ++ openFds fds' := List.filter_append fds fds'

theorem count_slotFds_erase {slots : Bindings UInt32 SlotTexture} {slot : UInt32}
    {tex : SlotTexture} (h : slots.lookup slot = some tex) (fd : ℤ) :
    (slotFds slots).count fd = (texFds tex).count fd + (slotFds (slots.erase slot)).count fd := by
  have hperm := (Bindings.entries_perm_erase h).flatMap_right fun e ↦ texFds e.2
  rw [slotFds, hperm.count_eq, List.flatMap_cons, List.count_append]
  rfl

theorem slotFds_insert {slots : Bindings UInt32 SlotTexture} {slot : UInt32}
    (h : slots.lookup slot = none) (tex : SlotTexture) :
    slotFds (slots.insert slot tex) = texFds tex ++ slotFds slots := by
  rw [slotFds, AList.entries_insert_of_notMem (AList.lookup_eq_none.mp h), List.flatMap_cons]
  rfl

/-! ## The balance of the item's own code -/

namespace ItemLedger

/-- What was received and is neither held by a live item nor closed. -/
def missing (s : ItemLedger) (fd : ℤ) : ℤ :=
  s.received.count fd - (itemFds s.item).count fd - s.closed.count fd

theorem missing_receive (s : ItemLedger) (fd' fd : ℤ) :
    (s.receive fd').missing fd = s.missing fd + (openFds [fd']).count fd := by
  simp only [missing, receive, List.count_append, Nat.cast_add]
  omega

theorem missing_close (s : ItemLedger) (fd' fd : ℤ) :
    (s.close fd').missing fd = s.missing fd - (openFds [fd']).count fd := by
  simp only [missing, close, List.count_append, Nat.cast_add]
  omega

theorem missing_setItem (s : ItemLedger) (item : CaptureItem) (fd : ℤ) :
    (s.setItem item).missing fd =
      s.missing fd + (itemFds s.item).count fd - (itemFds item).count fd := by
  simp only [missing, setItem]
  omega

theorem replacePendingSource_item (s : ItemLedger) (next : Option PendingSource) :
    (s.replacePendingSource next).item = { s.item with pendingSource := next } := by
  unfold replacePendingSource
  cases s.item.pendingSource with
  | none => rfl
  | some source => rfl

theorem missing_replacePendingSource (s : ItemLedger) (next : Option PendingSource) (fd : ℤ) :
    (s.replacePendingSource next).missing fd = s.missing fd - (sourceFds next).count fd := by
  unfold replacePendingSource
  cases hsource : s.item.pendingSource with
  | none =>
      simp only [missing_setItem, itemFds, hsource, sourceFds_none, bufFds, shmFds,
        List.count_append, List.count_nil]
      omega
  | some source =>
      simp only [missing_setItem, missing_close, close_item, itemFds, hsource, sourceFds_some,
        bufFds, shmFds, List.count_append]
      omega

theorem missing_closeSlot (s : ItemLedger) (tex : SlotTexture) (fd : ℤ) :
    (s.closeSlot tex).missing fd = s.missing fd - (texFds tex).count fd := by
  simp only [closeSlot, missing_close, texFds, List.count_append]
  omega

theorem closeSlot_item (s : ItemLedger) (tex : SlotTexture) :
    (s.closeSlot tex).item = s.item := rfl

theorem missing_destroySlot (s : ItemLedger) (slot : UInt32) (fd : ℤ) :
    (s.destroySlot slot).missing fd = s.missing fd := by
  unfold destroySlot
  cases hslot : s.item.slotTextures.lookup slot with
  | none => rfl
  | some tex =>
      have herase := count_slotFds_erase hslot fd
      simp only [missing_setItem, missing_closeSlot, closeSlot_item, itemFds, bufFds, shmFds,
        List.count_append]
      omega

theorem destroySlot_lookup (s : ItemLedger) (slot : UInt32) :
    (s.destroySlot slot).item.slotTextures.lookup slot = none := by
  unfold destroySlot
  cases hslot : s.item.slotTextures.lookup slot with
  | none => exact hslot
  | some tex => exact AList.lookup_erase slot s.item.slotTextures

theorem destroySlot_pendingBufs (s : ItemLedger) (slot : UInt32) :
    (s.destroySlot slot).item.pendingBufs = s.item.pendingBufs := by
  unfold destroySlot
  cases s.item.slotTextures.lookup slot with
  | none => rfl
  | some tex => rfl

theorem closeSlots (entries : List (Sigma fun _ : UInt32 ↦ SlotTexture)) (s : ItemLedger) :
    (entries.foldl (fun s e ↦ s.closeSlot e.2) s).item = s.item ∧
      ∀ fd, (entries.foldl (fun s e ↦ s.closeSlot e.2) s).missing fd =
        s.missing fd - (entries.flatMap fun e ↦ texFds e.2).count fd := by
  induction entries generalizing s with
  | nil =>
      refine ⟨rfl, fun fd ↦ ?_⟩
      simp
  | cons e entries ih =>
      obtain ⟨hitem, hmissing⟩ := ih (s.closeSlot e.2)
      refine ⟨hitem, fun fd ↦ ?_⟩
      rw [List.foldl_cons, hmissing, missing_closeSlot, List.flatMap_cons, List.count_append]
      omega

theorem destroyAllSlots_item (s : ItemLedger) :
    s.destroyAllSlots.item = { s.item with slotTextures := ∅ } := by
  rw [destroyAllSlots, setItem_item, (closeSlots _ s).1]

theorem missing_destroyAllSlots (s : ItemLedger) (fd : ℤ) :
    s.destroyAllSlots.missing fd = s.missing fd := by
  obtain ⟨hitem, hmissing⟩ := closeSlots s.item.slotTextures.entries s
  have hempty : slotFds ∅ = [] := rfl
  simp only [destroyAllSlots, missing_setItem, hmissing, hitem, itemFds, slotFds, bufFds, shmFds,
    List.count_append]
  simp only [slotFds] at hempty
  rw [hempty, List.count_nil]
  omega

theorem missing_reimportSlot (s : ItemLedger) (slot : UInt32) (dupFd fd : ℤ) :
    (s.reimportSlot slot dupFd).missing fd = s.missing fd := by
  unfold reimportSlot
  split
  · rfl
  · split
    · rfl
    · split
      · rfl
      · rw [missing_close, missing_receive]
        omega

theorem missing_importBuf (s : ItemLedger) (pending : PendingBuf) (outcome : ImportOutcome)
    (fd : ℤ) :
    (s.importBuf pending outcome).missing fd =
      s.missing fd - (openFds [pending.fd]).count fd := by
  unfold importBuf
  have hslot := destroySlot_lookup s pending.slot
  have hmissing := missing_destroySlot s pending.slot fd
  cases outcome.imported with
  | none =>
      simp only [missing_close, missing_receive]
      omega
  | some syncFd =>
      -- the new slot holds both duplicates
      simp only [missing_setItem, missing_close, missing_receive, receive_item, close_item, itemFds,
        slotFds_insert hslot, texFds, bufFds, shmFds, List.count_append]
      omega

theorem importBuf_pendingBufs (s : ItemLedger) (pending : PendingBuf) (outcome : ImportOutcome) :
    (s.importBuf pending outcome).item.pendingBufs = s.item.pendingBufs := by
  unfold importBuf
  cases outcome.imported with
  | none => exact destroySlot_pendingBufs s pending.slot
  | some syncFd => exact destroySlot_pendingBufs s pending.slot

/-- Importing takes the buffers out of the item and closes what it is handed. -/
theorem missing_importBufs (bufs : List PendingBuf) (imports : ℕ → ImportOutcome) {s : ItemLedger}
    (hbufs : s.item.pendingBufs = bufs) (fresh : List UInt32) (fd : ℤ) :
    (importBufs imports bufs s fresh).1.missing fd = s.missing fd := by
  induction bufs generalizing imports s fresh with
  | nil => rfl
  | cons pending rest ih =>
      rw [importBufs, ih]
      · have hcons : bufFds s.item = openFds [pending.fd] ++ openFds (rest.map PendingBuf.fd) := by
          rw [bufFds, hbufs, List.map_cons, openFds_cons]
        rw [missing_importBuf, missing_setItem]
        simp only [itemFds, hcons, List.count_append]
        simp only [bufFds, shmFds]
        omega
      · rw [importBuf_pendingBufs]
        rfl

theorem missing_showShm (s : ItemLedger) (fd : ℤ) : s.showShm.missing fd = s.missing fd := by
  unfold showShm
  cases hshm : s.item.pendingShm with
  | none => rfl
  | some shm =>
      simp only [missing_close, missing_setItem, itemFds, bufFds, shmFds, hshm, List.count_append,
        Option.toList_none, Option.toList_some, List.map_cons, List.map_nil, openFds,
        List.filter_nil, List.count_nil]
      omega

theorem missing_takeSource (s : ItemLedger) (fd : ℤ) :
    s.takeSource.1.missing fd = s.missing fd + (openFds s.takeSource.2.toList).count fd := by
  unfold takeSource
  cases hsource : s.item.pendingSource with
  | none => simp [openFds]
  | some source =>
      simp only [missing_setItem, itemFds, bufFds, shmFds, hsource, sourceFds_none, sourceFds_some,
        List.count_append, List.count_nil, Option.toList_some]
      omega

theorem takeSource_unsynced {s : ItemLedger} (h : s.takeSource.1.item.currentIsShm = true) :
    openFds s.takeSource.2.toList = [] := by
  unfold takeSource at h ⊢
  cases hsource : s.item.pendingSource with
  | none => rfl
  | some source =>
      rw [hsource] at h
      simp only [Option.toList_some, source.shm_unsynced h]
      rfl

/-- The sync descriptor of a new frame is closed or handed to the wait. -/
theorem missing_showFrame (s : ItemLedger) {newFrameSyncFd : Option ℤ}
    (hshm : s.item.currentIsShm = true → openFds newFrameSyncFd.toList = []) (fresh : List UInt32)
    (dupFd fd : ℤ) :
    (s.showFrame newFrameSyncFd fresh dupFd).missing fd =
      s.missing fd - (openFds newFrameSyncFd.toList).count fd := by
  unfold showFrame
  split
  · rename_i h
    rw [hshm h]
    simp
  · cases newFrameSyncFd with
    | none => cases s.item.currentSlot <;> simp [openFds]
    | some syncFd =>
        cases s.item.currentSlot with
        | none => exact missing_close s syncFd fd
        | some slot =>
            dsimp only
            split
            · exact missing_close s syncFd fd
            · split
              · exact missing_close s syncFd fd
              · rw [missing_reimportSlot]
                exact missing_close s syncFd fd

theorem missing_updatePaintNode (s : ItemLedger) (answers : PaintAnswers) (fd : ℤ) :
    (s.updatePaintNode answers).missing fd =
      s.missing fd + (droppedFds s.item (.updatePaintNode answers)).count fd := by
  unfold updatePaintNode droppedFds
  split
  · simp only [missing_setItem, missing_replacePendingSource, replacePendingSource_item,
      missing_destroyAllSlots, destroyAllSlots_item, setItem_item, itemFds, bufFds, shmFds,
      sourceFds_none, List.count_append, List.count_nil, Option.toList_none, List.map_nil]
    simp [openFds]
    omega
  · have himports := missing_importBufs s.item.pendingBufs answers.imports rfl [] fd
    have htake :=
      missing_takeSource (importBufs answers.imports s.item.pendingBufs s []).1.showShm fd
    have hshm := missing_showShm (importBufs answers.imports s.item.pendingBufs s []).1 fd
    rw [missing_showFrame _ takeSource_unsynced, List.count_nil]
    omega

theorem missing_stageBuf (s : ItemLedger) (pending : PendingBuf) (syncFd fd : ℤ) :
    (s.stageBuf pending syncFd).missing fd = s.missing fd := by
  have happend : openFds ((s.item.pendingBufs ++ [pending]).map PendingBuf.fd) =
      openFds (s.item.pendingBufs.map PendingBuf.fd) ++ openFds [pending.fd] := by
    rw [List.map_append, openFds_append]
    rfl
  simp only [stageBuf, missing_replacePendingSource, missing_setItem, missing_receive, receive_item,
    sourceFds_some, itemFds, bufFds, shmFds, happend, List.count_append]
  omega

theorem missing_stageFrame (s : ItemLedger) (slot : UInt32) (syncFd fd : ℤ) :
    (s.stageFrame slot syncFd).missing fd = s.missing fd := by
  unfold stageFrame
  dsimp only
  split
  · simp only [missing_replacePendingSource, missing_receive, sourceFds_some]
    omega
  · rw [missing_close, missing_receive]
    omega

theorem missing_stageShm (s : ItemLedger) (shm : PendingShm) (fd : ℤ) :
    (s.stageShm shm).missing fd = s.missing fd + (shmFds s.item).count fd := by
  have hnone : sourceFds (some ⟨true, 0, -1, fun _ ↦ rfl⟩) = [] := rfl
  simp only [stageShm, missing_replacePendingSource, missing_setItem, missing_receive,
    receive_item, hnone, itemFds, bufFds, shmFds, List.count_append, List.count_nil,
    Option.toList_some, List.map_cons, List.map_nil]
  omega

theorem missing_clearDisplay (s : ItemLedger) (fd : ℤ) :
    s.clearDisplay.missing fd = s.missing fd := by
  simp only [clearDisplay, missing_setItem, missing_replacePendingSource,
    replacePendingSource_item, sourceFds_none, itemFds, bufFds, shmFds, List.count_append,
    List.count_nil]
  omega

theorem missing_requestDetach (s : ItemLedger) (fd : ℤ) :
    s.requestDetach.missing fd = s.missing fd := by
  simp only [requestDetach, missing_setItem, itemFds, bufFds, shmFds, List.count_append]
  omega

theorem missing_destroy (s : ItemLedger) (fd : ℤ) : s.destroy.missing fd = s.missing fd := by
  simp [destroy, missing_destroyAllSlots, missing_replacePendingSource, sourceFds_none]

theorem destroy_itemFds (s : ItemLedger) :
    itemFds s.destroy.item = bufFds s.item ++ shmFds s.item := by
  rw [destroy, destroyAllSlots_item, replacePendingSource_item]
  exact List.append_nil _

end ItemLedger

/-! ## One call -/

namespace ItemRun

/-- What was received and is neither held nor closed. -/
def missing (r : ItemRun) (fd : ℤ) : ℤ :=
  r.ledger.received.count fd - (heldFds r).count fd - r.ledger.closed.count fd

theorem fdsConserved_iff_missing (r : ItemRun) : FdsConserved r ↔ ∀ fd, r.missing fd = 0 := by
  rw [FdsConserved, List.perm_iff_count]
  apply forall_congr'
  intro fd
  rw [missing, List.count_append]
  omega

theorem missing_of_alive {r : ItemRun} (h : r.alive = true) (fd : ℤ) :
    r.missing fd = r.ledger.missing fd := by
  rw [missing, heldFds, if_pos h]
  rfl

/-- A call loses what it forgets. -/
theorem missing_step {r t : ItemRun} {l : ItemLabel} (hstep : itemStep r l = some t) (fd : ℤ) :
    t.missing fd = r.missing fd + (droppedFds r.ledger.item l).count fd := by
  unfold itemStep at hstep
  split at hstep
  · rename_i halive
    obtain rfl := Option.some.inj hstep
    rw [missing_of_alive halive]
    cases l with
    | stageBuf pending syncFd =>
        rw [missing_of_alive rfl]
        simpa [droppedFds, callItem] using r.ledger.missing_stageBuf pending syncFd fd
    | stageFrame slot syncFd =>
        rw [missing_of_alive rfl]
        simpa [droppedFds, callItem] using r.ledger.missing_stageFrame slot syncFd fd
    | stageShm shm =>
        rw [missing_of_alive rfl]
        exact r.ledger.missing_stageShm shm fd
    | clearDisplay =>
        rw [missing_of_alive rfl]
        simpa [droppedFds, callItem] using r.ledger.missing_clearDisplay fd
    | requestDetach =>
        rw [missing_of_alive rfl]
        simpa [droppedFds, callItem] using r.ledger.missing_requestDetach fd
    | updatePaintNode answers =>
        rw [missing_of_alive rfl]
        exact r.ledger.missing_updatePaintNode answers fd
    | destroy =>
        have hlost := r.ledger.missing_destroy fd
        rw [ItemLedger.missing, ItemLedger.destroy_itemFds] at hlost
        rw [missing, heldFds, if_neg (by simp [ItemLabel.keepsAlive])]
        simp only [callItem, droppedFds, List.count_nil]
        omega
  · exact absurd hstep (by simp)

end ItemRun

theorem conserved_step {r t : ItemRun} {l : ItemLabel} (h : FdsConserved r)
    (hstep : itemStep r l = some t) : FdsConserved t ↔ KeepsPending r l := by
  rw [ItemRun.fdsConserved_iff_missing] at h ⊢
  have hmissing : ∀ fd, t.missing fd = (droppedFds r.ledger.item l).count fd := by
    intro fd
    rw [ItemRun.missing_step hstep, h fd, zero_add]
  simp only [hmissing, KeepsPending]
  constructor
  · intro hzero
    apply List.eq_nil_iff_forall_not_mem.mpr
    intro fd hmem
    have hpos := List.count_pos_iff.mpr hmem
    have hfd := hzero fd
    omega
  · intro hnil fd
    rw [hnil]
    rfl

/-! ## Runs -/

/-- Throughout a run every descriptor is held or closed once, exactly if no call
of the run forgets a pending one. -/
theorem fds_conserved_iff_keepsPending (ls : List ItemLabel) :
    Always itemStep FdsConserved .initial ls ↔ Guarded itemStep KeepsPending .initial ls :=
  always_iff_guarded (fun _ _ _ h ht ↦ conserved_step h ht) (List.Perm.refl [])

/-- Two SHM images arrive before the next paint. -/
def twoImagesRun : List ItemLabel :=
  [.stageShm ⟨1920, 1080, 7680, 7⟩, .stageShm ⟨1920, 1080, 7680, 8⟩]

theorem twoImagesRun_leaks : ¬ Always itemStep FdsConserved .initial twoImagesRun := by
  rintro ⟨_, hrun⟩
  have hlast := (hrun _ rfl).2 _ rfl
  exact absurd hlast.length_eq (by decide)

end Wallpiper.Kde
