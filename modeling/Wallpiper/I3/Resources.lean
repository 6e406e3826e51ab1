import Wallpiper.Foundations.Runs
import Wallpiper.I3.OutputSteps
import Wallpiper.Portal.Descriptors

/-!
# The X resources and descriptors of the i3 portal

Every output owns the pixmaps of its slots in use and its SHM pixmap with the
segment under it.  The code of one output turns what it owns before into what
it owns afterwards, and the other outputs are its frame, so the server never
sees a request for a dead resource and nothing stays behind on it.
-/

namespace Wallpiper.I3

open Capture Foundations

/-- Pixmaps and segments. -/
inductive XResource where
  | pixmap (id : ℕ)
  | seg (id : ℕ)
  deriving DecidableEq, Repr

def requestOps : I3Effect → List (LedgerOp XResource)
  | .pixmapFromBuffers pixmap _ _ _ _ _ _ ok => if ok then [.create (.pixmap pixmap)] else []
  | .shmAttachFd seg _ ok => if ok then [.create (.seg seg)] else []
  | .shmCreatePixmap pixmap _ _ _ seg ok =>
      .use (.seg seg) :: if ok then [.create (.pixmap pixmap)] else []
  | .freePixmap pixmap => [.destroy (.pixmap pixmap)]
  | .shmDetach seg => [.destroy (.seg seg)]
  | .copyArea pixmap _ _ _ => [.use (.pixmap pixmap)]
  | _ => []

def ledgerOps (effects : List I3Effect) : List (LedgerOp XResource) := effects.flatMap requestOps

def I3Slot.resource (slot : I3Slot) : XResource := .pixmap slot.pixmap

def slotResources (slots : Fin wpI3CaptureSlotCount → Option I3Slot) : List XResource :=
  (List.finRange wpI3CaptureSlotCount).filterMap fun j ↦ (slots j).map I3Slot.resource

def shmResources (shm : Option I3ShmPixmap) : List XResource :=
  shm.elim [] fun shm ↦ [.pixmap shm.pixmap, .seg shm.seg]

def outputResources (out : I3Output) : List XResource :=
  slotResources out.slots ++ shmResources out.currentShmPixmap

def heldResources (st : I3State) : List XResource := st.outputs.flatMap outputResources

/-- The descriptors that the portal closes or passes to XCB, which closes
them. -/
def givenFds : I3Effect → List ℤ
  | .closeFd fd => [fd]
  | .pixmapFromBuffers _ _ _ _ _ _ fd _ => [fd]
  | .shmAttachFd _ fd _ => [fd]
  | _ => []

/-! ## The portal and its server -/

structure I3System where
  portal : I3State
  server : Ledger XResource
  received : List ℤ
  given : List ℤ

def I3System.initial (screens : List I3Screen) : I3System :=
  ⟨⟨screens.map .detected, false⟩, ⟨[], 0⟩, [], []⟩

/-- `xcb_generate_id` returns different names that no resource has. -/
def FreshNames (live : List XResource) (answers : XAnswers) : Prop :=
  answers.pixmap ≠ answers.seg ∧
    ∀ id ∈ [answers.pixmap, answers.seg], .pixmap id ∉ live ∧ .seg id ∉ live

/-- An event is one that the receiver hands over. -/
def Admissible (s : I3System) : I3Label → Prop
  | .capture event answers => Portal.Delivered event ∧ FreshNames s.server.live answers
  | _ => True

instance (live : List XResource) (answers : XAnswers) : Decidable (FreshNames live answers) :=
  inferInstanceAs (Decidable (_ ∧ _))

instance (s : I3System) (l : I3Label) : Decidable (Admissible s l) := by
  cases l <;> unfold Admissible <;> infer_instance

def i3Step (s : I3System) (l : I3Label) : Option I3System :=
  if Admissible s l then
    (handleLabel s.portal l).map fun (portal, effects) ↦
      { portal := portal
        server := s.server.run (ledgerOps effects)
        received := s.received ++ arrivingFds l
        given := s.given ++ effects.flatMap givenFds }
  else none

/-! ## What one output owns -/

theorem ledgerOps_append (effects effects' : List I3Effect) :
    ledgerOps (effects ++ effects') = ledgerOps effects ++ ledgerOps effects' :=
  List.flatMap_append

theorem ledgerOps_cons (e : I3Effect) (effects : List I3Effect) :
    ledgerOps (e :: effects) = requestOps e ++ ledgerOps effects := List.flatMap_cons

theorem slotResources_update (slots : Fin wpI3CaptureSlotCount → Option I3Slot)
    (j : Fin wpI3CaptureSlotCount) (slot : Option I3Slot) :
    (((slots j).map I3Slot.resource).toList ++
        slotResources (Function.update slots j slot)).Perm
      ((slot.map I3Slot.resource).toList ++ slotResources slots) := by
  apply List.perm_iff_count.mpr
  intro r
  have hupdate : (fun k ↦ (Function.update slots j slot k).map I3Slot.resource) =
      Function.update (fun k ↦ (slots k).map I3Slot.resource) j (slot.map I3Slot.resource) :=
    Function.comp_update (Option.map I3Slot.resource) slots j slot
  have hcount := Portal.count_filterMap_update (List.nodup_finRange _) (List.mem_finRange j)
    (fun k ↦ (slots k).map I3Slot.resource) (slot.map I3Slot.resource) r
  rw [List.count_append, List.count_append, slotResources, hupdate, slotResources]
  omega

theorem mem_outputResources_of_shownPixmap {out : I3Output} {pixmap : ℕ} {width height : UInt32}
    (h : shownPixmap out = some (pixmap, width, height)) :
    .pixmap pixmap ∈ outputResources out := by
  unfold shownPixmap at h
  split at h
  · exact absurd h (by simp)
  · split at h
    · exact absurd h (by simp)
    · rename_i wireSlot _ _ slot hslot
      split at h
      · exact absurd h (by simp)
      · apply List.mem_append_left
        refine List.mem_filterMap.mpr ⟨localIdx wireSlot, List.mem_finRange _, ?_⟩
        rw [hslot, ← (Prod.mk.inj (Option.some.inj h)).1]
        rfl
  · obtain ⟨shm, hshm, heq⟩ := Option.map_eq_some_iff.mp h
    apply List.mem_append_right
    rw [hshm, (Prod.mk.inj heq).1.symm]
    exact List.mem_cons_self

/-- Displaying uses what the output owns. -/
theorem moves_refreshBuffer (overlay : Bool) {out : I3Output} {owned : List XResource}
    (hsub : outputResources out ⊆ owned) :
    Moves (ledgerOps (refreshBuffer overlay out)) owned owned := by
  unfold refreshBuffer
  split
  · exact .nil _
  · rename_i pixmap width height hshown
    have hpanel : ledgerOps (if overlay then drawDebugOverlay out else []) = [] := by
      cases overlay <;> rfl
    rw [ledgerOps_cons, hpanel, List.append_nil]
    exact .use (hsub (mem_outputResources_of_shownPixmap hshown))

theorem moves_setCurrentSource (overlay : Bool) (out : I3Output) (source : I3Source) :
    Moves (ledgerOps (setCurrentSource overlay out source).2) (outputResources out)
      (outputResources (setCurrentSource overlay out source).1) :=
  moves_refreshBuffer overlay (List.Subset.refl _)

theorem moves_releaseSlot (out : I3Output) (j : Fin wpI3CaptureSlotCount) :
    Moves (ledgerOps (releaseSlot out j).2) (outputResources out)
        (outputResources (releaseSlot out j).1) ∧
      (releaseSlot out j).1.slots j = none ∧
      outputResources (releaseSlot out j).1 ⊆ outputResources out := by
  unfold releaseSlot
  split
  · rename_i hnone
    exact ⟨.nil _, hnone, List.Subset.refl _⟩
  · rename_i slot hslot
    have hperm := slotResources_update out.slots j none
    rw [hslot] at hperm
    have howned : (outputResources out).Perm
        (slot.resource :: outputResources { out with slots := Function.update out.slots j none }) :=
      hperm.symm.append_right _
    refine ⟨(Moves.destroy slot.resource _).perm howned (List.Perm.refl _),
      Function.update_self .., ?_⟩
    intro r hr
    exact howned.mem_iff.mpr (List.mem_cons_of_mem _ hr)

/-- A new name on a slot that is not in use. -/
theorem perm_fillSlot {out : I3Output} {j : Fin wpI3CaptureSlotCount} (hfree : out.slots j = none)
    (slot : I3Slot) :
    (outputResources { out with slots := Function.update out.slots j (some slot) }).Perm
      (slot.resource :: outputResources out) := by
  have hperm := slotResources_update out.slots j (some slot)
  rw [hfree] at hperm
  exact hperm.append_right _

theorem FreshNames.pixmap {live : List XResource} {answers : XAnswers}
    (h : FreshNames live answers) : .pixmap answers.pixmap ∉ live :=
  (h.2 _ List.mem_cons_self).1

theorem FreshNames.seg {live : List XResource} {answers : XAnswers}
    (h : FreshNames live answers) : .seg answers.seg ∉ live :=
  (h.2 _ (List.mem_cons_of_mem _ List.mem_cons_self)).2

theorem FreshNames.sub {live owned : List XResource} {answers : XAnswers}
    (h : FreshNames live answers) (hsub : owned ⊆ live) : FreshNames owned answers :=
  ⟨h.1, fun id hid ↦ ⟨fun hmem ↦ (h.2 id hid).1 (hsub hmem), fun hmem ↦ (h.2 id hid).2 (hsub hmem)⟩⟩

theorem moves_storeBuf (overlay : Bool) (event : CaptureEvent) (fd : ℤ) {answers : XAnswers}
    {out : I3Output} (hfresh : FreshNames (outputResources out) answers) :
    Moves (ledgerOps (storeBuf overlay event fd answers out).2) (outputResources out)
      (outputResources (storeBuf overlay event fd answers out).1) := by
  obtain ⟨hemptied, hfree, hsub⟩ := moves_releaseSlot
    { out with boundChannel := some (channelOf event.slot) } (localIdx event.slot)
  cases himported : answers.imported with
  | false =>
      have hrequest : ledgerOps [importRequest event fd answers (emptiedFor event out).1] = [] := by
        simp [ledgerOps, importRequest, requestOps, himported]
      rw [storeBuf_of_failed overlay event fd himported, ledgerOps_append, hrequest,
        List.append_nil]
      exact hemptied
  | true =>
      have hrequest : requestOps (importRequest event fd answers (emptiedFor event out).1) =
          [.create (.pixmap answers.pixmap)] := by
        simp [importRequest, requestOps, himported]
      rw [storeBuf_of_imported overlay event fd himported, ledgerOps_append, ledgerOps_cons,
        hrequest]
      have hcreate := Moves.create (hfresh.sub hsub).pixmap
      have hfilled := perm_fillSlot hfree ⟨event.slot, answers.pixmap, event.width, event.height⟩
      exact hemptied.append
        ((hcreate.perm (.refl _) hfilled.symm).append (moves_setCurrentSource overlay _ _))

theorem moves_releaseShm (out : I3Output) :
    Moves (ledgerOps (releaseShm out)) (outputResources out) (slotResources out.slots) ∧
      ∀ k, .create k ∉ ledgerOps (releaseShm out) := by
  unfold releaseShm outputResources
  cases out.currentShmPixmap with
  | none =>
      rw [shmResources, Option.elim_none, List.append_nil]
      exact ⟨.nil _, fun _ ↦ List.not_mem_nil⟩
  | some shm =>
      have hpixmap := Moves.destroy (XResource.pixmap shm.pixmap)
        (.seg shm.seg :: slotResources out.slots)
      refine ⟨(hpixmap.append (.destroy _ _)).perm List.perm_append_comm (.refl _), ?_⟩
      simp [ledgerOps, requestOps]

theorem moves_storeShm (overlay : Bool) (event : CaptureEvent) (fd : ℤ) {answers : XAnswers}
    {out : I3Output} (hfresh : FreshNames (outputResources out) answers) :
    Moves (ledgerOps (storeShm overlay event fd answers out).2) (outputResources out)
      (outputResources (storeShm overlay event fd answers out).1) := by
  have hattach := Moves.create hfresh.seg
  have huse : Moves [.use (XResource.seg answers.seg)] (.seg answers.seg :: outputResources out)
      (.seg answers.seg :: outputResources out) := .use List.mem_cons_self
  unfold storeShm
  split
  · exact .nil _
  · split
    · exact .nil _
    · cases hcreated : answers.created with
      | false => exact (hattach.append huse).append (.destroy _ _)
      | true =>
          have hnew : XResource.pixmap answers.pixmap ∉
              .seg answers.seg :: outputResources out := by
            intro hmem
            rcases List.mem_cons.mp hmem with heq | hmem
            · exact absurd heq (by simp)
            · exact hfresh.pixmap hmem
          have hmade := (hattach.append huse).append (Moves.create hnew)
          have hreleased : Moves (ledgerOps (releaseShm out))
              ([.pixmap answers.pixmap, .seg answers.seg] ++ outputResources out)
              ([.pixmap answers.pixmap, .seg answers.seg] ++ slotResources out.slots) :=
            (moves_releaseShm out).1.frame fun k hk ↦ absurd hk ((moves_releaseShm out).2 k)
          have hshown := moves_setCurrentSource overlay { out with
            currentShmPixmap := some ⟨answers.pixmap, answers.seg, event.width, event.height⟩ } .shm
          have hall := (hmade.append hreleased).append
            (hshown.perm List.perm_append_comm (.refl _))
          rw [if_neg (by simp), ledgerOps_append, ledgerOps_append]
          exact hall

theorem moves_detachOutput (out : I3Output) :
    Moves (ledgerOps (detachOutput out).2) (outputResources out) [] ∧
      ∀ k, .create k ∉ ledgerOps (detachOutput out).2 := by
  have hslots : ledgerOps (((List.finRange wpI3CaptureSlotCount).filterMap out.slots).map
      fun slot ↦ I3Effect.freePixmap slot.pixmap) =
        (slotResources out.slots).flatMap fun r ↦ [.destroy r] := by
    rw [slotResources, ← List.map_filterMap, ledgerOps, List.flatMap_map, List.flatMap_map]
    rfl
  have hops : ledgerOps (detachOutput out).2 =
      ((slotResources out.slots).flatMap fun r ↦ [.destroy r]) ++ ledgerOps (releaseShm out) := by
    simp only [detachOutput, ledgerOps_append, hslots]
    exact List.append_nil _
  have hdestroyed : ∀ (r : XResource) k, .create k ∉ [LedgerOp.destroy r] := by
    intro r k
    simp
  have hfreed : Moves ((slotResources out.slots).flatMap fun r ↦ [LedgerOp.destroy r])
      (shmResources out.currentShmPixmap ++ slotResources out.slots)
      (shmResources out.currentShmPixmap ++ []) := by
    apply Moves.frame
    · have hall := Moves.flatMap (fun r ↦ Moves.destroy r []) hdestroyed (slotResources out.slots)
      rwa [List.flatMap_singleton'] at hall
    · intro k hk
      obtain ⟨r, _, hr⟩ := List.mem_flatMap.mp hk
      exact absurd hr (hdestroyed r k)
  obtain ⟨hshm, hcreate⟩ := moves_releaseShm { out with slots := fun _ ↦ none }
  rw [List.append_nil] at hfreed
  rw [hops]
  refine ⟨(hfreed.perm List.perm_append_comm (.refl _)).append hshm, ?_⟩
  intro k hk
  rcases List.mem_append.mp hk with hk | hk
  · obtain ⟨r, _, hr⟩ := List.mem_flatMap.mp hk
    exact hdestroyed r k hr
  · exact hcreate k hk

/-! ## What the portal owns -/

/-- The names that an event may create. -/
def CreatesOnly (answers : XAnswers) (effects : List I3Effect) : Prop :=
  ∀ k, .create k ∈ ledgerOps effects → k = .pixmap answers.pixmap ∨ k = .seg answers.seg

theorem CreatesOnly.append {answers : XAnswers} {effects effects' : List I3Effect}
    (h : CreatesOnly answers effects) (h' : CreatesOnly answers effects') :
    CreatesOnly answers (effects ++ effects') := by
  intro k hk
  rw [ledgerOps_append] at hk
  exact (List.mem_append.mp hk).elim (h k) (h' k)

theorem createsOnly_of_none {effects : List I3Effect} (answers : XAnswers)
    (h : ∀ k, .create k ∉ ledgerOps effects) : CreatesOnly answers effects :=
  fun k hk ↦ absurd hk (h k)

theorem not_create_refreshBuffer (overlay : Bool) (out : I3Output) (k : XResource) :
    .create k ∉ ledgerOps (refreshBuffer overlay out) := by
  unfold refreshBuffer
  split
  · exact List.not_mem_nil
  · cases overlay <;> simp [ledgerOps, requestOps, drawDebugOverlay]

theorem not_create_setCurrentSource (overlay : Bool) (out : I3Output) (source : I3Source)
    (k : XResource) : .create k ∉ ledgerOps (setCurrentSource overlay out source).2 :=
  not_create_refreshBuffer overlay _ k

theorem not_create_releaseSlot (out : I3Output) (j : Fin wpI3CaptureSlotCount) (k : XResource) :
    .create k ∉ ledgerOps (releaseSlot out j).2 := by
  unfold releaseSlot
  split
  · exact List.not_mem_nil
  · simp [ledgerOps, requestOps]

theorem createsOnly_storeBuf (overlay : Bool) (event : CaptureEvent) (fd : ℤ)
    (answers : XAnswers) (out : I3Output) :
    CreatesOnly answers (storeBuf overlay event fd answers out).2 := by
  have hemptied : CreatesOnly answers (emptiedFor event out).2 :=
    createsOnly_of_none answers (not_create_releaseSlot _ _)
  have hrequest : CreatesOnly answers
      [importRequest event fd answers (emptiedFor event out).1] := by
    intro k hk
    cases himported : answers.imported with
    | false => simp [ledgerOps, requestOps, importRequest, himported] at hk
    | true =>
        have heq : k = .pixmap answers.pixmap := by
          simpa [ledgerOps, requestOps, importRequest, himported] using hk
        exact .inl heq
  cases himported : answers.imported with
  | false =>
      rw [storeBuf_of_failed overlay event fd himported]
      exact hemptied.append hrequest
  | true =>
      rw [storeBuf_of_imported overlay event fd himported]
      exact hemptied.append
        (hrequest.append (createsOnly_of_none answers (not_create_setCurrentSource overlay _ _)))

theorem createsOnly_storeShm (overlay : Bool) (event : CaptureEvent) (fd : ℤ)
    (answers : XAnswers) (out : I3Output) :
    CreatesOnly answers (storeShm overlay event fd answers out).2 := by
  unfold storeShm
  split
  · exact createsOnly_of_none answers fun _ ↦ List.not_mem_nil
  · split
    · exact createsOnly_of_none answers fun _ ↦ List.not_mem_nil
    · split
      · intro k hk
        have heq : k = .seg answers.seg := by
          rename_i hcreated
          simpa [ledgerOps, requestOps, hcreated] using hk
        exact .inr heq
      · have hmade : CreatesOnly answers [.shmAttachFd answers.seg fd true,
            .shmCreatePixmap answers.pixmap out.window event.width.toUInt16
              event.height.toUInt16 answers.seg answers.created] := by
          intro k hk
          rename_i hcreated
          have heq : k = .seg answers.seg ∨ k = .pixmap answers.pixmap := by
            simpa [ledgerOps, requestOps, hcreated] using hk
          exact heq.symm
        exact (hmade.append (createsOnly_of_none answers (moves_releaseShm out).2)).append
          (createsOnly_of_none answers (not_create_setCurrentSource overlay _ _))

theorem moves_updateOutput {st : I3State} {i : ℕ} {out : I3Output}
    (hout : st.outputs[i]? = some out) {f : I3Output → I3Output × List I3Effect}
    (hf : Moves (ledgerOps (f out).2) (outputResources out) (outputResources (f out).1))
    (hcreate : ∀ k, .create k ∈ ledgerOps (f out).2 → k ∉ heldResources st) :
    Moves (ledgerOps (updateOutput st i f).2) (heldResources st)
      (heldResources (updateOutput st i f).1) := by
  obtain ⟨hi, hget⟩ := List.getElem?_eq_some_iff.mp hout
  obtain ⟨before, after, houtputs, _, hset⟩ :
      ∃ before after, st.outputs = before ++ st.outputs[i] :: after ∧ before.length = i ∧
        st.outputs.set i (f out).1 = before ++ (f out).1 :: after := List.exists_of_set hi
  rw [hget] at houtputs
  simp only [updateOutput, hout, heldResources] at hcreate ⊢
  rw [hset]
  rw [houtputs] at hcreate ⊢
  simp only [List.flatMap_append, List.flatMap_cons] at hcreate ⊢
  have hrest : ∀ k, .create k ∈ ledgerOps (f out).2 →
      k ∉ before.flatMap outputResources ++ after.flatMap outputResources := by
    intro k hk hmem
    apply hcreate k hk
    simp only [List.mem_append] at hmem ⊢
    exact hmem.imp_right .inr
  have hmiddle : ∀ owned : List XResource,
      (before.flatMap outputResources ++ (owned ++ after.flatMap outputResources)).Perm
        (before.flatMap outputResources ++ after.flatMap outputResources ++ owned) := by
    intro owned
    rw [List.append_assoc]
    exact List.perm_append_comm.append_left _
  exact (hf.frame hrest).perm (hmiddle _) (hmiddle _).symm

theorem outputResources_sub {st : I3State} {i : ℕ} {out : I3Output}
    (hout : st.outputs[i]? = some out) : outputResources out ⊆ heldResources st := by
  intro r hr
  exact List.mem_flatMap.mpr ⟨out, List.mem_of_getElem? hout, hr⟩

/-- Code of one output that creates only the new names. -/
theorem moves_updateOutput_fresh {st : I3State} {answers : XAnswers}
    (hfresh : FreshNames (heldResources st) answers) {i : ℕ} {out : I3Output}
    (hout : st.outputs[i]? = some out) {f : I3Output → I3Output × List I3Effect}
    (hf : FreshNames (outputResources out) answers →
      Moves (ledgerOps (f out).2) (outputResources out) (outputResources (f out).1))
    (hcreates : CreatesOnly answers (f out).2) :
    Moves (ledgerOps (updateOutput st i f).2) (heldResources st)
      (heldResources (updateOutput st i f).1) := by
  apply moves_updateOutput hout (hf (hfresh.sub (outputResources_sub hout)))
  intro k hk
  rcases hcreates k hk with rfl | rfl
  · exact hfresh.pixmap
  · exact hfresh.seg

theorem moves_closed (fds : List ℤ) (owned : List XResource) :
    Moves (ledgerOps (fds.map .closeFd)) owned owned := by
  have hnone : ledgerOps (fds.map .closeFd) = [] := by
    rw [ledgerOps, List.flatMap_map]
    exact List.flatMap_eq_nil_iff.mpr fun _ _ ↦ rfl
  rw [hnone]
  exact .nil owned

theorem moves_handleBuf {st : I3State} {answers : XAnswers}
    (hfresh : FreshNames (heldResources st) answers) (event : CaptureEvent) (fd : ℤ) :
    Moves (ledgerOps (handleBuf st event fd answers).2) (heldResources st)
      (heldResources (handleBuf st event fd answers).1) := by
  unfold handleBuf
  split
  · exact moves_closed [fd] _
  · split
    · exact moves_closed [fd] _
    · rename_i i hi
      obtain ⟨out, hout, _⟩ := outputForBuf_eq_some hi
      exact moves_updateOutput_fresh hfresh hout (moves_storeBuf _ event fd)
        (createsOnly_storeBuf _ event fd answers out)

theorem moves_handleShm {st : I3State} {answers : XAnswers}
    (hfresh : FreshNames (heldResources st) answers) (event : CaptureEvent) (fd : ℤ) :
    Moves (ledgerOps (handleShm st event fd answers).2) (heldResources st)
      (heldResources (handleShm st event fd answers).1) := by
  unfold handleShm
  split
  · exact moves_closed [fd] _
  · rename_i hsome
    obtain ⟨out, outs, houtputs⟩ := List.exists_cons_of_ne_nil hsome
    have hout : st.outputs[0]? = some out := by rw [houtputs, List.getElem?_cons_zero]
    exact moves_updateOutput_fresh hfresh hout (moves_storeShm _ event fd)
      (createsOnly_storeShm _ event fd answers out)

theorem moves_handleFrame (st : I3State) (wireSlot : UInt32) :
    Moves (ledgerOps (handleFrame st wireSlot).2) (heldResources st)
      (heldResources (handleFrame st wireSlot).1) := by
  unfold handleFrame
  split
  · exact .nil _
  · rename_i i hi
    obtain ⟨out, hout, _⟩ := findOutputForChannel_eq_some hi
    apply moves_updateOutput hout
    · split
      · exact moves_setCurrentSource _ out (.slot wireSlot)
      · exact .nil _
    · intro k hk
      split at hk
      · exact absurd hk (not_create_setCurrentSource _ _ _ k)
      · exact absurd hk List.not_mem_nil

theorem moves_capture {st : I3State} {answers : XAnswers}
    (hfresh : FreshNames (heldResources st) answers) (event : CaptureEvent) :
    Moves (ledgerOps (handleCaptureEvent st event answers).2) (heldResources st)
      (heldResources (handleCaptureEvent st event answers).1) := by
  unfold handleCaptureEvent
  split
  · rw [ledgerOps_append]
    exact (moves_closed _ _).append (moves_handleBuf hfresh event _)
  · rw [ledgerOps_append]
    exact (moves_closed _ _).append (moves_handleFrame st event.slot)
  · exact moves_handleShm hfresh event _

theorem moves_detach (st : I3State) :
    Moves (ledgerOps (detach st).2) (heldResources st) (heldResources (detach st).1) := by
  have hnone : heldResources (detach st).1 = [] := by
    rw [heldResources, detach, List.flatMap_map]
    exact List.flatMap_eq_nil_iff.mpr fun _ _ ↦ rfl
  have hops : ledgerOps (detach st).2 =
      st.outputs.flatMap fun out ↦ ledgerOps (detachOutput out).2 := List.flatMap_assoc
  rw [hnone, hops]
  exact Moves.flatMap (fun out ↦ (moves_detachOutput out).1)
    (fun out ↦ (moves_detachOutput out).2) st.outputs

theorem moves_displays {st : I3State} {effects : List I3Effect} (h : Displays st effects) :
    Moves (ledgerOps effects) (heldResources st) (heldResources st) := by
  rcases h with rfl | ⟨out, hout, rfl | ⟨overlay, rfl⟩⟩
  · exact .nil _
  · exact .nil _
  · exact moves_refreshBuffer overlay fun r hr ↦ List.mem_flatMap.mpr ⟨out, hout, hr⟩

/-! ## Descriptors -/

def givenBy (effects : List I3Effect) : List ℤ := effects.flatMap givenFds

theorem givenBy_append (effects effects' : List I3Effect) :
    givenBy (effects ++ effects') = givenBy effects ++ givenBy effects' := List.flatMap_append

theorem givenBy_cons (e : I3Effect) (effects : List I3Effect) :
    givenBy (e :: effects) = givenFds e ++ givenBy effects := List.flatMap_cons

theorem givenBy_closed (fds : List ℤ) : givenBy (fds.map .closeFd) = fds := by
  rw [givenBy, List.flatMap_map]
  exact List.flatMap_singleton' fds

theorem givenBy_refreshBuffer (overlay : Bool) (out : I3Output) :
    givenBy (refreshBuffer overlay out) = [] := by
  unfold refreshBuffer
  split
  · rfl
  · cases overlay <;> rfl

theorem givenBy_setCurrentSource (overlay : Bool) (out : I3Output) (source : I3Source) :
    givenBy (setCurrentSource overlay out source).2 = [] := givenBy_refreshBuffer overlay _

theorem givenBy_emptiedFor (event : CaptureEvent) (out : I3Output) :
    givenBy (emptiedFor event out).2 = [] := by
  unfold emptiedFor releaseSlot
  split <;> rfl

theorem givenBy_releaseShm (out : I3Output) : givenBy (releaseShm out) = [] := by
  unfold releaseShm
  split <;> rfl

theorem givenBy_storeBuf (overlay : Bool) (event : CaptureEvent) (fd : ℤ) (answers : XAnswers)
    (out : I3Output) : givenBy (storeBuf overlay event fd answers out).2 = [fd] := by
  cases himported : answers.imported with
  | false =>
      rw [storeBuf_of_failed overlay event fd himported, givenBy_append, givenBy_emptiedFor]
      rfl
  | true =>
      rw [storeBuf_of_imported overlay event fd himported, givenBy_append, givenBy_cons,
        givenBy_emptiedFor, givenBy_setCurrentSource]
      rfl

theorem givenBy_storeShm (overlay : Bool) (event : CaptureEvent) (fd : ℤ) (answers : XAnswers)
    (out : I3Output) : givenBy (storeShm overlay event fd answers out).2 = [fd] := by
  unfold storeShm
  split
  · rfl
  · split
    · rfl
    · split
      · rfl
      · simp only [givenBy_append, givenBy_releaseShm, givenBy_setCurrentSource]
        rfl

theorem givenBy_handleBuf (st : I3State) (event : CaptureEvent) (fd : ℤ) (answers : XAnswers) :
    givenBy (handleBuf st event fd answers).2 = [fd] := by
  unfold handleBuf
  split
  · rfl
  · split
    · rfl
    · rename_i i hi
      obtain ⟨out, hout, _⟩ := outputForBuf_eq_some hi
      rw [updateOutput_effects hout]
      exact givenBy_storeBuf _ event fd answers out

theorem givenBy_handleShm (st : I3State) (event : CaptureEvent) (fd : ℤ) (answers : XAnswers) :
    givenBy (handleShm st event fd answers).2 = [fd] := by
  unfold handleShm
  split
  · rfl
  · rename_i hsome
    obtain ⟨out, outs, houtputs⟩ := List.exists_cons_of_ne_nil hsome
    have hout : st.outputs[0]? = some out := by rw [houtputs, List.getElem?_cons_zero]
    rw [updateOutput_effects hout]
    exact givenBy_storeShm _ event fd answers out

theorem givenBy_handleFrame (st : I3State) (wireSlot : UInt32) :
    givenBy (handleFrame st wireSlot).2 = [] := by
  unfold handleFrame
  split
  · rfl
  · rename_i i hi
    obtain ⟨out, hout, _⟩ := findOutputForChannel_eq_some hi
    rw [updateOutput_effects hout]
    split
    · exact givenBy_setCurrentSource _ out _
    · rfl

/-- Every descriptor of an event is closed or passed on, once. -/
theorem givenBy_capture (st : I3State) {event : CaptureEvent} (hevent : Portal.Delivered event)
    (answers : XAnswers) :
    (givenBy (handleCaptureEvent st event answers).2).Perm event.fds := by
  unfold handleCaptureEvent
  unfold Portal.Delivered at hevent
  split
  · rename_i htag
    simp only [htag] at hevent
    obtain ⟨fd, fds, hfds⟩ : ∃ fd fds, event.fds = fd :: fds := by
      apply List.exists_cons_of_ne_nil
      intro hnil
      simp [hnil] at hevent
    simp only [givenBy_append, givenBy_closed, givenBy_handleBuf, hfds]
    exact List.perm_append_comm
  · rename_i htag
    simp only [htag] at hevent
    simp only [givenBy_append, givenBy_closed, givenBy_handleFrame, List.append_nil]
    rw [List.take_of_length_le hevent]
  · rename_i htag
    simp only [htag] at hevent
    obtain ⟨fd, hfds⟩ := List.length_eq_one_iff.mp hevent
    rw [givenBy_handleShm, hfds]
    exact .refl _

theorem givenBy_detach (st : I3State) : givenBy (detach st).2 = [] := by
  rw [givenBy, detach, List.flatMap_assoc]
  refine List.flatMap_eq_nil_iff.mpr fun out _ ↦ ?_
  have hfreed : givenBy (((List.finRange wpI3CaptureSlotCount).filterMap out.slots).map
      fun slot ↦ I3Effect.freePixmap slot.pixmap) = [] := by
    rw [givenBy, List.flatMap_map]
    exact List.flatMap_eq_nil_iff.mpr fun _ _ ↦ rfl
  change givenBy (detachOutput out).2 = []
  simp only [detachOutput, givenBy_append, hfreed, givenBy_releaseShm]
  rfl

theorem givenBy_displays {st : I3State} {effects : List I3Effect} (h : Displays st effects) :
    givenBy effects = [] := by
  rcases h with rfl | ⟨out, _, rfl | ⟨overlay, rfl⟩⟩
  · rfl
  · rfl
  · exact givenBy_refreshBuffer overlay out

/-! ## Runs -/

structure ResourcesSound (s : I3System) : Prop where
  server : s.server.Accounts (heldResources s.portal)
  fds : s.given.Perm s.received

theorem resourcesSound_step {s s' : I3System} {l : I3Label} (h : ResourcesSound s)
    (hstep : i3Step s l = some s') : ResourcesSound s' := by
  unfold i3Step at hstep
  split at hstep
  · rename_i hadmissible
    obtain ⟨⟨portal, effects⟩, hlabel, rfl⟩ := Option.map_eq_some_iff.mp hstep
    have hmoved : ∀ owned, Moves (ledgerOps effects) (heldResources s.portal) owned →
        (s.server.run (ledgerOps effects)).Accounts owned :=
      fun owned hmoves ↦ hmoves s.server [] (fun _ _ ↦ List.not_mem_nil) h.server
    have hgiven : (givenBy effects).Perm (arrivingFds l) →
        (s.given ++ givenBy effects).Perm (s.received ++ arrivingFds l) := h.fds.append
    rcases handleLabel_cases hlabel with
      ⟨event, answers, rfl, heq⟩ | ⟨rfl, heq⟩ | ⟨hnone, houtputs, hdisplays⟩
    · obtain ⟨rfl, rfl⟩ := Prod.mk.inj heq
      have hfresh : FreshNames (heldResources s.portal) answers :=
        hadmissible.2.sub h.server.live.symm.subset
      exact ⟨hmoved _ (moves_capture hfresh event),
        hgiven (givenBy_capture s.portal hadmissible.1 answers)⟩
    · obtain ⟨rfl, rfl⟩ := Prod.mk.inj heq
      exact ⟨hmoved _ (moves_detach s.portal), hgiven (.of_eq (givenBy_detach s.portal))⟩
    · have hheld : heldResources portal = heldResources s.portal :=
        congrArg (List.flatMap outputResources) houtputs
      refine ⟨hmoved _ ?_, hgiven (.of_eq ((givenBy_displays hdisplays).trans hnone.symm))⟩
      rw [hheld]
      exact moves_displays hdisplays
  · exact absurd hstep (by simp)

/-- Whatever the receiver, the user and the X server do, the server holds
exactly the pixmaps and segments of the outputs, no request names a dead one,
and every received descriptor is closed or passed on once. -/
theorem i3_resources_conserved (screens : List I3Screen) (ls : List I3Label) {s : I3System}
    (h : exec i3Step (I3System.initial screens) ls = some s) : ResourcesSound s := by
  apply exec_invariant (fun _ _ _ ↦ resourcesSound_step) _ h
  have hnone : heldResources (I3System.initial screens).portal = [] := by
    apply List.flatMap_eq_nil_iff.mpr
    intro out hout
    obtain ⟨screen, _, rfl⟩ := List.mem_map.mp hout
    rfl
  exact ⟨⟨rfl, .of_eq hnone.symm⟩, .refl _⟩

/-- A buffer is imported twice into one slot and shown, an SHM image follows,
and the capture is detached. -/
def importsAndDetach : List I3Label :=
  [.capture ⟨.buf, 4, 1920, 1080, 7680, 0, false, 0, 0, [10]⟩ ⟨100, 101, true, true, true⟩,
    .capture ⟨.buf, 4, 1920, 1080, 7680, 0, false, 0, 0, [11, 12]⟩ ⟨102, 103, true, true, true⟩,
    .capture ⟨.frame, 4, 0, 0, 0, 0, false, 0, 0, [13]⟩ ⟨104, 105, true, true, true⟩,
    .capture ⟨.shm, 0, 1920, 1080, 7680, 0, false, 0, 0, [14]⟩ ⟨106, 107, true, true, true⟩,
    .detach]

theorem i3_resources_conserved_detach :
    ∃ s, exec i3Step (I3System.initial [⟨0, 0, 1920, 1080, 7⟩]) importsAndDetach = some s ∧
      ResourcesSound s :=
  ⟨_, rfl, i3_resources_conserved [⟨0, 0, 1920, 1080, 7⟩] importsAndDetach rfl⟩

end Wallpiper.I3
