import Wallpiper.Foundations.Runs
import Wallpiper.Portal.OutputSteps

/-!
# The descriptors that the portal received

A received descriptor is held by a slot or by the current SHM source of an
output until the portal closes it.  The balance of one descriptor is kept by
every step, except that an SHM source is given up without closing its
descriptor.
-/

namespace Wallpiper.Portal

open Foundations Capture

variable {β : Type*}

def sourceFds : Option WlSource → List ℤ
  | some (.shm fd ..) => [fd]
  | _ => []

def slotFds (slots : Fin wpWlCaptureSlotCount → Option (WlSlot β)) : List ℤ :=
  (List.finRange wpWlCaptureSlotCount).filterMap fun j ↦ (slots j).map WlSlot.fd

def outputFds (out : WlOutput β) : List ℤ := slotFds out.slots ++ sourceFds out.currentSource

/-- The portal and every descriptor that arrived in a capture event. -/
structure FdLedger (β : Type*) where
  portal : WlState β
  received : List ℤ

def FdLedger.initial (dmabuf viewporter shm : Bool) : FdLedger β :=
  ⟨.initial dmabuf viewporter shm, []⟩

def heldFds (s : FdLedger β) : List ℤ := s.portal.outputs.flatMap outputFds

/-- Every received descriptor is either held or was closed, once for each time
it was received. -/
def FdsConserved (s : FdLedger β) : Prop :=
  ∀ fd, s.received.count fd = (heldFds s).count fd + (closedFds s.portal.effects).count fd

/-! ## Events and the descriptors they carry -/

/-- The numbers of descriptors that the receiver hands over with an event. -/
def Delivered (event : CaptureEvent) : Prop :=
  match event.tag with
  | .buf => event.fds.length = 1 ∨ event.fds.length = 2
  | .frame => event.fds.length ≤ 1
  | .shm => event.fds.length = 1

instance (event : CaptureEvent) : Decidable (Delivered event) := by
  unfold Delivered
  split <;> infer_instance

theorem delivered_of_parseEvent {header : CText.Bytes} {fds : List ℤ} {event : CaptureEvent}
    (h : parseEvent header fds = some event) : Delivered event := by
  have htake : ¬ fds.length < 1 → (fds.take 2).length = 1 ∨ (fds.take 2).length = 2 := by
    intro hlen
    rw [List.length_take]
    omega
  simp only [parseEvent] at h
  split at h
  · exact absurd h (by simp)
  · split at h
    · split at h
      · split at h
        · exact absurd h (by simp)
        · rename_i hlen
          split at h <;> exact Option.some.inj h ▸ htake hlen
      · exact absurd h (by simp)
    · split at h
      · split at h
        · exact Option.some.inj h ▸ List.length_take_le 1 fds
        · exact absurd h (by simp)
      · split at h
        · split at h
          · split at h
            · exact absurd h (by simp)
            · rename_i hlen
              obtain rfl := Option.some.inj h
              have hone : (fds.take 1).length = 1 := by
                rw [List.length_take]
                omega
              exact hone
          · exact absurd h (by simp)
        · exact absurd h (by simp)

theorem delivered_of_wpRecvCaptureEvent {dgram : Datagram} {event : CaptureEvent}
    (h : wpRecvCaptureEvent dgram = some event) : Delivered event :=
  delivered_of_parseEvent h

def arrivingFds : WlLabel β → List ℤ
  | .capture event _ => event.fds
  | _ => []

/-- A step of the portal; an event is one that the receiver hands over. -/
def ledgerStep (s : FdLedger β) (l : WlLabel β) : Option (FdLedger β) :=
  match l with
  | .capture event imported =>
      if Delivered event then
        some ⟨wpWlHandleCaptureEvent s.portal event imported, s.received ++ event.fds⟩
      else none
  | l => (wlStep s.portal l).map fun portal ↦ ⟨portal, s.received⟩

theorem ledgerStep_eq_some {s s' : FdLedger β} {l : WlLabel β} (h : ledgerStep s l = some s') :
    (∀ event imported, l = .capture event imported → Delivered event) ∧
      wlStep s.portal l = some s'.portal ∧ s'.received = s.received ++ arrivingFds l := by
  have hportal : (wlStep s.portal l).map (fun portal ↦ (⟨portal, s.received⟩ : FdLedger β)) =
      some s' → arrivingFds l = [] →
        wlStep s.portal l = some s'.portal ∧ s'.received = s.received ++ arrivingFds l := by
    intro hmap hnone
    obtain ⟨portal, hstep, rfl⟩ := Option.map_eq_some_iff.mp hmap
    rw [hnone, List.append_nil]
    exact ⟨hstep, rfl⟩
  cases l with
  | capture event imported =>
      simp only [ledgerStep] at h
      split at h
      · rename_i hdelivered
        obtain rfl := Option.some.inj h
        refine ⟨?_, rfl, rfl⟩
        intro event' imported' heq
        obtain ⟨rfl, rfl⟩ := WlLabel.capture.inj heq
        exact hdelivered
      · exact absurd h (by simp)
  | detach => exact ⟨fun _ _ heq ↦ absurd heq (by simp), hportal h rfl⟩
  | frameDone i => exact ⟨fun _ _ heq ↦ absurd heq (by simp), hportal h rfl⟩
  | configure i width height => exact ⟨fun _ _ heq ↦ absurd heq (by simp), hportal h rfl⟩
  | addOutput => exact ⟨fun _ _ heq ↦ absurd heq (by simp), hportal h rfl⟩
  | geometry i x y => exact ⟨fun _ _ heq ↦ absurd heq (by simp), hportal h rfl⟩
  | mode i current width height => exact ⟨fun _ _ heq ↦ absurd heq (by simp), hportal h rfl⟩
  | done i => exact ⟨fun _ _ heq ↦ absurd heq (by simp), hportal h rfl⟩

/-- The output whose current source an event replaces. -/
def outputOfSource (st : WlState β) (event : CaptureEvent) (imported : Option β) : Option ℕ :=
  match event.tag with
  | .buf =>
      if channelOf event.slot < 4 ∧ st.dmabuf ∧ imported.isSome then
        outputForBuf st.outputs event
      else none
  | .frame =>
      (findOutputForChannel st.outputs (channelOf event.slot)).filter fun i ↦
        (st.outputs[i]?).any fun out ↦ (out.slots (localIdx event.slot)).isSome
  | .shm => if st.outputs = [] then none else some 0

/-- The descriptors of the SHM sources that a step gives up. -/
def givenUpFds (st : WlState β) : WlLabel β → List ℤ
  | .capture event imported =>
      ((outputOfSource st event imported).bind fun i ↦ st.outputs[i]?).elim []
        fun out ↦ sourceFds out.currentSource
  | .detach => st.outputs.flatMap fun out ↦ sourceFds out.currentSource
  | _ => []

/-- No SHM source is given up. -/
def KeepsShmSources (s : FdLedger β) (l : WlLabel β) : Prop := givenUpFds s.portal l = []

/-! ## The balance of one output -/

theorem count_filterMap_update {ι α : Type*} [DecidableEq ι] [DecidableEq α] {js : List ι}
    (hnodup : js.Nodup) {j : ι} (hj : j ∈ js) (f : ι → Option α) (a : Option α) (x : α) :
    (js.filterMap (Function.update f j a)).count x + (f j).toList.count x =
      (js.filterMap f).count x + a.toList.count x := by
  induction js with
  | nil => exact absurd hj List.not_mem_nil
  | cons k js ih =>
      obtain ⟨hk, hnodup⟩ := List.nodup_cons.mp hnodup
      have hcons : ∀ g : ι → Option α,
          ((k :: js).filterMap g).count x = (g k).toList.count x + (js.filterMap g).count x := by
        intro g
        rw [List.filterMap_cons]
        cases g k with
        | none => simp
        | some b =>
            rw [Option.toList_some, ← List.count_append]
            rfl
      rw [hcons, hcons]
      rcases List.mem_cons.mp hj with rfl | hj
      · have hrest : js.filterMap (Function.update f j a) = js.filterMap f := by
          apply List.filterMap_congr
          intro i hi
          have hne : i ≠ j := fun heq ↦ hk (heq ▸ hi)
          exact Function.update_of_ne hne a f
        rw [hrest, Function.update_self]
        omega
      · have hne : k ≠ j := fun heq ↦ hk (heq ▸ hj)
        rw [Function.update_of_ne hne]
        have hrest := ih hnodup hj
        omega

theorem count_slotFds_update (slots : Fin wpWlCaptureSlotCount → Option (WlSlot β))
    (j : Fin wpWlCaptureSlotCount) (slot : Option (WlSlot β)) (fd : ℤ) :
    (slotFds (Function.update slots j slot)).count fd +
        ((slots j).map WlSlot.fd).toList.count fd =
      (slotFds slots).count fd + (slot.map WlSlot.fd).toList.count fd := by
  have hupdate : (fun k ↦ (Function.update slots j slot k).map WlSlot.fd) =
      Function.update (fun k ↦ (slots k).map WlSlot.fd) j (slot.map WlSlot.fd) :=
    Function.comp_update (Option.map WlSlot.fd) slots j slot
  rw [slotFds, hupdate]
  exact count_filterMap_update (List.nodup_finRange _) (List.mem_finRange j)
    (fun k ↦ (slots k).map WlSlot.fd) (slot.map WlSlot.fd) fd

/-- What an output held, and what arrived, is held, closed or given up. -/
def Settles (out : WlOutput β) (arrived : List ℤ) (result : WlOutput β × List (WlEffect β))
    (givenUp : List ℤ) : Prop :=
  ∀ fd, (outputFds out).count fd + arrived.count fd =
    (outputFds result.1).count fd + (closedFds result.2).count fd + givenUp.count fd

theorem SameButDisplay.outputFds {out out' : WlOutput β} (h : SameButDisplay out out') :
    outputFds out' = Portal.outputFds out := by
  obtain ⟨_, _, _, _, rfl⟩ := h
  rfl

theorem settles_display {out : WlOutput β} {result : WlOutput β × List (WlEffect β)}
    (hdisplay : SameButDisplay out result.1) (hclosed : closedFds result.2 = []) :
    Settles out [] result [] := by
  intro fd
  rw [hdisplay.outputFds, hclosed]
  simp

theorem settles_setCurrentSource (shm : Bool) (out : WlOutput β) (source : WlSource) :
    Settles out (sourceFds (some source)) (wpWlSetCurrentSource shm out source)
      (sourceFds out.currentSource) := by
  intro fd
  obtain ⟨hdisplay, hclosed⟩ := wpWlSetCurrentSource_display shm source out
  rw [hdisplay.outputFds, hclosed]
  simp only [outputFds, List.count_append, List.count_nil]
  omega

/-- A failed import closes the new descriptor and the one of the old slot. -/
theorem settles_storeBuf_none (shm : Bool) (event : CaptureEvent) (fd : ℤ) (out : WlOutput β) :
    Settles out [fd] (storeBuf shm event fd none out) [] := by
  intro fd'
  obtain ⟨hout, hclosed⟩ := storeBuf_none shm event fd out
  have hslots := count_slotFds_update out.slots (localIdx event.slot) none fd'
  rw [hout, hclosed]
  simp only [outputFds, List.count_append, List.count_nil, Option.map_none,
    Option.toList_none] at hslots ⊢
  omega

theorem settles_storeBuf_some (shm : Bool) (event : CaptureEvent) (fd : ℤ) (buffer : β)
    (out : WlOutput β) :
    Settles out [fd] (storeBuf shm event fd (some buffer) out) (sourceFds out.currentSource) := by
  intro fd'
  obtain ⟨hdisplay, hclosed⟩ := storeBuf_some shm event fd buffer out
  have hslots := count_slotFds_update out.slots (localIdx event.slot)
    (some ⟨event.slot, buffer, fd, event.width, event.height⟩) fd'
  rw [hdisplay.outputFds, hclosed]
  simp only [outputFds, sourceFds, List.count_append, List.count_nil, Option.map_some,
    Option.toList_some] at hslots ⊢
  omega

theorem settles_detachOutput (out : WlOutput β) :
    Settles out [] (detachOutput out) (sourceFds out.currentSource) := by
  intro fd
  have hheld : outputFds (detachOutput out).1 = [] := by
    simp only [outputFds, slotFds, detachOutput, sourceFds, Option.map_none, List.append_nil]
    exact List.filterMap_eq_nil_iff.mpr fun _ _ ↦ rfl
  have hclosed : closedFds (detachOutput out).2 = slotFds out.slots := by
    rw [closedFds_detachOutput, slotFds, List.map_filterMap]
  rw [hheld, hclosed, outputFds, List.count_append]
  simp

/-! ## The balance of the portal -/

/-- The same balance for the whole portal, with everything it has closed. -/
def Balanced (st : WlState β) (arrived : List ℤ) (st' : WlState β) (givenUp : List ℤ) : Prop :=
  ∀ fd, (st.outputs.flatMap outputFds).count fd + (closedFds st.effects).count fd +
      arrived.count fd =
    (st'.outputs.flatMap outputFds).count fd + (closedFds st'.effects).count fd +
      givenUp.count fd

theorem Balanced.refl (st : WlState β) : Balanced st [] st [] := fun _ ↦ rfl

theorem Balanced.trans {st st' st'' : WlState β} {arrived arrived' givenUp : List ℤ}
    (h : Balanced st arrived st' []) (h' : Balanced st' arrived' st'' givenUp) :
    Balanced st (arrived ++ arrived') st'' givenUp := by
  intro fd
  have hfd := h fd
  have hfd' := h' fd
  rw [List.count_nil] at hfd
  rw [List.count_append]
  omega

/-- Arriving descriptors that are closed at once. -/
theorem balanced_close (st : WlState β) (fds : List ℤ) :
    Balanced st fds { st with effects := st.effects ++ fds.map .closeFd } [] := by
  intro fd
  simp only [closedFds_append, closedFds_map_closeFd, List.count_append, List.count_nil]
  omega

theorem balanced_updateOutput {st : WlState β} {i : ℕ} {out : WlOutput β}
    (hout : st.outputs[i]? = some out) {f : WlOutput β → WlOutput β × List (WlEffect β)}
    {arrived givenUp : List ℤ} (hf : Settles out arrived (f out) givenUp) :
    Balanced st arrived (updateOutput st i f) givenUp := by
  intro fd
  obtain ⟨hi, hget⟩ := List.getElem?_eq_some_iff.mp hout
  obtain ⟨before, after, houtputs, _, hset⟩ :
      ∃ before after, st.outputs = before ++ st.outputs[i] :: after ∧ before.length = i ∧
        st.outputs.set i (f out).1 = before ++ (f out).1 :: after := List.exists_of_set hi
  have hsettles := hf fd
  rw [hget] at houtputs
  simp only [updateOutput, hout, hset]
  rw [houtputs]
  simp only [List.flatMap_append, List.flatMap_cons, List.count_append, closedFds_append]
  omega

theorem updateOutput_of_none {st : WlState β} {i : ℕ} (hout : st.outputs[i]? = none)
    (f : WlOutput β → WlOutput β × List (WlEffect β)) : updateOutput st i f = st := by
  simp only [updateOutput, hout]

theorem balanced_modifyOutput (st : WlState β) (i : ℕ) {f : WlOutput β → WlOutput β}
    (hf : ∀ out : WlOutput β, outputFds (f out) = outputFds out) :
    Balanced st [] (modifyOutput st i f) [] := by
  cases hout : st.outputs[i]? with
  | none =>
      rw [modifyOutput, updateOutput_of_none hout]
      exact .refl st
  | some out =>
      apply balanced_updateOutput hout
      intro fd
      simp only [hf, closedFds_nil, List.count_nil]

theorem balanced_detach (st : WlState β) :
    Balanced st [] (wpWlDetach st) (givenUpFds st .detach) := by
  intro fd
  have houtputs : ∀ outs : List (WlOutput β),
      (outs.flatMap outputFds).count fd =
        ((outs.map fun out ↦ (detachOutput out).1).flatMap outputFds).count fd +
          (closedFds (outs.flatMap fun out ↦ (detachOutput out).2)).count fd +
          (outs.flatMap fun out ↦ sourceFds out.currentSource).count fd := by
    intro outs
    induction outs with
    | nil => rfl
    | cons out outs ih =>
        have hout := settles_detachOutput out fd
        simp only [List.flatMap_cons, List.map_cons, List.count_append, closedFds_append,
          List.count_nil] at hout ⊢
        omega
  have hall := houtputs st.outputs
  simp only [wpWlDetach, givenUpFds, closedFds_append, List.count_append, List.count_nil]
  omega

/-- The code of a buffer, a frame or an SHM image at the output it goes to. -/
theorem balanced_handleBuf (st : WlState β) (event : CaptureEvent) (fd : ℤ)
    (imported : Option β) (htag : event.tag = .buf) :
    Balanced st [fd] (handleBuf st event fd imported)
      (givenUpFds st (.capture event imported)) := by
  have hdropped := balanced_close st [fd]
  unfold handleBuf
  split
  · rename_i hge
    have hnone : outputOfSource st event imported = none := by
      rw [outputOfSource, htag]
      exact if_neg fun h ↦ absurd h.1 (UInt32.not_lt.mpr hge)
    simp only [givenUpFds, hnone, Option.bind_none, Option.elim_none]
    exact hdropped
  · rename_i hlt
    have htarget : ∀ buffer : Option β, buffer = (if st.dmabuf then imported else none) →
        outputOfSource st event imported =
          if buffer.isSome then outputForBuf st.outputs event else none := by
      rintro buffer rfl
      rw [outputOfSource, htag]
      cases st.dmabuf with
      | true => simp [UInt32.not_le.mp hlt]
      | false => simp
    split
    · rename_i hnone
      have hsource : outputOfSource st event imported = none := by
        rw [htarget _ rfl, hnone, ite_self]
      simp only [givenUpFds, hsource, Option.bind_none, Option.elim_none]
      exact hdropped
    · rename_i i hi
      obtain ⟨out, hout⟩ : ∃ out, st.outputs[i]? = some out :=
        ⟨_, List.getElem?_eq_getElem (outputForBuf_lt hi)⟩
      apply balanced_updateOutput hout
      cases hbuffer : (if st.dmabuf then imported else none) with
      | none =>
          have hsource := htarget none hbuffer.symm
          simp only [givenUpFds, hsource]
          exact settles_storeBuf_none st.shm event fd out
      | some buffer =>
          have hsource := htarget (some buffer) hbuffer.symm
          simp only [givenUpFds, hsource, Option.isSome_some, hi, if_true, Option.bind_some, hout,
            Option.elim_some]
          exact settles_storeBuf_some st.shm event fd buffer out

theorem balanced_handleFrame (st : WlState β) (event : CaptureEvent) (imported : Option β)
    (htag : event.tag = .frame) :
    Balanced st [] (handleFrame st event.slot) (givenUpFds st (.capture event imported)) := by
  unfold handleFrame
  split
  · rename_i hnone
    simp only [givenUpFds, outputOfSource, htag, hnone, Option.filter_none, Option.bind_none,
      Option.elim_none]
    exact .refl st
  · rename_i i hi
    obtain ⟨out, hout⟩ : ∃ out, st.outputs[i]? = some out :=
      ⟨_, List.getElem?_eq_getElem (findIdx?_lt hi)⟩
    apply balanced_updateOutput hout
    cases hslot : (out.slots (localIdx event.slot)).isSome with
    | false =>
        simp only [givenUpFds, outputOfSource, htag, hi, hout, hslot, Option.filter_some,
          Option.any_some, Bool.false_eq_true, if_false, Option.bind_none, Option.elim_none]
        exact settles_display ⟨_, _, _, _, rfl⟩ rfl
    | true =>
        simp only [givenUpFds, outputOfSource, htag, hi, hout, hslot, Option.filter_some,
          Option.any_some, if_true, Option.bind_some, Option.elim_some]
        exact settles_setCurrentSource st.shm out (.slot event.slot)

theorem balanced_handleShm (st : WlState β) (event : CaptureEvent) (fd : ℤ)
    (imported : Option β) (htag : event.tag = .shm) :
    Balanced st [fd] (handleShm st event fd) (givenUpFds st (.capture event imported)) := by
  unfold handleShm
  split
  · rename_i hnone
    simp only [givenUpFds, outputOfSource, htag, hnone, if_true, Option.bind_none,
      Option.elim_none]
    have hclosed := balanced_close st [fd]
    rw [hnone] at hclosed
    exact hclosed
  · rename_i hsome
    obtain ⟨out, outs, houtputs⟩ := List.exists_cons_of_ne_nil hsome
    have hout : st.outputs[0]? = some out := by rw [houtputs, List.getElem?_cons_zero]
    apply balanced_updateOutput hout
    simp only [givenUpFds, outputOfSource, htag, hsome, if_false, Option.bind_some, hout,
      Option.elim_some]
    exact settles_setCurrentSource st.shm out (.shm fd event.width event.height event.stride)

theorem balanced_capture (st : WlState β) {event : CaptureEvent} (imported : Option β)
    (hdelivered : Delivered event) :
    Balanced st event.fds (wpWlHandleCaptureEvent st event imported)
      (givenUpFds st (.capture event imported)) := by
  cases htag : event.tag with
  | buf =>
      obtain ⟨fd, fds, hevent⟩ : ∃ fd fds, event.fds = fd :: fds := by
        apply List.exists_cons_of_ne_nil
        intro hnil
        simp [Delivered, htag, hnil] at hdelivered
      simp only [wpWlHandleCaptureEvent, htag, hevent, List.drop_one, List.tail_cons,
        List.headD_cons]
      have hbuf := (balanced_close st fds).trans (balanced_handleBuf _ event fd imported htag)
      intro fd'
      have hcount := hbuf fd'
      have hfds : (fd :: fds).count fd' = (fds ++ [fd]).count fd' := by
        rw [List.count_append, Nat.add_comm, ← List.count_append, List.singleton_append]
      rw [hfds]
      exact hcount
  | frame =>
      have hfds : event.fds.take 1 = event.fds := by
        apply List.take_of_length_le
        simpa [Delivered, htag] using hdelivered
      simp only [wpWlHandleCaptureEvent, htag, hfds]
      have hframe := (balanced_close st event.fds).trans
        (balanced_handleFrame _ event imported htag)
      rw [List.append_nil] at hframe
      exact hframe
  | shm =>
      obtain ⟨fd, hfds⟩ : ∃ fd, event.fds = [fd] := by
        apply List.length_eq_one_iff.mp
        simpa [Delivered, htag] using hdelivered
      simp only [wpWlHandleCaptureEvent, htag, hfds, List.headD_cons]
      exact balanced_handleShm st event fd imported htag

/-- What a step does to the descriptors: only the SHM sources it gives up are
neither held nor closed afterwards. -/
theorem balanced_step {st st' : WlState β} {l : WlLabel β} (hstep : wlStep st l = some st')
    (hdelivered : ∀ event imported, l = .capture event imported → Delivered event) :
    Balanced st (arrivingFds l) st' (givenUpFds st l) := by
  cases l with
  | capture event imported =>
      obtain rfl := Option.some.inj hstep
      exact balanced_capture st imported (hdelivered event imported rfl)
  | detach =>
      obtain rfl := Option.some.inj hstep
      exact balanced_detach st
  | frameDone i =>
      obtain ⟨out, hout, _, rfl⟩ := wlStep_frameDone hstep
      apply balanced_updateOutput hout
      obtain ⟨⟨running, pending, buffer, pool, heq⟩, hclosed⟩ := wpWlRefreshBuffer_display st.shm
        { out with pendingCallbacks := out.pendingCallbacks - 1 }
      exact settles_display ⟨running, pending, buffer, pool, heq⟩ hclosed
  | configure i width height =>
      obtain rfl := wlStep_configure hstep
      exact balanced_modifyOutput st i fun _ ↦ rfl
  | addOutput =>
      obtain rfl := Option.some.inj hstep
      unfold wpWlAddOutput
      split
      · exact .refl st
      · intro fd
        have hzero : outputFds (WlOutput.zero (β := β)) = [] := rfl
        simp only [List.flatMap_append, List.flatMap_cons, List.flatMap_nil, hzero,
          List.append_nil]
        rfl
  | geometry i x y =>
      obtain rfl := Option.some.inj hstep
      exact balanced_modifyOutput st i fun _ ↦ rfl
  | mode i current width height =>
      obtain rfl := Option.some.inj hstep
      apply balanced_modifyOutput st i
      intro out
      unfold outputMode
      split
      · rfl
      · rfl
  | done i =>
      obtain rfl := Option.some.inj hstep
      apply balanced_modifyOutput st i
      intro out
      unfold outputDone wpWlOutputReady
      split
      · rfl
      · rfl

/-! ## Runs -/

/-- From a conserving state, a step conserves the descriptors exactly when it
gives up no SHM source. -/
theorem fdsConserved_step {s s' : FdLedger β} {l : WlLabel β} (h : FdsConserved s)
    (hstep : ledgerStep s l = some s') : FdsConserved s' ↔ KeepsShmSources s l := by
  obtain ⟨hdelivered, hportal, hreceived⟩ := ledgerStep_eq_some hstep
  have hbalanced := balanced_step hportal hdelivered
  constructor
  · intro h'
    apply List.eq_nil_iff_forall_not_mem.mpr
    intro fd
    have hfd := h fd
    have hfd' := h' fd
    have hcount := hbalanced fd
    rw [hreceived, List.count_append] at hfd'
    simp only [heldFds] at hfd hfd'
    apply List.count_eq_zero.mp
    omega
  · intro hkeeps fd
    have hfd := h fd
    have hcount := hbalanced fd
    rw [hkeeps, List.count_nil] at hcount
    rw [hreceived, List.count_append]
    simp only [heldFds] at hfd ⊢
    omega

/-- The descriptors are conserved throughout exactly the runs in which no SHM
source is replaced or detached. -/
theorem fdsConserved_iff (dmabuf viewporter shm : Bool) (ls : List (WlLabel β)) :
    Always ledgerStep FdsConserved (FdLedger.initial dmabuf viewporter shm) ls ↔
      Guarded ledgerStep KeepsShmSources (FdLedger.initial dmabuf viewporter shm) ls := by
  apply always_iff_guarded
  · intro s l s' h hstep
    exact fdsConserved_step h hstep
  · intro fd
    rfl

/-- One output shows an SHM image and the portal is detached. -/
def shmThenDetach : List (WlLabel ℕ) :=
  [.addOutput, .capture ⟨.shm, 0, 1, 1, 4, 0, false, 0, 0, [7]⟩ none, .detach]

/-- The descriptor of the SHM image is neither held nor closed after DETACH. -/
theorem shm_descriptor_leaks :
    ¬ ∀ ls : List (WlLabel ℕ), Always ledgerStep FdsConserved (FdLedger.initial true true true)
      ls := by
  intro h
  have hcounts : (exec ledgerStep (FdLedger.initial true true true) shmThenDetach).map
      (fun s ↦ (s.received.count 7, (heldFds s).count 7, (closedFds s.portal.effects).count 7)) =
        some (1, 0, 0) := by
    decide +kernel
  obtain ⟨s, hrun, hs⟩ := Option.map_eq_some_iff.mp hcounts
  have hconserved := (h shmThenDetach).exec hrun 7
  simp only [Prod.mk.injEq] at hs
  omega

end Wallpiper.Portal
