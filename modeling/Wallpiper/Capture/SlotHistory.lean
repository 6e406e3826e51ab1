import Wallpiper.Capture.LayerSteps
import Wallpiper.Foundations.Histories
import Wallpiper.Foundations.Runs

/-!
# The driver calls made for one capture slot

Every slot has a history of driver calls from its creation on.  The history
decides whether a copy is still in flight, whether one was ever submitted and
whether the semaphore still carries a signal; the flags of the slot agree with
it whatever the driver answers.
-/

namespace Wallpiper.Capture

open Foundations

/-- What the driver knows of a slot. -/
structure SlotUse where
  inFlight : Bool
  submitted : Bool
  signaled : Bool
  deriving DecidableEq, Repr

def SlotUse.fresh : SlotUse := ⟨false, false, false⟩

/-- A copy is in flight from its submission until its fence was seen signaled;
the semaphore is signaled from the submission until its payload is exported. -/
def SlotUse.after (use : SlotUse) : DriverCall → SlotUse
  | .getFenceStatus _ .success => { use with inFlight := false }
  | .waitForFences _ true => { use with inFlight := false }
  | .queueSubmit _ true => ⟨true, true, true⟩
  | .getSemaphoreFd _ true => { use with signaled := false }
  | _ => use

def slotUse (history : List DriverCall) : SlotUse := history.foldl SlotUse.after .fresh

theorem slotUse_append (before calls : List DriverCall) :
    slotUse (before ++ calls) = calls.foldl SlotUse.after (slotUse before) :=
  List.foldl_append

/-- A slot is reset, recorded and submitted only while no copy is in flight,
and acquired back exactly if a copy was submitted before. -/
def ReuseAllowed (use : SlotUse) : DriverCall → Prop
  | .resetFences .. => use.inFlight = false
  | .resetCommandBuffer .. => use.inFlight = false
  | .beginCommandBuffer .. => use.inFlight = false
  | .copyBarriers _ acquire => use.inFlight = false ∧ acquire = use.submitted
  | .endCommandBuffer .. => use.inFlight = false
  | .queueSubmit .. => use.inFlight = false
  | _ => True

/-! ## Presents, resizes and teardowns -/

def CaptureLayer.slotAt (layer : CaptureLayer) (d : ℕ) (i : Fin wpMaxSwapchains)
    (j : SlotIndex) : Option CaptureSlot :=
  (layer.stateAt d i).bind fun state ↦ state.slots j

/-- The slot that a present works on, with its place. -/
def presentedSlot (layer : CaptureLayer) (d : ℕ) (swapchain : UInt64) (imageIndex : UInt32)
    (driver : DriverAnswers) : Option (Fin wpMaxSwapchains × SlotIndex × CaptureSlot) :=
  if driver.queueFamilyKnown = false then none
  else
    match findSwapchain (layer.devices d) swapchain with
    | none => none
    | some (i, state) =>
        if imageIndex ≥ state.imageCount then none
        else
          ((state.slots state.nextSlot).or (createCaptureSlot state driver)).map fun slot ↦
            (i, state.nextSlot, slot)

/-- The calls of a present for its slot. -/
def presentCalls (slot : CaptureSlot) (driver : DriverAnswers) : List DriverCall :=
  let copy := captureSlot slot driver
  if copy.submitted = false then copy.calls else copy.calls ++ exportCalls copy.slot driver

/-- The layer with the history of every slot, and those of destroyed slots. -/
structure SlotRun where
  layer : CaptureLayer
  history : ℕ → Fin wpMaxSwapchains → SlotIndex → List DriverCall
  destroyed : List (List DriverCall)

def SlotRun.initial : SlotRun :=
  { layer := .initial, history := fun _ _ _ ↦ [], destroyed := [] }

inductive SlotLabel where
  | register (device : ℕ) (swapchain : UInt64) (info : SwapchainInfo)
  | present (device : ℕ) (swapchain : UInt64) (imageIndex : UInt32) (driver : DriverAnswers)
      (sendOk : Bool)
  | teardown (device : ℕ) (swapchain : UInt64) (fenceWait : SlotIndex → Bool)

/-- A new slot starts with an empty history. -/
def recordPresent (s : SlotRun) (d : ℕ) (presented : Fin wpMaxSwapchains × SlotIndex × CaptureSlot)
    (driver : DriverAnswers) : ℕ → Fin wpMaxSwapchains → SlotIndex → List DriverCall :=
  let (i, j, slot) := presented
  let before := if (s.layer.slotAt d i j).isSome then s.history d i j else []
  fun e k j' ↦
    if e = d ∧ k = i ∧ j' = j then before ++ presentCalls slot driver else s.history e k j'

/-- The histories that a teardown ends. -/
def endedHistories (s : SlotRun) (d : ℕ) (swapchain : UInt64) (fenceWait : SlotIndex → Bool) :
    List (List DriverCall) :=
  match findSwapchain (s.layer.devices d) swapchain with
  | none => []
  | some (i, state) =>
      (List.finRange wpCaptureSlotCount).filterMap fun j ↦ (state.slots j).map fun slot ↦
        s.history d i j ++ destroyCaptureSlot slot (fenceWait j)

def slotStep (s : SlotRun) : SlotLabel → Option SlotRun
  | .register d swapchain info =>
      some { s with layer := wpRegisterSwapchain s.layer d swapchain info }
  | .present d swapchain imageIndex driver sendOk =>
      let presented := wpCaptureAndNotify s.layer d swapchain imageIndex driver
      some { s with
        layer :=
          match presented.2 with
          | some notice => if sendOk then markBufSent presented.1 d notice else presented.1
          | none => presented.1
        history :=
          match presentedSlot s.layer d swapchain imageIndex driver with
          | some slot => recordPresent s d slot driver
          | none => s.history }
  | .teardown d swapchain fenceWait =>
      some { s with
        layer := wpTeardownSwapchain s.layer d swapchain fenceWait
        destroyed := s.destroyed ++ endedHistories s d swapchain fenceWait }

/-- The calls that a step makes, slot by slot. -/
def stepCalls (s : SlotRun) : SlotLabel → List DriverCall
  | .register .. => []
  | .present d swapchain imageIndex driver _ =>
      match presentedSlot s.layer d swapchain imageIndex driver with
      | none => []
      | some (_, _, slot) => presentCalls slot driver
  | .teardown d swapchain fenceWait =>
      match findSwapchain (s.layer.devices d) swapchain with
      | none => []
      | some (_, state) =>
          (List.finRange wpCaptureSlotCount).flatMap fun j ↦
            match state.slots j with
            | none => []
            | some slot => destroyCaptureSlot slot (fenceWait j)

/-- A law about the histories of all slots, live or destroyed. -/
def HistoriesLawful (allowed : SlotUse → DriverCall → Prop) (s : SlotRun) : Prop :=
  (∀ d i j, (s.layer.slotAt d i j).isSome → Lawful SlotUse.after allowed .fresh (s.history d i j)) ∧
    ∀ history ∈ s.destroyed, Lawful SlotUse.after allowed .fresh history

def SlotReuseSafe : SlotRun → Prop := HistoriesLawful ReuseAllowed

/-! ## The calls of one present -/

/-- The flags of a slot agree with what its history says. -/
structure SlotTracks (use : SlotUse) (slot : CaptureSlot) : Prop where
  pending : slot.fencePending = use.inFlight
  released : use.submitted = decide (slot.ownership = .releasedToForeign)

/-- Waiting is always allowed, and a slot that is cleared has no copy in
flight. -/
theorem clearFence_use {slot : CaptureSlot} {use : SlotUse} (h : SlotTracks use slot)
    (driver : DriverAnswers) :
    Lawful SlotUse.after ReuseAllowed use (clearFence slot driver).2 ∧
      match (clearFence slot driver).1 with
      | none => (clearFence slot driver).2.foldl SlotUse.after use = use
      | some slot' => SlotTracks ((clearFence slot driver).2.foldl SlotUse.after use) slot' ∧
          slot'.fencePending = false ∧
          ((clearFence slot driver).2.foldl SlotUse.after use).signaled = use.signaled := by
  unfold clearFence
  split
  · rename_i hidle
    exact ⟨lawful_nil use, h, hidle, rfl⟩
  · cases driver.fenceStatus with
    | success => exact ⟨lawful_cons.mpr ⟨trivial, lawful_nil _⟩, ⟨rfl, h.released⟩, rfl, rfl⟩
    | notReady =>
        have hlawful : ∀ ok, Lawful SlotUse.after ReuseAllowed use
            [.getFenceStatus slot.image .notReady, .waitForFences slot.image ok] :=
          fun _ ↦ lawful_cons.mpr ⟨trivial, lawful_cons.mpr ⟨trivial, lawful_nil _⟩⟩
        cases driver.fenceWait with
        | false => exact ⟨hlawful false, rfl⟩
        | true => exact ⟨hlawful true, ⟨rfl, h.released⟩, rfl, rfl⟩
    | error => exact ⟨lawful_cons.mpr ⟨trivial, lawful_nil _⟩, rfl⟩

theorem recordAndSubmitCopy_use {slot : CaptureSlot} {use : SlotUse} (h : SlotTracks use slot)
    (hidle : use.inFlight = false) (driver : DriverAnswers) :
    Lawful SlotUse.after ReuseAllowed use (recordAndSubmitCopy slot driver).2 ∧
      (recordAndSubmitCopy slot driver).2.foldl SlotUse.after use =
        if (recordAndSubmitCopy slot driver).1 then ⟨true, true, true⟩ else use := by
  unfold recordAndSubmitCopy
  cases driver.beginCommandBuffer with
  | false => exact ⟨lawful_cons.mpr ⟨hidle, lawful_nil _⟩, rfl⟩
  | true =>
      have hrecorded : ∀ ok, Lawful SlotUse.after ReuseAllowed use
          [.beginCommandBuffer slot.image true,
            .copyBarriers slot.image (slot.ownership = .releasedToForeign),
            .endCommandBuffer slot.image ok] :=
        fun _ ↦ lawful_cons.mpr ⟨hidle, lawful_cons.mpr ⟨⟨hidle, h.released.symm⟩,
          lawful_cons.mpr ⟨hidle, lawful_nil _⟩⟩⟩
      cases driver.endCommandBuffer with
      | false => exact ⟨hrecorded false, rfl⟩
      | true =>
          refine ⟨lawful_append.mpr ⟨hrecorded true, lawful_cons.mpr ⟨hidle, lawful_nil _⟩⟩, ?_⟩
          cases driver.queueSubmit with
          | false => rfl
          | true => rfl

/-- The part of a present that works on a slot reuses it safely and keeps its
flags in step; the semaphore is signaled exactly by a submission. -/
theorem captureSlot_use {slot : CaptureSlot} {use : SlotUse} (h : SlotTracks use slot)
    (driver : DriverAnswers) :
    Lawful SlotUse.after ReuseAllowed use (captureSlot slot driver).calls ∧
      SlotTracks ((captureSlot slot driver).calls.foldl SlotUse.after use)
        (captureSlot slot driver).slot ∧
      ((captureSlot slot driver).calls.foldl SlotUse.after use).signaled =
        (use.signaled || (captureSlot slot driver).submitted) := by
  obtain ⟨hwaits, hcleared⟩ := clearFence_use h driver
  unfold captureSlot
  split
  · rename_i calls hclear
    rw [hclear] at hwaits hcleared
    simp only at hwaits hcleared
    refine ⟨hwaits, ?_, ?_⟩
    · rw [hcleared]
      exact h
    · rw [hcleared, Bool.or_false]
  · rename_i slot' calls hclear
    rw [hclear] at hwaits hcleared
    simp only at hwaits hcleared
    obtain ⟨htracks, hpending, hsignaled⟩ := hcleared
    have hidle := htracks.pending.symm.trans hpending
    have hfence : ∀ ok, Lawful SlotUse.after ReuseAllowed use
        (calls ++ [.resetFences slot'.image ok]) :=
      fun _ ↦ lawful_append.mpr ⟨hwaits, lawful_cons.mpr ⟨hidle, lawful_nil _⟩⟩
    have hreset : ∀ ok, Lawful SlotUse.after ReuseAllowed use
        (calls ++ [.resetFences slot'.image true, .resetCommandBuffer slot'.image ok]) :=
      fun _ ↦ lawful_append.mpr
        ⟨hwaits, lawful_cons.mpr ⟨hidle, lawful_cons.mpr ⟨hidle, lawful_nil _⟩⟩⟩
    cases driver.resetFences with
    | false =>
        refine ⟨hfence false, ?_, ?_⟩
        · rw [if_pos rfl, List.foldl_append]
          exact htracks
        · rw [if_pos rfl, List.foldl_append, Bool.or_false]
          exact hsignaled
    | true =>
        cases driver.resetCommandBuffer with
        | false =>
            refine ⟨hreset false, ?_, ?_⟩
            · rw [if_neg (by simp), if_pos rfl, List.foldl_append]
              exact htracks
            · rw [if_neg (by simp), if_pos rfl, List.foldl_append, Bool.or_false]
              exact hsignaled
        | true =>
            obtain ⟨hcopy, hcopied⟩ := recordAndSubmitCopy_use htracks hidle driver
            simp only [Bool.true_eq_false, if_false]
            have hsame : (calls ++ [DriverCall.resetFences slot'.image true,
                .resetCommandBuffer slot'.image true]).foldl SlotUse.after use =
                  calls.foldl SlotUse.after use := by
              rw [List.foldl_append]
              rfl
            have hall := lawful_append.mpr ⟨hreset true, hsame ▸ hcopy⟩
            split
            · rename_i hfailed
              rw [hfailed] at hcopied
              refine ⟨hall, ?_, ?_⟩
              · rw [List.foldl_append, hsame, hcopied]
                exact htracks
              · rw [List.foldl_append, hsame, hcopied, Bool.or_false]
                exact hsignaled
            · rename_i hsubmitted
              rw [Bool.not_eq_false] at hsubmitted
              rw [hsubmitted, if_pos rfl] at hcopied
              refine ⟨hall, ?_, ?_⟩
              · rw [List.foldl_append, hsame, hcopied]
                exact ⟨rfl, rfl⟩
              · rw [List.foldl_append, hsame, hcopied, Bool.or_true]

/-- The exports change the semaphore only. -/
theorem exportCalls_use (slot : CaptureSlot) (use : SlotUse) (driver : DriverAnswers) :
    Lawful SlotUse.after ReuseAllowed use (exportCalls slot driver) ∧
      (exportCalls slot driver).foldl SlotUse.after use =
        { use with signaled := use.signaled && driver.semaphoreFd.isNone } := by
  have hsemaphore : use.after (.getSemaphoreFd slot.image driver.semaphoreFd.isSome) =
      { use with signaled := use.signaled && driver.semaphoreFd.isNone } := by
    cases driver.semaphoreFd with
    | none => simp [SlotUse.after]
    | some fd => simp [SlotUse.after]
  unfold exportCalls
  split
  · exact ⟨lawful_cons.mpr ⟨trivial, lawful_cons.mpr ⟨trivial, lawful_nil _⟩⟩, hsemaphore⟩
  · exact ⟨lawful_cons.mpr ⟨trivial, lawful_nil _⟩, hsemaphore⟩

theorem presentCalls_use {slot : CaptureSlot} {use : SlotUse} (h : SlotTracks use slot)
    (driver : DriverAnswers) :
    Lawful SlotUse.after ReuseAllowed use (presentCalls slot driver) ∧
      SlotTracks ((presentCalls slot driver).foldl SlotUse.after use)
        (captureSlot slot driver).slot ∧
      (((presentCalls slot driver).foldl SlotUse.after use).signaled =
        if (captureSlot slot driver).submitted then driver.semaphoreFd.isNone
        else use.signaled) := by
  obtain ⟨hlawful, htracks, hsignaled⟩ := captureSlot_use h driver
  simp only [presentCalls]
  split
  · rename_i hnot
    rw [hnot, Bool.or_false] at hsignaled
    refine ⟨hlawful, htracks, ?_⟩
    rw [hnot, if_neg (by simp), hsignaled]
  · rename_i hsubmitted
    rw [Bool.not_eq_false] at hsubmitted
    obtain ⟨hexports, hexported⟩ := exportCalls_use (captureSlot slot driver).slot
      ((captureSlot slot driver).calls.foldl SlotUse.after use) driver
    refine ⟨lawful_append.mpr ⟨hlawful, hexports⟩, ?_, ?_⟩
    · rw [List.foldl_append, hexported]
      exact ⟨htracks.pending, htracks.released⟩
    · rw [List.foldl_append, hexported, hsubmitted, if_pos rfl, hsignaled, hsubmitted,
        Bool.or_true, Bool.true_and]

/-! ## Slots under the operations of the layer -/

theorem CaptureLayer.slotAt_put (layer : CaptureLayer) (d e : ℕ) (i k : Fin wpMaxSwapchains)
    (j : SlotIndex) (state : Option SwapchainState) :
    (layer.put d i state).slotAt e k j =
      if e = d ∧ k = i then state.bind fun state ↦ state.slots j else layer.slotAt e k j := by
  rw [slotAt, stateAt_put]
  split
  · rfl
  · rfl

theorem slotAt_eq {layer : CaptureLayer} {d : ℕ} {i : Fin wpMaxSwapchains}
    {state : SwapchainState} (h : layer.stateAt d i = some state) (j : SlotIndex) :
    layer.slotAt d i j = state.slots j := by
  rw [CaptureLayer.slotAt, h, Option.bind_some]

/-- The slot at a place after one slot of a swapchain was replaced. -/
theorem slotAt_put_update {layer : CaptureLayer} {d : ℕ} {i : Fin wpMaxSwapchains}
    {state state' : SwapchainState} (h : layer.stateAt d i = some state) {j : SlotIndex}
    {slot : Option CaptureSlot} (hslots : state'.slots = Function.update state.slots j slot)
    (e : ℕ) (k : Fin wpMaxSwapchains) (j' : SlotIndex) :
    (layer.put d i (some state')).slotAt e k j' =
      if e = d ∧ k = i ∧ j' = j then slot else layer.slotAt e k j' := by
  rw [CaptureLayer.slotAt_put]
  by_cases hplace : e = d ∧ k = i
  · obtain ⟨rfl, rfl⟩ := hplace
    rw [if_pos ⟨rfl, rfl⟩, Option.bind_some, hslots, slotAt_eq h]
    by_cases hj : j' = j
    · subst hj
      simp
    · simp [hj]
  · rw [if_neg hplace, if_neg fun hall ↦ hplace ⟨hall.1, hall.2.1⟩]

theorem slotAt_register (layer : CaptureLayer) (d : ℕ) (swapchain : UInt64)
    (info : SwapchainInfo) (e : ℕ) (k : Fin wpMaxSwapchains) (j : SlotIndex) :
    (wpRegisterSwapchain layer d swapchain info).slotAt e k j = layer.slotAt e k j := by
  rcases wpRegisterSwapchain_cases layer d swapchain info with heq | ⟨i, c, hi, _, heq⟩
  · rw [heq]
  · rw [heq]
    have hnew := layer.slotAt_put d e i k j (some (newSwapchain swapchain info c))
    have hnone : layer.stateAt d i = none := Table.eq_none_of_free hi
    refine hnew.trans ?_
    split
    · rename_i hplace
      obtain ⟨rfl, rfl⟩ := hplace
      rw [CaptureLayer.slotAt, hnone]
      rfl
    · rfl

theorem slotAt_teardown (layer : CaptureLayer) (d : ℕ) (swapchain : UInt64)
    (fenceWait : SlotIndex → Bool) {e : ℕ} {k : Fin wpMaxSwapchains} {j : SlotIndex}
    {slot : CaptureSlot}
    (h : (wpTeardownSwapchain layer d swapchain fenceWait).slotAt e k j = some slot) :
    layer.slotAt e k j = some slot := by
  rcases wpTeardownSwapchain_cases layer d swapchain fenceWait with heq | ⟨i, state, _, _, heq⟩
  · rwa [heq] at h
  · rw [heq] at h
    have hput := (layer.slotAt_put d e i k j none).symm.trans h
    split at hput
    · exact absurd hput (by simp)
    · exact hput

/-- The mark of a sent buffer leaves the use of the slots alone. -/
theorem slotAt_markBufSent (layer : CaptureLayer) (d : ℕ) (notice : Notice) (e : ℕ)
    (k : Fin wpMaxSwapchains) (j : SlotIndex) :
    (markBufSent layer d notice).slotAt e k j = layer.slotAt e k j ∨
      ∃ slot, layer.slotAt e k j = some slot ∧
        (markBufSent layer d notice).slotAt e k j = some { slot with bufSent := true } := by
  unfold markBufSent
  split
  · exact .inl rfl
  · split
    · exact .inl rfl
    · rename_i i state hfind
      have hstate := (findSwapchain_eq_some hfind).1
      split
      · exact .inl rfl
      · rename_i slot hslot
        rw [slotAt_put_update hstate rfl]
        split
        · rename_i hplace
          obtain ⟨rfl, rfl, rfl⟩ := hplace
          exact .inr ⟨slot, by rw [slotAt_eq hstate, hslot], rfl⟩
        · exact .inl rfl

/-- What a present does to its slot, to the others and to the calls. -/
structure Presents (layer layer' : CaptureLayer) (d : ℕ) (i : Fin wpMaxSwapchains)
    (j : SlotIndex) (slot : CaptureSlot) (driver : DriverAnswers) : Prop where
  old : layer.slotAt d i j = some slot ∨
    layer.slotAt d i j = none ∧ SlotTracks .fresh slot
  new : ∀ e k j', layer'.slotAt e k j' =
    if e = d ∧ k = i ∧ j' = j then some (captureSlot slot driver).slot else layer.slotAt e k j'
  calls : layer'.calls = layer.calls ++ presentCalls slot driver

theorem presentSlot_presents {layer : CaptureLayer} {d : ℕ} {i : Fin wpMaxSwapchains}
    {state state' : SwapchainState} {j : SlotIndex} {slot : CaptureSlot} {driver : DriverAnswers}
    (hstate : layer.stateAt d i = some state) (hslots : state'.slots = state.slots)
    (hold : state.slots j = some slot ∨ state.slots j = none ∧ SlotTracks .fresh slot) :
    Presents layer (presentSlot layer d i state' j slot driver).1 d i j slot driver := by
  have hnew : ∀ e k j', (layer.put d i (some { state' with
      slots := Function.update state'.slots j (some (captureSlot slot driver).slot) })).slotAt
        e k j' = if e = d ∧ k = i ∧ j' = j then some (captureSlot slot driver).slot
          else layer.slotAt e k j' :=
    slotAt_put_update hstate (congrArg (fun slots ↦ Function.update slots j _) hslots)
  rw [← slotAt_eq hstate] at hold
  simp only [presentSlot]
  split
  · rename_i hnot
    exact ⟨hold, hnew, by simp only [presentCalls, hnot, if_true]; rfl⟩
  · rename_i hsubmitted
    exact ⟨hold, hnew, by simp only [presentCalls, hsubmitted]; rfl⟩

theorem createCaptureSlot_fresh {state : SwapchainState} {driver : DriverAnswers}
    {slot : CaptureSlot} (h : createCaptureSlot state driver = some slot) :
    SlotTracks .fresh slot := by
  unfold createCaptureSlot at h
  split at h
  · exact absurd h (by simp)
  · obtain ⟨_, _, rfl⟩ := Option.map_eq_some_iff.mp h
    exact ⟨rfl, rfl⟩

/-- A present works on its slot, or makes no call. -/
theorem wpCaptureAndNotify_presents (layer : CaptureLayer) (d : ℕ) (swapchain : UInt64)
    (imageIndex : UInt32) (driver : DriverAnswers) :
    match presentedSlot layer d swapchain imageIndex driver with
    | some (i, j, slot) => Presents layer
        (wpCaptureAndNotify layer d swapchain imageIndex driver).1 d i j slot driver
    | none =>
        (wpCaptureAndNotify layer d swapchain imageIndex driver).1.calls = layer.calls ∧
          ∀ e k j, (wpCaptureAndNotify layer d swapchain imageIndex driver).1.slotAt e k j =
            layer.slotAt e k j := by
  cases hqueue : driver.queueFamilyKnown with
  | false =>
      simp only [presentedSlot, wpCaptureAndNotify, hqueue, if_true, implies_true, and_self]
  | true =>
      cases hfind : findSwapchain (layer.devices d) swapchain with
      | none =>
          simp only [presentedSlot, wpCaptureAndNotify, hqueue, hfind, Bool.true_eq_false,
            if_false, implies_true, and_self]
      | some found =>
          obtain ⟨i, state⟩ := found
          have hstate := (findSwapchain_eq_some hfind).1
          simp only [presentedSlot, wpCaptureAndNotify, hqueue, hfind, Bool.true_eq_false, if_false]
          by_cases himage : imageIndex ≥ state.imageCount
          · simp only [himage, if_true, implies_true, and_self]
          · simp only [himage, if_false]
            cases hslot : (state.slots state.nextSlot).or (createCaptureSlot state driver) with
            | none =>
                refine ⟨rfl, ?_⟩
                intro e k j
                rw [CaptureLayer.slotAt_put]
                split
                · rename_i hplace
                  obtain ⟨rfl, rfl⟩ := hplace
                  exact (slotAt_eq hstate j).symm
                · rfl
            | some slot =>
                refine presentSlot_presents hstate rfl ?_
                cases hold : state.slots state.nextSlot with
                | some slot' =>
                    rw [hold, Option.some_or] at hslot
                    exact .inl hslot
                | none =>
                    rw [hold, Option.none_or] at hslot
                    exact .inr ⟨rfl, createCaptureSlot_fresh hslot⟩

theorem markBufSent_calls (layer : CaptureLayer) (d : ℕ) (notice : Notice) :
    (markBufSent layer d notice).calls = layer.calls := by
  rcases markBufSent_cases layer d notice with heq | ⟨i, state, state', _, _, _, heq⟩
  · rw [heq]
  · rw [heq]
    rfl

/-- The histories record the calls that the layer makes. -/
theorem slotStep_calls {s s' : SlotRun} {l : SlotLabel} (hstep : slotStep s l = some s') :
    s'.layer.calls = s.layer.calls ++ stepCalls s l := by
  cases l with
  | register d swapchain info =>
      obtain rfl := Option.some.inj hstep
      rw [stepCalls, List.append_nil]
      rcases wpRegisterSwapchain_cases s.layer d swapchain info with heq | ⟨i, c, _, _, heq⟩
      · rw [heq]
      · rw [heq]
        rfl
  | present d swapchain imageIndex driver sendOk =>
      have hpresents := wpCaptureAndNotify_presents s.layer d swapchain imageIndex driver
      have hpresented : (wpCaptureAndNotify s.layer d swapchain imageIndex driver).1.calls =
          s.layer.calls ++ stepCalls s (.present d swapchain imageIndex driver sendOk) := by
        rw [stepCalls]
        cases hslot : presentedSlot s.layer d swapchain imageIndex driver with
        | none =>
            rw [hslot] at hpresents
            exact hpresents.1.trans (List.append_nil _).symm
        | some presented =>
            rw [hslot] at hpresents
            exact hpresents.calls
      obtain rfl := Option.some.inj hstep
      simp only
      split
      · split
        · rw [markBufSent_calls, hpresented]
        · exact hpresented
      · exact hpresented
  | teardown d swapchain fenceWait =>
      obtain rfl := Option.some.inj hstep
      simp only [wpTeardownSwapchain, stepCalls]
      cases findSwapchain (s.layer.devices d) swapchain with
      | none => exact (List.append_nil _).symm
      | some found => rfl

/-! ## Runs -/

/-- The flags of every slot agree with its history. -/
def HistoriesTracked (s : SlotRun) : Prop :=
  ∀ d i j slot, s.layer.slotAt d i j = some slot → SlotTracks (slotUse (s.history d i j)) slot

/-- The slot is used the same way. -/
def SameUse (slot slot' : CaptureSlot) : Prop :=
  slot'.fencePending = slot.fencePending ∧ slot'.ownership = slot.ownership

theorem SlotTracks.sameUse {use : SlotUse} {slot slot' : CaptureSlot} (h : SlotTracks use slot)
    (hsame : SameUse slot slot') : SlotTracks use slot' := by
  obtain ⟨hpending, hownership⟩ := hsame
  refine ⟨hpending.trans h.pending, ?_⟩
  rw [hownership]
  exact h.released

/-- The slots after a present, up to the mark of a sent buffer. -/
theorem slotAt_presented {s s' : SlotRun} {d : ℕ} {swapchain : UInt64} {imageIndex : UInt32}
    {driver : DriverAnswers} {sendOk : Bool}
    (hstep : slotStep s (.present d swapchain imageIndex driver sendOk) = some s')
    {e : ℕ} {k : Fin wpMaxSwapchains} {j : SlotIndex} {slot' : CaptureSlot}
    (hslot' : s'.layer.slotAt e k j = some slot') :
    ∃ slot, SameUse slot slot' ∧
      (wpCaptureAndNotify s.layer d swapchain imageIndex driver).1.slotAt e k j = some slot := by
  obtain rfl := Option.some.inj hstep
  simp only at hslot'
  split at hslot'
  · rename_i notice _
    split at hslot'
    · rcases slotAt_markBufSent (wpCaptureAndNotify s.layer d swapchain imageIndex driver).1 d
        notice e k j with hsame | ⟨slot, hslot, hmarked⟩
      · exact ⟨slot', ⟨rfl, rfl⟩, hsame.symm.trans hslot'⟩
      · obtain rfl := Option.some.inj (hmarked.symm.trans hslot')
        exact ⟨slot, ⟨rfl, rfl⟩, hslot⟩
    · exact ⟨slot', ⟨rfl, rfl⟩, hslot'⟩
  · exact ⟨slot', ⟨rfl, rfl⟩, hslot'⟩

/-- A slot before a step, and the calls that the step made for it. -/
theorem slotStep_slot {s s' : SlotRun} {l : SlotLabel} (hstep : slotStep s l = some s')
    {e : ℕ} {k : Fin wpMaxSwapchains} {j : SlotIndex} {slot' : CaptureSlot}
    (hslot' : s'.layer.slotAt e k j = some slot') :
    (∃ slot, s.layer.slotAt e k j = some slot ∧ SameUse slot slot' ∧
      s'.history e k j = s.history e k j) ∨
    ∃ d swapchain imageIndex driver sendOk slot before,
      l = .present d swapchain imageIndex driver sendOk ∧
        (s.layer.slotAt e k j = some slot ∧ before = s.history e k j ∨
          SlotTracks .fresh slot ∧ before = []) ∧
        SameUse (captureSlot slot driver).slot slot' ∧
        s'.history e k j = before ++ presentCalls slot driver := by
  cases l with
  | register d swapchain info =>
      obtain rfl := Option.some.inj hstep
      rw [slotAt_register] at hslot'
      exact .inl ⟨slot', hslot', ⟨rfl, rfl⟩, rfl⟩
  | teardown d swapchain fenceWait =>
      obtain rfl := Option.some.inj hstep
      exact .inl ⟨slot', slotAt_teardown s.layer d swapchain fenceWait hslot', ⟨rfl, rfl⟩, rfl⟩
  | present d swapchain imageIndex driver sendOk =>
      obtain ⟨slot₁, hsame, hslot₁⟩ := slotAt_presented hstep hslot'
      have hpresents := wpCaptureAndNotify_presents s.layer d swapchain imageIndex driver
      obtain rfl := Option.some.inj hstep
      cases hpresented : presentedSlot s.layer d swapchain imageIndex driver with
      | none =>
          simp only [hpresented] at hpresents ⊢
          exact .inl ⟨slot₁, (hpresents.2 e k j).symm.trans hslot₁, hsame, trivial⟩
      | some presented =>
          obtain ⟨i, j', slot⟩ := presented
          simp only [hpresented] at hpresents ⊢
          rw [hpresents.new] at hslot₁
          by_cases hplace : e = d ∧ k = i ∧ j = j'
          · obtain ⟨rfl, rfl, rfl⟩ := hplace
            rw [if_pos ⟨rfl, rfl, rfl⟩] at hslot₁
            obtain rfl := Option.some.inj hslot₁
            refine .inr ⟨e, swapchain, imageIndex, driver, sendOk, slot,
              if (s.layer.slotAt e k j).isSome then s.history e k j else [], rfl, ?_, hsame, ?_⟩
            · rcases hpresents.old with hold | ⟨hnone, hfresh⟩
              · exact .inl ⟨hold, by simp [hold]⟩
              · exact .inr ⟨hfresh, by simp [hnone]⟩
            · simp only [recordPresent, and_self, if_true]
          · rw [if_neg hplace] at hslot₁
            refine .inl ⟨slot₁, hslot₁, hsame, ?_⟩
            simp only [recordPresent, if_neg hplace]

/-- A history that a step ends is that of a slot it destroys. -/
theorem slotStep_destroyed {s s' : SlotRun} {l : SlotLabel} (hstep : slotStep s l = some s')
    {history : List DriverCall} (h : history ∈ s'.destroyed) :
    history ∈ s.destroyed ∨
      ∃ d swapchain fenceWait i state j slot, l = .teardown d swapchain fenceWait ∧
        findSwapchain (s.layer.devices d) swapchain = some (i, state) ∧
        state.slots j = some slot ∧
        history = s.history d i j ++ destroyCaptureSlot slot (fenceWait j) := by
  cases l with
  | register d swapchain info =>
      obtain rfl := Option.some.inj hstep
      exact .inl h
  | present d swapchain imageIndex driver sendOk =>
      obtain rfl := Option.some.inj hstep
      exact .inl h
  | teardown d swapchain fenceWait =>
      obtain rfl := Option.some.inj hstep
      rcases List.mem_append.mp h with h | h
      · exact .inl h
      · unfold endedHistories at h
        split at h
        · exact absurd h List.not_mem_nil
        · rename_i i state hfind
          obtain ⟨j, _, hj⟩ := List.mem_filterMap.mp h
          obtain ⟨slot, hslot, rfl⟩ := Option.map_eq_some_iff.mp hj
          exact .inr ⟨d, swapchain, fenceWait, i, state, j, slot, rfl, hfind, hslot, rfl⟩

/-- Flags and histories are in step before a present that works on a slot. -/
theorem tracks_before {s : SlotRun} (h : HistoriesTracked s) {e : ℕ} {k : Fin wpMaxSwapchains}
    {j : SlotIndex} {slot : CaptureSlot} {before : List DriverCall}
    (hbefore : s.layer.slotAt e k j = some slot ∧ before = s.history e k j ∨
      SlotTracks .fresh slot ∧ before = []) : SlotTracks (slotUse before) slot := by
  rcases hbefore with ⟨hslot, rfl⟩ | ⟨hfresh, rfl⟩
  · exact h e k j slot hslot
  · exact hfresh

theorem HistoriesTracked.step {s s' : SlotRun} {l : SlotLabel} (h : HistoriesTracked s)
    (hstep : slotStep s l = some s') : HistoriesTracked s' := by
  intro e k j slot' hslot'
  rcases slotStep_slot hstep hslot' with ⟨slot, hslot, hsame, hhistory⟩ |
    ⟨d, swapchain, imageIndex, driver, sendOk, slot, before, rfl, hbefore, hsame, hhistory⟩
  · rw [hhistory]
    exact (h e k j slot hslot).sameUse hsame
  · rw [hhistory, slotUse_append]
    exact (presentCalls_use (tracks_before h hbefore) driver).2.1.sameUse hsame

theorem reuse_step {s s' : SlotRun} {l : SlotLabel} (htracked : HistoriesTracked s)
    (h : SlotReuseSafe s) (hstep : slotStep s l = some s') : SlotReuseSafe s' := by
  constructor
  · intro e k j hslot
    obtain ⟨slot', hslot'⟩ := Option.isSome_iff_exists.mp hslot
    rcases slotStep_slot hstep hslot' with ⟨slot, hold, _, hhistory⟩ |
      ⟨d, swapchain, imageIndex, driver, sendOk, slot, before, rfl, hbefore, _, hhistory⟩
    · rw [hhistory]
      exact h.1 e k j (by rw [hold, Option.isSome_some])
    · rw [hhistory]
      refine lawful_append.mpr ⟨?_, (presentCalls_use (tracks_before htracked hbefore) driver).1⟩
      rcases hbefore with ⟨hold, rfl⟩ | ⟨_, rfl⟩
      · exact h.1 e k j (by rw [hold, Option.isSome_some])
      · exact lawful_nil _
  · intro history hhistory
    rcases slotStep_destroyed hstep hhistory with hold |
      ⟨d, swapchain, fenceWait, i, state, j, slot, rfl, hfind, hslot, rfl⟩
    · exact h.2 history hold
    · have hstate := (findSwapchain_eq_some hfind).1
      refine lawful_append.mpr ⟨h.1 d i j (by rw [slotAt_eq hstate, hslot]; rfl), ?_⟩
      unfold destroyCaptureSlot
      split
      · exact lawful_cons.mpr ⟨trivial, lawful_cons.mpr ⟨trivial, lawful_nil _⟩⟩
      · exact lawful_cons.mpr ⟨trivial, lawful_nil _⟩

theorem slotAt_initial (d : ℕ) (i : Fin wpMaxSwapchains) (j : SlotIndex) :
    SlotRun.initial.layer.slotAt d i j = none := rfl

theorem historiesTracked_initial : HistoriesTracked .initial := by
  intro d i j slot hslot
  exact absurd ((slotAt_initial d i j).symm.trans hslot) (by simp)

theorem historiesLawful_initial (allowed : SlotUse → DriverCall → Prop) :
    HistoriesLawful allowed .initial := by
  constructor
  · intro d i j hslot
    exact absurd hslot (by simp [slotAt_initial])
  · intro history hhistory
    exact absurd hhistory List.not_mem_nil

/-- Whatever the driver answers, slots are reused only when their last copy is
over, and acquired back exactly after a submission. -/
theorem slot_reuse_always (ls : List SlotLabel) :
    Always slotStep SlotReuseSafe .initial ls := by
  have hsound : Always slotStep (fun s ↦ HistoriesTracked s ∧ SlotReuseSafe s) .initial ls := by
    apply always_of_step ?_ ⟨historiesTracked_initial, historiesLawful_initial _⟩
    rintro s l s' ⟨htracked, hsafe⟩ hstep
    exact ⟨htracked.step hstep, reuse_step htracked hsafe hstep⟩
  exact hsound.mono fun _ h ↦ h.2

end Wallpiper.Capture
