import Wallpiper.Capture.SlotHistory

/-!
# Semaphores and the destruction of slots

A submission signals the slot's semaphore and the export that follows takes
the signal back, unless the export fails.  A slot with a copy in flight is
waited for before it is destroyed, but destroyed also if the wait fails.
-/

namespace Wallpiper.Capture

open Foundations

def SignalAllowed (use : SlotUse) : DriverCall → Prop
  | .queueSubmit _ true => use.signaled = false
  | _ => True

def DestroyAllowed (use : SlotUse) : DriverCall → Prop
  | .destroy _ => use.inFlight = false
  | _ => True

instance (use : SlotUse) (call : DriverCall) : Decidable (SignalAllowed use call) := by
  unfold SignalAllowed
  split <;> infer_instance

instance (use : SlotUse) (call : DriverCall) : Decidable (DestroyAllowed use call) := by
  unfold DestroyAllowed
  split <;> infer_instance

/-- No submission signals a semaphore that is still signaled. -/
def SemaphoreSafe : SlotRun → Prop := HistoriesLawful SignalAllowed

/-- No slot is destroyed with a copy in flight. -/
def DestructionSafe : SlotRun → Prop := HistoriesLawful DestroyAllowed

/-- The semaphore of a submitted copy is exported. -/
def ExportSucceeds (_ : SlotRun) : SlotLabel → Prop
  | .present _ _ _ driver _ => driver.queueSubmit = true → driver.semaphoreFd.isSome = true
  | _ => True

/-- The destruction of a slot with a pending fence sees the fence signaled. -/
def WaitSucceeds (s : SlotRun) : SlotLabel → Prop
  | .teardown d swapchain fenceWait =>
      ∀ i state j slot, findSwapchain (s.layer.devices d) swapchain = some (i, state) →
        state.slots j = some slot → slot.fencePending = true → fenceWait j = true
  | _ => True

instance (s : SlotRun) : ∀ l, Decidable (ExportSucceeds s l)
  | .register .. => inferInstanceAs (Decidable True)
  | .present _ _ _ driver _ =>
      inferInstanceAs (Decidable (driver.queueSubmit = true → driver.semaphoreFd.isSome = true))
  | .teardown .. => inferInstanceAs (Decidable True)

/-! ## The calls before a submission -/

/-- A call that neither signals nor unsignals a semaphore nor destroys. -/
def DriverCall.Prepares : DriverCall → Prop
  | .queueSubmit _ true => False
  | .getSemaphoreFd .. => False
  | .destroy _ => False
  | _ => True

theorem clearFence_prepares (slot : CaptureSlot) (driver : DriverAnswers) :
    ∀ call ∈ (clearFence slot driver).2, call.Prepares := by
  have hwait : ∀ call ∈ ([.getFenceStatus slot.image driver.fenceStatus,
      .waitForFences slot.image driver.fenceWait] : List DriverCall), call.Prepares := by
    simp [DriverCall.Prepares]
  unfold clearFence
  split
  · simp
  · cases hstatus : driver.fenceStatus with
    | success => simp [DriverCall.Prepares]
    | notReady =>
        rw [hstatus] at hwait
        simp only
        split
        · exact hwait
        · exact hwait
    | error => simp [DriverCall.Prepares]

theorem recordAndSubmitCopy_prepares (slot : CaptureSlot) (driver : DriverAnswers) :
    ∃ prepared, (∀ call ∈ prepared, DriverCall.Prepares call) ∧
      (recordAndSubmitCopy slot driver).2 = prepared ++
        if (recordAndSubmitCopy slot driver).1 then [.queueSubmit slot.image true] else [] := by
  unfold recordAndSubmitCopy
  cases driver.beginCommandBuffer with
  | false => exact ⟨[.beginCommandBuffer slot.image false], by simp [DriverCall.Prepares], rfl⟩
  | true =>
      cases driver.endCommandBuffer with
      | false =>
          exact ⟨[.beginCommandBuffer slot.image true,
            .copyBarriers slot.image (slot.ownership = .releasedToForeign),
            .endCommandBuffer slot.image false], by simp [DriverCall.Prepares], rfl⟩
      | true =>
          cases driver.queueSubmit with
          | false =>
              exact ⟨[.beginCommandBuffer slot.image true,
                .copyBarriers slot.image (slot.ownership = .releasedToForeign),
                .endCommandBuffer slot.image true, .queueSubmit slot.image false],
                by simp [DriverCall.Prepares], rfl⟩
          | true =>
              exact ⟨[.beginCommandBuffer slot.image true,
                .copyBarriers slot.image (slot.ownership = .releasedToForeign),
                .endCommandBuffer slot.image true], by simp [DriverCall.Prepares], rfl⟩

/-- The calls on a slot prepare, and end with a submission if there was one. -/
theorem captureSlot_prepares (slot : CaptureSlot) (driver : DriverAnswers) :
    ∃ prepared image, (∀ call ∈ prepared, DriverCall.Prepares call) ∧
      (captureSlot slot driver).calls = prepared ++
        if (captureSlot slot driver).submitted then [.queueSubmit image true] else [] := by
  have hwaits := clearFence_prepares slot driver
  unfold captureSlot
  split
  · rename_i calls hclear
    rw [hclear] at hwaits
    exact ⟨calls, slot.image, hwaits, (List.append_nil calls).symm⟩
  · rename_i slot' calls hclear
    rw [hclear] at hwaits
    split
    · refine ⟨_, slot'.image, ?_, (List.append_nil _).symm⟩
      simp only [List.forall_mem_append]
      exact ⟨hwaits, by simp [DriverCall.Prepares]⟩
    · split
      · refine ⟨_, slot'.image, ?_, (List.append_nil _).symm⟩
        simp only [List.forall_mem_append]
        exact ⟨hwaits, by simp [DriverCall.Prepares]⟩
      · obtain ⟨prepared, hprepared, hcalls⟩ := recordAndSubmitCopy_prepares slot' driver
        refine ⟨calls ++ [.resetFences slot'.image true, .resetCommandBuffer slot'.image true] ++
          prepared, slot'.image, ?_, ?_⟩
        · simp only [List.forall_mem_append]
          exact ⟨⟨hwaits, by simp [DriverCall.Prepares]⟩, hprepared⟩
        · simp only
          split
          · rename_i hfailed
            rw [hcalls, hfailed]
            simp
          · rename_i hsubmitted
            rw [Bool.not_eq_false] at hsubmitted
            rw [hcalls, hsubmitted]
            simp

theorem DriverCall.Prepares.signaled {call : DriverCall} (h : call.Prepares) (use : SlotUse) :
    (use.after call).signaled = use.signaled := by
  unfold SlotUse.after
  split
  · rfl
  · rfl
  · exact h.elim
  · exact h.elim
  · rfl

theorem signaled_of_prepares {calls : List DriverCall} (h : ∀ call ∈ calls, call.Prepares)
    (use : SlotUse) : (calls.foldl SlotUse.after use).signaled = use.signaled := by
  induction calls generalizing use with
  | nil => rfl
  | cons call calls ih =>
      obtain ⟨hcall, hcalls⟩ := List.forall_mem_cons.mp h
      rw [List.foldl_cons, ih hcalls, hcall.signaled]

theorem DriverCall.Prepares.signalAllowed {call : DriverCall} (h : call.Prepares)
    (use : SlotUse) : SignalAllowed use call := by
  unfold SignalAllowed
  split
  · exact h.elim
  · trivial

theorem DriverCall.Prepares.destroyAllowed {call : DriverCall} (h : call.Prepares)
    (use : SlotUse) : DestroyAllowed use call := by
  unfold DestroyAllowed
  split
  · exact h.elim
  · trivial

/-! ## Presents -/

theorem exportCalls_signalAllowed (slot : CaptureSlot) (driver : DriverAnswers) :
    ∀ call ∈ exportCalls slot driver, ∀ use, SignalAllowed use call ∧ DestroyAllowed use call := by
  unfold exportCalls
  split
  · simp [SignalAllowed, DestroyAllowed]
  · simp [SignalAllowed, DestroyAllowed]

/-- A present signals at most once, before it exports. -/
theorem presentCalls_signalAllowed {use : SlotUse} (hunsignaled : use.signaled = false)
    (slot : CaptureSlot) (driver : DriverAnswers) :
    Lawful SlotUse.after SignalAllowed use (presentCalls slot driver) := by
  obtain ⟨prepared, image, hprepared, hcalls⟩ := captureSlot_prepares slot driver
  have hsubmit : Lawful SlotUse.after SignalAllowed use (captureSlot slot driver).calls := by
    rw [hcalls]
    refine lawful_append.mpr
      ⟨lawful_of_forall fun call hcall use ↦ (hprepared call hcall).signalAllowed use, ?_⟩
    split
    · refine lawful_cons.mpr ⟨?_, lawful_nil _⟩
      exact (signaled_of_prepares hprepared use).trans hunsignaled
    · exact lawful_nil _
  simp only [presentCalls]
  split
  · exact hsubmit
  · exact lawful_append.mpr ⟨hsubmit, lawful_of_forall fun call hcall use ↦
      (exportCalls_signalAllowed _ driver call hcall use).1⟩

theorem presentCalls_destroyAllowed (slot : CaptureSlot) (driver : DriverAnswers)
    (use : SlotUse) : Lawful SlotUse.after DestroyAllowed use (presentCalls slot driver) := by
  obtain ⟨prepared, image, hprepared, hcalls⟩ := captureSlot_prepares slot driver
  have hsubmit : Lawful SlotUse.after DestroyAllowed use (captureSlot slot driver).calls := by
    rw [hcalls]
    refine lawful_append.mpr
      ⟨lawful_of_forall fun call hcall use ↦ (hprepared call hcall).destroyAllowed use, ?_⟩
    split
    · exact lawful_cons.mpr ⟨trivial, lawful_nil _⟩
    · exact lawful_nil _
  simp only [presentCalls]
  split
  · exact hsubmit
  · exact lawful_append.mpr ⟨hsubmit, lawful_of_forall fun call hcall use ↦
      (exportCalls_signalAllowed _ driver call hcall use).2⟩

/-- A pending fence must be seen signaled before the slot is destroyed. -/
theorem destroyCaptureSlot_allowed {slot : CaptureSlot} {use : SlotUse}
    (h : SlotTracks use slot) (fenceWait : Bool) :
    Lawful SlotUse.after DestroyAllowed use (destroyCaptureSlot slot fenceWait) ↔
      (slot.fencePending = true → fenceWait = true) := by
  unfold destroyCaptureSlot
  cases hpending : slot.fencePending with
  | false =>
      have hidle := h.pending.symm.trans hpending
      simp [lawful_cons, lawful_nil, DestroyAllowed, hidle]
  | true =>
      have hbusy := h.pending.symm.trans hpending
      cases fenceWait with
      | false => simp [lawful_cons, lawful_nil, DestroyAllowed, SlotUse.after, hbusy]
      | true => simp [lawful_cons, lawful_nil, DestroyAllowed, SlotUse.after]

theorem queueSubmit_of_submitted {slot : CaptureSlot} {driver : DriverAnswers}
    (h : (captureSlot slot driver).submitted = true) : driver.queueSubmit = true := by
  unfold captureSlot at h
  split at h
  · exact absurd h (by simp)
  · split at h
    · exact absurd h (by simp)
    · split at h
      · exact absurd h (by simp)
      · simp only at h
        split at h
        · exact absurd h (by simp)
        · rename_i hcopy
          rw [Bool.not_eq_false] at hcopy
          unfold recordAndSubmitCopy at hcopy
          simp only at hcopy
          split at hcopy
          · exact absurd hcopy (by simp)
          · split at hcopy
            · exact absurd hcopy (by simp)
            · exact hcopy

/-! ## Steps -/

/-- No semaphore of a live slot is left signaled. -/
def SemaphoresClear (s : SlotRun) : Prop :=
  ∀ d i j, (s.layer.slotAt d i j).isSome → (slotUse (s.history d i j)).signaled = false

theorem clear_before {s : SlotRun} (h : SemaphoresClear s) {e : ℕ} {k : Fin wpMaxSwapchains}
    {j : SlotIndex} {slot : CaptureSlot} {before : List DriverCall}
    (hbefore : s.layer.slotAt e k j = some slot ∧ before = s.history e k j ∨
      SlotTracks .fresh slot ∧ before = []) : (slotUse before).signaled = false := by
  rcases hbefore with ⟨hslot, rfl⟩ | ⟨_, rfl⟩
  · exact h e k j (by rw [hslot, Option.isSome_some])
  · rfl

theorem lawful_before {allowed : SlotUse → DriverCall → Prop} {s : SlotRun}
    (h : HistoriesLawful allowed s) {e : ℕ} {k : Fin wpMaxSwapchains}
    {j : SlotIndex} {slot : CaptureSlot} {before : List DriverCall}
    (hbefore : s.layer.slotAt e k j = some slot ∧ before = s.history e k j ∨
      SlotTracks .fresh slot ∧ before = []) : Lawful SlotUse.after allowed .fresh before := by
  rcases hbefore with ⟨hslot, rfl⟩ | ⟨_, rfl⟩
  · exact h.1 e k j (by rw [hslot, Option.isSome_some])
  · exact lawful_nil _

theorem SemaphoresClear.step {s s' : SlotRun} {l : SlotLabel} (htracked : HistoriesTracked s)
    (h : SemaphoresClear s) (hexport : ExportSucceeds s l) (hstep : slotStep s l = some s') :
    SemaphoresClear s' := by
  intro e k j hslot
  obtain ⟨slot', hslot'⟩ := Option.isSome_iff_exists.mp hslot
  rcases slotStep_slot hstep hslot' with ⟨slot, hold, _, hhistory⟩ |
    ⟨d, swapchain, imageIndex, driver, sendOk, slot, before, rfl, hbefore, _, hhistory⟩
  · rw [hhistory]
    exact h e k j (by rw [hold, Option.isSome_some])
  · rw [hhistory, slotUse_append,
      (presentCalls_use (tracks_before htracked hbefore) driver).2.2]
    split
    · rename_i hsubmitted
      have hsome := hexport (queueSubmit_of_submitted hsubmitted)
      rw [Option.isNone_eq_false_iff, hsome]
    · exact clear_before h hbefore

theorem semaphoreSafe_step {s s' : SlotRun} {l : SlotLabel} (hclear : SemaphoresClear s)
    (h : SemaphoreSafe s) (hstep : slotStep s l = some s') : SemaphoreSafe s' := by
  constructor
  · intro e k j hslot
    obtain ⟨slot', hslot'⟩ := Option.isSome_iff_exists.mp hslot
    rcases slotStep_slot hstep hslot' with ⟨slot, hold, _, hhistory⟩ |
      ⟨d, swapchain, imageIndex, driver, sendOk, slot, before, rfl, hbefore, _, hhistory⟩
    · rw [hhistory]
      exact h.1 e k j (by rw [hold, Option.isSome_some])
    · have hearlier := lawful_before h hbefore
      rw [hhistory]
      exact lawful_append.mpr
        ⟨hearlier, presentCalls_signalAllowed (clear_before hclear hbefore) slot driver⟩
  · intro history hhistory
    rcases slotStep_destroyed hstep hhistory with hold |
      ⟨d, swapchain, fenceWait, i, state, j, slot, rfl, hfind, hslot, rfl⟩
    · exact h.2 history hold
    · have hstate := (findSwapchain_eq_some hfind).1
      refine lawful_append.mpr ⟨h.1 d i j (by rw [slotAt_eq hstate, hslot]; rfl), ?_⟩
      unfold destroyCaptureSlot
      split
      · exact lawful_cons.mpr ⟨trivial, lawful_cons.mpr ⟨trivial, lawful_nil _⟩⟩
      · exact lawful_cons.mpr ⟨trivial, lawful_nil _⟩

/-- A step is safe exactly if it waits successfully for the slots that it
destroys. -/
theorem destructionSafe_step {s s' : SlotRun} {l : SlotLabel} (htracked : HistoriesTracked s)
    (h : DestructionSafe s) (hstep : slotStep s l = some s') :
    DestructionSafe s' ↔ WaitSucceeds s l := by
  constructor
  · intro h'
    cases l with
    | register d swapchain info => trivial
    | present d swapchain imageIndex driver sendOk => trivial
    | teardown d swapchain fenceWait =>
        intro i state j slot hfind hslot
        obtain rfl := Option.some.inj hstep
        have hstate := (findSwapchain_eq_some hfind).1
        have hended : s.history d i j ++ destroyCaptureSlot slot (fenceWait j) ∈
            s.destroyed ++ endedHistories s d swapchain fenceWait := by
          apply List.mem_append_right
          simp only [endedHistories, hfind]
          exact List.mem_filterMap.mpr ⟨j, List.mem_finRange j, by rw [hslot, Option.map_some]⟩
        have htracks := htracked d i j slot (by rw [slotAt_eq hstate, hslot])
        exact (destroyCaptureSlot_allowed htracks (fenceWait j)).mp
          (lawful_append.mp (h'.2 _ hended)).2
  · intro hwait
    constructor
    · intro e k j hslot
      obtain ⟨slot', hslot'⟩ := Option.isSome_iff_exists.mp hslot
      rcases slotStep_slot hstep hslot' with ⟨slot, hold, _, hhistory⟩ |
        ⟨d, swapchain, imageIndex, driver, sendOk, slot, before, rfl, hbefore, _, hhistory⟩
      · rw [hhistory]
        exact h.1 e k j (by rw [hold, Option.isSome_some])
      · have hearlier := lawful_before h hbefore
        rw [hhistory]
        exact lawful_append.mpr ⟨hearlier, presentCalls_destroyAllowed slot driver _⟩
    · intro history hhistory
      rcases slotStep_destroyed hstep hhistory with hold |
        ⟨d, swapchain, fenceWait, i, state, j, slot, rfl, hfind, hslot, rfl⟩
      · exact h.2 history hold
      · have hstate := (findSwapchain_eq_some hfind).1
        have hplace : s.layer.slotAt d i j = some slot := by rw [slotAt_eq hstate, hslot]
        exact lawful_append.mpr ⟨h.1 d i j (by rw [hplace, Option.isSome_some]),
          (destroyCaptureSlot_allowed (htracked d i j slot hplace) (fenceWait j)).mpr
            (hwait i state j slot hfind hslot)⟩

/-! ## Runs -/

theorem semaphoresClear_initial : SemaphoresClear .initial := by
  intro d i j hslot
  exact absurd hslot (by simp [slotAt_initial])

theorem historiesTracked_always (ls : List SlotLabel) :
    Always slotStep HistoriesTracked .initial ls := by
  apply always_of_step ?_ historiesTracked_initial
  intro s l s' h hstep
  exact h.step hstep

/-- Semaphores are safe if every submitted copy's semaphore is exported, and
slots are destroyed safely exactly if the waits for pending fences succeed. -/
theorem slot_objects_safe (ls : List SlotLabel) :
    (Guarded slotStep ExportSucceeds .initial ls → Always slotStep SemaphoreSafe .initial ls) ∧
      (Always slotStep DestructionSafe .initial ls ↔
        Guarded slotStep WaitSucceeds .initial ls) := by
  constructor
  · intro hguarded
    have hsound : Always slotStep
        (fun s ↦ HistoriesTracked s ∧ SemaphoresClear s ∧ SemaphoreSafe s) .initial ls := by
      apply always_of_guarded ?_ ⟨historiesTracked_initial, semaphoresClear_initial,
        historiesLawful_initial _⟩ hguarded
      rintro s l s' ⟨htracked, hclear, hsafe⟩ hexport hstep
      exact ⟨htracked.step hstep, hclear.step htracked hexport hstep,
        semaphoreSafe_step hclear hsafe hstep⟩
    exact hsound.mono fun _ h ↦ h.2.2
  · have hiff : Always slotStep (fun s ↦ HistoriesTracked s ∧ DestructionSafe s) .initial ls ↔
        Guarded slotStep WaitSucceeds .initial ls := by
      apply always_iff_guarded ?_ ⟨historiesTracked_initial, historiesLawful_initial _⟩
      rintro s l s' ⟨htracked, hsafe⟩ hstep
      constructor
      · exact fun h ↦ (destructionSafe_step htracked hsafe hstep).mp h.2
      · exact fun hwait ↦
          ⟨htracked.step hstep, (destructionSafe_step htracked hsafe hstep).mpr hwait⟩
    rw [← hiff]
    constructor
    · exact fun h ↦ (historiesTracked_always ls).and h
    · exact fun h ↦ h.mono fun _ hs ↦ hs.2

/-- Every driver call succeeds; image 7 is created for the slots. -/
def workingDriver : DriverAnswers :=
  { queueFamilyKnown := true, createSlot := some (7, 256, 0), fenceStatus := .success
    fenceWait := true, resetFences := true, resetCommandBuffer := true
    beginCommandBuffer := true, endCommandBuffer := true, queueSubmit := true
    semaphoreFd := some (some 3), memoryFd := some 4 }

def presentsWith (drivers : List DriverAnswers) : List SlotLabel :=
  .register 0 1 ⟨44, 640, 480, 1, [0], none⟩ :: drivers.map fun driver ↦
    .present 0 1 0 driver true

theorem slot_objects_safe_four_presents :
    Always slotStep SemaphoreSafe .initial
      (presentsWith (List.replicate 4 workingDriver) ++ [.teardown 0 1 fun _ ↦ true]) :=
  (slot_objects_safe _).1 (by decide +kernel)

/-- The semaphore of the first copy is not exported and the fourth copy, on
the same slot, signals it again; and a slot is destroyed after its wait timed
out. -/
theorem failed_export_or_wait :
    (¬ ∀ ls, Always slotStep SemaphoreSafe .initial ls) ∧
      ¬ ∀ ls, Always slotStep DestructionSafe .initial ls := by
  constructor
  · intro h
    have hrun : (exec slotStep .initial (presentsWith
        ({ workingDriver with semaphoreFd := none } :: List.replicate 3 workingDriver))).map
          (fun s ↦ ((s.layer.slotAt 0 ⟨0, by decide⟩ 0).isSome,
            decide (Lawful SlotUse.after SignalAllowed .fresh (s.history 0 ⟨0, by decide⟩ 0)))) =
              some (true, false) := by
      decide +kernel
    obtain ⟨s, hs, hresult⟩ := Option.map_eq_some_iff.mp hrun
    obtain ⟨hslot, hunlawful⟩ := Prod.mk.inj hresult
    exact absurd (((h _).exec hs).1 0 _ 0 hslot) (of_decide_eq_false hunlawful)
  · intro h
    have hrun : (exec slotStep .initial
        (presentsWith [workingDriver] ++ [.teardown 0 1 fun _ ↦ false])).map
          (fun s ↦ decide (∀ history ∈ s.destroyed,
            Lawful SlotUse.after DestroyAllowed .fresh history)) = some false := by
      decide +kernel
    obtain ⟨s, hs, hunlawful⟩ := Option.map_eq_some_iff.mp hrun
    exact absurd ((h _).exec hs).2 (of_decide_eq_false hunlawful)

end Wallpiper.Capture
