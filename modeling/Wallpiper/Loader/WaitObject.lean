import Wallpiper.Foundations.Histories
import Wallpiper.Foundations.Runs

/-!
# Emulated wait objects

A registered wait is a heap object and a thread that waits in slices, calls
back and frees the object when it is done.  The handle is the object's address
and unregistering writes to it, whatever the thread has done meanwhile.
-/

namespace Wallpiper.Loader

open Foundations

def infinite : UInt32 := 0xFFFFFFFF

def waitObject0 : UInt32 := 0

def wtExecuteOnlyOnce : UInt32 := 8

structure WaitObject where
  target : UInt64
  callback : UInt64
  context : UInt64
  timeoutMs : UInt32
  flags : UInt32
  cancelled : Bool
  deriving DecidableEq, Repr

/-- Where the wait thread is. -/
inductive WaitThread where
  | checking
  | slicing
  | waiting (slice : UInt32)
  | calling (timedOut : Bool)
  | inCallback (timedOut : Bool)
  | exiting
  | done
  deriving DecidableEq, Repr

inductive UnregisterCall where
  | notCalled
  | called
  | exchanged
  | returned
  deriving DecidableEq, Repr

inductive WaitEvent where
  /-- a field of the object is read or written -/
  | access
  | free
  | callback (callback context : UInt64) (timedOut : Bool)
  | unregistered
  deriving DecidableEq, Repr

structure WaitState where
  object : WaitObject
  thread : WaitThread
  elapsed : UInt32
  unregister : UnregisterCall
  events : List WaitEvent
  deriving DecidableEq, Repr

/-- A registration that succeeds starts the thread on a new object. -/
def fakeRegisterWaitForSingleObject (hasHandleOut : Bool)
    (hObject callback context : UInt64) (dwMilliseconds dwFlags : UInt32)
    (mallocOk threadOk : Bool) : Option WaitState :=
  if hasHandleOut = false ∨ callback = 0 then none
  else if mallocOk = false then none
  else if threadOk = false then none
  else
    some
      { object := ⟨hObject, callback, context, dwMilliseconds, dwFlags, false⟩
        thread := .checking, elapsed := 0, unregister := .notCalled, events := [] }

def waitSlice (object : WaitObject) (elapsed : UInt32) : UInt32 :=
  if object.timeoutMs ≠ infinite then
    let left := if object.timeoutMs > elapsed then object.timeoutMs - elapsed else 0
    if left < 200 then left else 200
  else 200

/-- What the thread does next once a slice is over. -/
def afterSlice (object : WaitObject) (elapsed result : UInt32) : WaitThread :=
  if result = waitObject0 then .calling false
  else if object.timeoutMs ≠ infinite ∧ elapsed ≥ object.timeoutMs then .calling true
  else .checking

inductive WaitLabel where
  | check
  | startSlice
  | wake (result : UInt32)
  | call
  | callbackReturns
  | exit
  /-- `UnregisterWait`, or `UnregisterWaitEx` with its completion event -/
  | unregister (completionEvent : Option UInt64)
  | exchange
  | unregisterReturns

def waitThreadStep (s : WaitState) : WaitLabel → Option WaitState
  | .check =>
      match s.thread with
      | .checking =>
          some { s with
            thread := if s.object.cancelled then .exiting else .slicing
            events := s.events ++ [.access] }
      | _ => none
  | .startSlice =>
      match s.thread with
      | .slicing =>
          some { s with
            thread := .waiting (waitSlice s.object s.elapsed)
            events := s.events ++ [.access] }
      | _ => none
  | .wake result =>
      match s.thread with
      | .waiting slice =>
          some { s with
            thread := afterSlice s.object (s.elapsed + slice) result
            elapsed := s.elapsed + slice
            events := s.events ++ [.access] }
      | _ => none
  | .call =>
      match s.thread with
      | .calling timedOut =>
          some { s with
            thread := .inCallback timedOut
            events := s.events ++
              [.access, .callback s.object.callback s.object.context timedOut] }
      | _ => none
  | .callbackReturns =>
      match s.thread with
      | .inCallback false => some { s with thread := .exiting }
      | .inCallback true =>
          if s.object.flags &&& wtExecuteOnlyOnce ≠ 0 then
            some { s with thread := .exiting, events := s.events ++ [.access] }
          else some { s with thread := .checking, elapsed := 0, events := s.events ++ [.access] }
      | _ => none
  | .exit =>
      match s.thread with
      | .exiting => some { s with thread := .done, events := s.events ++ [.free] }
      | _ => none
  | _ => none

/-- The call knows nothing of the thread; a completion event is ignored. -/
def waitStep (s : WaitState) : WaitLabel → Option WaitState
  | .unregister _ =>
      match s.unregister with
      | .notCalled => some { s with unregister := .called }
      | _ => none
  | .exchange =>
      match s.unregister with
      | .called =>
          some { s with
            object := { s.object with cancelled := true }
            unregister := .exchanged
            events := s.events ++ [.access] }
      | _ => none
  | .unregisterReturns =>
      match s.unregister with
      | .exchanged =>
          some { s with unregister := .returned, events := s.events ++ [.unregistered] }
      | _ => none
  | l => waitThreadStep s l

/-! ## Laws -/

structure WaitUse where
  freed : Bool
  unregistered : Bool
  deriving DecidableEq, Repr

def WaitUse.after (use : WaitUse) : WaitEvent → WaitUse
  | .free => { use with freed := true }
  | .unregistered => { use with unregistered := true }
  | _ => use

def waitUse (events : List WaitEvent) : WaitUse := events.foldl WaitUse.after ⟨false, false⟩

def AccessAllowed (use : WaitUse) (event : WaitEvent) : Prop :=
  event = .access → use.freed = false

def FreeAllowed (use : WaitUse) (event : WaitEvent) : Prop := event = .free → use.freed = false

def CallbackAllowed (use : WaitUse) : WaitEvent → Prop
  | .callback .. => use.unregistered = false
  | _ => True

/-- The object is not touched after it was freed. -/
def NoUseAfterFree (s : WaitState) : Prop :=
  Lawful WaitUse.after AccessAllowed ⟨false, false⟩ s.events

def FreedOnce (s : WaitState) : Prop :=
  Lawful WaitUse.after FreeAllowed ⟨false, false⟩ s.events

/-- No callback starts after the wait was unregistered. -/
def NoLateCallback (s : WaitState) : Prop :=
  Lawful WaitUse.after CallbackAllowed ⟨false, false⟩ s.events

instance (use : WaitUse) (event : WaitEvent) : Decidable (AccessAllowed use event) :=
  inferInstanceAs (Decidable (event = .access → use.freed = false))

instance (use : WaitUse) : ∀ event, Decidable (CallbackAllowed use event)
  | .callback .. => inferInstanceAs (Decidable (use.unregistered = false))
  | .access => inferInstanceAs (Decidable True)
  | .free => inferInstanceAs (Decidable True)
  | .unregistered => inferInstanceAs (Decidable True)

instance : DecidablePred NoUseAfterFree := fun s ↦
  inferInstanceAs (Decidable (Lawful WaitUse.after AccessAllowed ⟨false, false⟩ s.events))

instance : DecidablePred NoLateCallback := fun s ↦
  inferInstanceAs (Decidable (Lawful WaitUse.after CallbackAllowed ⟨false, false⟩ s.events))

/-- The flag is set before the thread has freed the object. -/
def SetsFlagInTime (s : WaitState) : WaitLabel → Prop
  | .exchange => s.thread ≠ .done
  | _ => True

/-- The thread is on its way to a callback. -/
def WaitThread.committed : WaitThread → Bool
  | .slicing => true
  | .waiting _ => true
  | .calling _ => true
  | _ => false

/-- The call does not return while the thread, past its check, may still call
back. -/
def ReturnsInTime (s : WaitState) : WaitLabel → Prop
  | .unregisterReturns => s.thread.committed = false
  | _ => True

instance (s : WaitState) : ∀ l, Decidable (ReturnsInTime s l)
  | .unregisterReturns => inferInstanceAs (Decidable (s.thread.committed = false))
  | .check => inferInstanceAs (Decidable True)
  | .startSlice => inferInstanceAs (Decidable True)
  | .wake _ => inferInstanceAs (Decidable True)
  | .call => inferInstanceAs (Decidable True)
  | .callbackReturns => inferInstanceAs (Decidable True)
  | .exit => inferInstanceAs (Decidable True)
  | .unregister _ => inferInstanceAs (Decidable True)
  | .exchange => inferInstanceAs (Decidable True)

/-! ## Steps -/

/-- The events tell whether the object is freed and the call has returned. -/
structure WaitSound (s : WaitState) : Prop where
  freed : (waitUse s.events).freed = decide (s.thread = .done)
  returned : (waitUse s.events).unregistered = decide (s.unregister = .returned)
  cancelled : s.unregister = .exchanged ∨ s.unregister = .returned → s.object.cancelled = true

theorem waitUse_append (events : List WaitEvent) (e : WaitEvent) :
    waitUse (events ++ [e]) = (waitUse events).after e :=
  List.foldl_append

/-- What a step of the wait thread does: it accesses the object, calls back or
frees. -/
theorem waitThreadStep_cases {s s' : WaitState} {l : WaitLabel}
    (h : waitThreadStep s l = some s') :
    s'.object = s.object ∧ s'.unregister = s.unregister ∧ s.thread ≠ .done ∧
      ((s'.thread ≠ .done ∧ (s'.events = s.events ++ [.access] ∨ s'.events = s.events) ∧
          (s'.thread.committed = true → s.thread.committed = true ∨ s.object.cancelled = false)) ∨
        (∃ timedOut, s.thread = .calling timedOut ∧ s'.thread = .inCallback timedOut ∧
          s'.events = s.events ++
            [.access, .callback s.object.callback s.object.context timedOut]) ∨
        (s'.thread = .done ∧ s'.events = s.events ++ [.free])) := by
  cases l with
  | check =>
      simp only [waitThreadStep] at h
      split at h
      · rename_i hthread
        obtain rfl := Option.some.inj h
        refine ⟨rfl, rfl, by simp [hthread], .inl ⟨?_, .inl rfl, ?_⟩⟩
        · simp only
          split
          · simp
          · simp
        · intro hcommitted
          simp only at hcommitted
          split at hcommitted
          · exact absurd hcommitted (by simp [WaitThread.committed])
          · rename_i hnot
            exact .inr (by simpa using hnot)
      · exact absurd h (by simp)
  | startSlice =>
      simp only [waitThreadStep] at h
      split at h
      · rename_i hthread
        obtain rfl := Option.some.inj h
        exact ⟨rfl, rfl, by simp [hthread],
          .inl ⟨by simp, .inl rfl, fun _ ↦ .inl (by rw [hthread, WaitThread.committed])⟩⟩
      · exact absurd h (by simp)
  | wake result =>
      simp only [waitThreadStep] at h
      split at h
      · rename_i slice hthread
        obtain rfl := Option.some.inj h
        refine ⟨rfl, rfl, by simp [hthread],
          .inl ⟨?_, .inl rfl, fun _ ↦ .inl (by rw [hthread, WaitThread.committed])⟩⟩
        unfold afterSlice
        split
        · simp
        · split
          · simp
          · simp
      · exact absurd h (by simp)
  | call =>
      simp only [waitThreadStep] at h
      split at h
      · rename_i timedOut hthread
        obtain rfl := Option.some.inj h
        exact ⟨rfl, rfl, by simp [hthread], .inr (.inl ⟨timedOut, hthread, rfl, rfl⟩)⟩
      · exact absurd h (by simp)
  | callbackReturns =>
      simp only [waitThreadStep] at h
      split at h
      · rename_i hthread
        obtain rfl := Option.some.inj h
        exact ⟨rfl, rfl, by simp [hthread],
          .inl ⟨by simp, .inr rfl, fun hc ↦ absurd hc (by simp [WaitThread.committed])⟩⟩
      · rename_i hthread
        split at h
        · obtain rfl := Option.some.inj h
          exact ⟨rfl, rfl, by simp [hthread],
            .inl ⟨by simp, .inl rfl, fun hc ↦ absurd hc (by simp [WaitThread.committed])⟩⟩
        · obtain rfl := Option.some.inj h
          exact ⟨rfl, rfl, by simp [hthread],
            .inl ⟨by simp, .inl rfl, fun hc ↦ absurd hc (by simp [WaitThread.committed])⟩⟩
      · exact absurd h (by simp)
  | exit =>
      simp only [waitThreadStep] at h
      split at h
      · rename_i hthread
        obtain rfl := Option.some.inj h
        exact ⟨rfl, rfl, by simp [hthread], .inr (.inr ⟨rfl, rfl⟩)⟩
      · exact absurd h (by simp)
  | unregister _ => exact absurd h (by simp [waitThreadStep])
  | exchange => exact absurd h (by simp [waitThreadStep])
  | unregisterReturns => exact absurd h (by simp [waitThreadStep])

theorem waitStep_cases {s s' : WaitState} {l : WaitLabel} (h : waitStep s l = some s') :
    waitThreadStep s l = some s' ∨
      (s.unregister = .notCalled ∧ s' = { s with unregister := .called }) ∨
      (l = .exchange ∧ s.unregister = .called ∧
        s' = { s with
          object := { s.object with cancelled := true }
          unregister := .exchanged
          events := s.events ++ [.access] }) ∨
      (l = .unregisterReturns ∧ s.unregister = .exchanged ∧
        s' = { s with unregister := .returned, events := s.events ++ [.unregistered] }) := by
  cases l with
  | unregister _ =>
      simp only [waitStep] at h
      split at h
      · rename_i hcall
        exact .inr (.inl ⟨hcall, (Option.some.inj h).symm⟩)
      · exact absurd h (by simp)
  | exchange =>
      simp only [waitStep] at h
      split at h
      · rename_i hcall
        exact .inr (.inr (.inl ⟨rfl, hcall, (Option.some.inj h).symm⟩))
      · exact absurd h (by simp)
  | unregisterReturns =>
      simp only [waitStep] at h
      split at h
      · rename_i hcall
        exact .inr (.inr (.inr ⟨rfl, hcall, (Option.some.inj h).symm⟩))
      · exact absurd h (by simp)
  | check => exact .inl h
  | startSlice => exact .inl h
  | wake result => exact .inl h
  | call => exact .inl h
  | callbackReturns => exact .inl h
  | exit => exact .inl h

theorem WaitSound.threadStep {s s' : WaitState} {l : WaitLabel} (h : WaitSound s)
    (hstep : waitThreadStep s l = some s') : WaitSound s' := by
  obtain ⟨hobject, hcall, hthread, hcases⟩ := waitThreadStep_cases hstep
  have hfreed : (waitUse s.events).freed = false := by
    rw [h.freed, decide_eq_false hthread]
  rcases hcases with ⟨hthread', hevents, _⟩ | ⟨timedOut, _, hthread', hevents⟩ |
    ⟨hthread', hevents⟩
  · have huse : waitUse s'.events = waitUse s.events := by
      rcases hevents with hevents | hevents
      · rw [hevents, waitUse_append]
        rfl
      · rw [hevents]
    refine ⟨?_, ?_, ?_⟩
    · rw [huse, hfreed, decide_eq_false hthread']
    · rw [huse, hcall, h.returned]
    · rw [hobject, hcall]
      exact h.cancelled
  · have huse : waitUse s'.events = waitUse s.events := by
      rw [hevents, waitUse, List.foldl_append]
      rfl
    refine ⟨?_, ?_, ?_⟩
    · rw [huse, hfreed, hthread']
      rfl
    · rw [huse, hcall, h.returned]
    · rw [hobject, hcall]
      exact h.cancelled
  · refine ⟨?_, ?_, ?_⟩
    · rw [hevents, waitUse_append, hthread']
      rfl
    · rw [hevents, waitUse_append, hcall]
      exact h.returned
    · rw [hobject, hcall]
      exact h.cancelled

theorem WaitSound.step {s s' : WaitState} {l : WaitLabel} (h : WaitSound s)
    (hstep : waitStep s l = some s') : WaitSound s' := by
  rcases waitStep_cases hstep with hthread | ⟨hcall, rfl⟩ | ⟨_, hcall, rfl⟩ | ⟨_, hcall, rfl⟩
  · exact h.threadStep hthread
  · refine ⟨h.freed, ?_, ?_⟩
    · rw [h.returned, hcall]
      rfl
    · intro hreturned
      exact absurd hreturned (by simp)
  · refine ⟨?_, ?_, fun _ ↦ rfl⟩
    · rw [waitUse_append]
      exact h.freed
    · rw [waitUse_append]
      exact h.returned.trans (by simp [hcall])
  · refine ⟨?_, ?_, ?_⟩
    · rw [waitUse_append]
      exact h.freed
    · rw [waitUse_append]
      rfl
    · intro _
      exact h.cancelled (.inl hcall)

theorem lawful_concat_iff {allowed : WaitUse → WaitEvent → Prop} {events : List WaitEvent}
    (h : Lawful WaitUse.after allowed ⟨false, false⟩ events) (e : WaitEvent) :
    Lawful WaitUse.after allowed ⟨false, false⟩ (events ++ [e]) ↔ allowed (waitUse events) e := by
  rw [lawful_append, lawful_cons]
  constructor
  · exact fun hall ↦ hall.2.1
  · exact fun he ↦ ⟨h, he, lawful_nil _⟩

/-- The events of a thread step are lawful if an access, a free and a callback
are allowed where the thread makes them. -/
theorem lawful_threadStep {allowed : WaitUse → WaitEvent → Prop} {s s' : WaitState}
    {l : WaitLabel} (h : Lawful WaitUse.after allowed ⟨false, false⟩ s.events)
    (hstep : waitThreadStep s l = some s') (haccess : allowed (waitUse s.events) .access)
    (hfree : allowed (waitUse s.events) .free)
    (hcallback : ∀ timedOut, s.thread = .calling timedOut →
      allowed (waitUse s.events) (.callback s.object.callback s.object.context timedOut)) :
    Lawful WaitUse.after allowed ⟨false, false⟩ s'.events := by
  obtain ⟨_, _, _, hcases⟩ := waitThreadStep_cases hstep
  rcases hcases with ⟨_, hevents | hevents, _⟩ | ⟨timedOut, hcalling, _, hevents⟩ | ⟨_, hevents⟩
  · rw [hevents]
    exact (lawful_concat_iff h _).mpr haccess
  · rw [hevents]
    exact h
  · rw [hevents]
    exact lawful_append.mpr
      ⟨h, lawful_cons.mpr ⟨haccess, lawful_cons.mpr ⟨hcallback timedOut hcalling, lawful_nil _⟩⟩⟩
  · rw [hevents]
    exact (lawful_concat_iff h _).mpr hfree

/-- Only unregistering touches an object that is gone. -/
theorem noUseAfterFree_step {s s' : WaitState} {l : WaitLabel} (hsound : WaitSound s)
    (h : NoUseAfterFree s) (hstep : waitStep s l = some s') :
    NoUseAfterFree s' ↔ SetsFlagInTime s l := by
  rcases waitStep_cases hstep with hthread | ⟨hcall, rfl⟩ | ⟨rfl, hcall, rfl⟩ | ⟨rfl, hcall, rfl⟩
  · have hrunning := (waitThreadStep_cases hthread).2.2.1
    have hfreed : (waitUse s.events).freed = false := by
      rw [hsound.freed, decide_eq_false hrunning]
    have hflag : SetsFlagInTime s l := by
      cases l with
      | exchange => exact hrunning
      | _ => trivial
    constructor
    · exact fun _ ↦ hflag
    · intro _
      exact lawful_threadStep h hthread (fun _ ↦ hfreed) (fun _ ↦ hfreed) fun _ _ _ ↦ hfreed
  · have hflag : SetsFlagInTime s l := by
      cases l with
      | exchange => exact absurd hstep (by simp [waitStep, hcall])
      | _ => trivial
    exact ⟨fun _ ↦ hflag, fun _ ↦ h⟩
  · refine (lawful_concat_iff h .access).trans ?_
    rw [AccessAllowed, SetsFlagInTime, hsound.freed]
    simp
  · refine (lawful_concat_iff h .unregistered).trans ?_
    simp [AccessAllowed, SetsFlagInTime]

theorem freedOnce_step {s s' : WaitState} {l : WaitLabel} (hsound : WaitSound s)
    (h : FreedOnce s) (hstep : waitStep s l = some s') : FreedOnce s' := by
  rcases waitStep_cases hstep with hthread | ⟨_, rfl⟩ | ⟨_, _, rfl⟩ | ⟨_, _, rfl⟩
  · have hrunning := (waitThreadStep_cases hthread).2.2.1
    have hfreed : (waitUse s.events).freed = false := by
      rw [hsound.freed, decide_eq_false hrunning]
    exact lawful_threadStep h hthread (fun _ ↦ hfreed) (fun _ ↦ hfreed) fun _ _ _ ↦ hfreed
  · exact h
  · exact (lawful_concat_iff h .access).mpr fun heq ↦ absurd heq (by simp)
  · exact (lawful_concat_iff h .unregistered).mpr fun heq ↦ absurd heq (by simp)

/-- A thread that the call returned to is not on its way to a callback. -/
def Quiesced (s : WaitState) : Prop := s.unregister = .returned → s.thread.committed = false

theorem Quiesced.step {s s' : WaitState} {l : WaitLabel} (hsound : WaitSound s)
    (h : Quiesced s) (htime : ReturnsInTime s l) (hstep : waitStep s l = some s') :
    Quiesced s' := by
  rcases waitStep_cases hstep with hthread | ⟨_, rfl⟩ | ⟨_, _, rfl⟩ | ⟨rfl, _, rfl⟩
  · obtain ⟨_, hcall, _, hcases⟩ := waitThreadStep_cases hthread
    intro hreturned
    rw [hcall] at hreturned
    have hcancelled := hsound.cancelled (.inr hreturned)
    have hquiet := h hreturned
    rcases hcases with ⟨_, _, hcommits⟩ | ⟨_, _, hthread', _⟩ | ⟨hthread', _⟩
    · by_contra hcommitted
      rw [Bool.not_eq_false] at hcommitted
      rcases hcommits hcommitted with hbefore | hnot
      · exact absurd (hquiet.symm.trans hbefore) (by simp)
      · exact absurd (hcancelled.symm.trans hnot) (by simp)
    · rw [hthread']
      rfl
    · rw [hthread']
      rfl
  · intro hreturned
    exact absurd hreturned (by simp)
  · intro hreturned
    exact absurd hreturned (by simp)
  · exact fun _ ↦ htime

theorem noLateCallback_step {s s' : WaitState} {l : WaitLabel} (hsound : WaitSound s)
    (hquiet : Quiesced s) (h : NoLateCallback s) (hstep : waitStep s l = some s') :
    NoLateCallback s' := by
  rcases waitStep_cases hstep with hthread | ⟨_, rfl⟩ | ⟨_, _, rfl⟩ | ⟨_, _, rfl⟩
  · apply lawful_threadStep h hthread trivial trivial
    intro timedOut hcalling
    have hnot : s.unregister ≠ .returned := by
      intro hreturned
      have hcommitted := hquiet hreturned
      rw [hcalling] at hcommitted
      exact absurd hcommitted (by simp [WaitThread.committed])
    exact hsound.returned.trans (decide_eq_false hnot)
  · exact h
  · exact (lawful_concat_iff h .access).mpr trivial
  · exact (lawful_concat_iff h .unregistered).mpr trivial

/-! ## Runs -/

theorem waitSound_registered {hasHandleOut mallocOk threadOk : Bool}
    {hObject callback context : UInt64} {dwMilliseconds dwFlags : UInt32} {s : WaitState}
    (h : fakeRegisterWaitForSingleObject hasHandleOut hObject callback context dwMilliseconds
      dwFlags mallocOk threadOk = some s) :
    WaitSound s ∧ Quiesced s ∧ s.events = [] := by
  unfold fakeRegisterWaitForSingleObject at h
  split at h
  · exact absurd h (by simp)
  · split at h
    · exact absurd h (by simp)
    · split at h
      · exact absurd h (by simp)
      · obtain rfl := Option.some.inj h
        exact ⟨⟨rfl, rfl, fun hcall ↦ absurd hcall (by simp)⟩, fun hcall ↦ absurd hcall (by simp),
          rfl⟩

/-- The object is used after its release exactly if the flag is set too late;
it is released once; and no callback is late if the call returns while the
thread is not on its way to one. -/
theorem wait_object_lifetime {hasHandleOut mallocOk threadOk : Bool}
    {hObject callback context : UInt64} {dwMilliseconds dwFlags : UInt32} {s : WaitState}
    (h : fakeRegisterWaitForSingleObject hasHandleOut hObject callback context dwMilliseconds
      dwFlags mallocOk threadOk = some s) (ls : List WaitLabel) :
    (Always waitStep NoUseAfterFree s ls ↔ Guarded waitStep SetsFlagInTime s ls) ∧
      Always waitStep FreedOnce s ls ∧
      (Guarded waitStep ReturnsInTime s ls → Always waitStep NoLateCallback s ls) := by
  obtain ⟨hsound, hquiet, hevents⟩ := waitSound_registered h
  have hlawful : ∀ allowed, Lawful WaitUse.after allowed ⟨false, false⟩ s.events := by
    intro allowed
    rw [hevents]
    exact lawful_nil _
  have hsounds : Always waitStep WaitSound s ls :=
    always_of_step (fun _ _ _ hs ht ↦ hs.step ht) hsound ls
  refine ⟨?_, ?_, ?_⟩
  · have hiff : Always waitStep (fun t ↦ WaitSound t ∧ NoUseAfterFree t) s ls ↔
        Guarded waitStep SetsFlagInTime s ls := by
      apply always_iff_guarded ?_ ⟨hsound, hlawful _⟩
      rintro t l t' ⟨ht, hsafe⟩ hstep
      constructor
      · exact fun h' ↦ (noUseAfterFree_step ht hsafe hstep).mp h'.2
      · exact fun hflag ↦ ⟨ht.step hstep, (noUseAfterFree_step ht hsafe hstep).mpr hflag⟩
    rw [← hiff]
    constructor
    · exact fun hall ↦ hsounds.and hall
    · exact fun hall ↦ hall.mono fun _ ht ↦ ht.2
  · have honce : Always waitStep (fun t ↦ WaitSound t ∧ FreedOnce t) s ls := by
      apply always_of_step ?_ ⟨hsound, hlawful _⟩
      rintro t l t' ⟨ht, honce⟩ hstep
      exact ⟨ht.step hstep, freedOnce_step ht honce hstep⟩
    exact honce.mono fun _ ht ↦ ht.2
  · intro hguarded
    have hlate : Always waitStep (fun t ↦ WaitSound t ∧ Quiesced t ∧ NoLateCallback t) s ls := by
      apply always_of_guarded ?_ ⟨hsound, hquiet, hlawful _⟩ hguarded
      rintro t l t' ⟨ht, hq, hsafe⟩ htime hstep
      exact ⟨ht.step hstep, hq.step ht htime hstep, noLateCallback_step ht hq hsafe hstep⟩
    exact hlate.mono fun _ ht ↦ ht.2.2

/-- A wait without timeout that was just registered. -/
def registeredWait : WaitState :=
  { object := ⟨1, 2, 3, infinite, 0, false⟩, thread := .checking, elapsed := 0
    unregister := .notCalled, events := [] }

/-- The wait is unregistered before the thread looks at the flag again. -/
theorem wait_object_lifetime_cancelled :
    Always waitStep NoLateCallback registeredWait
      [.check, .startSlice, .wake 258, .unregister none, .exchange, .unregisterReturns, .check,
        .exit] :=
  (wait_object_lifetime (rfl : fakeRegisterWaitForSingleObject true 1 2 3 infinite 0 true true =
    some registeredWait) _).2.2 (by decide +kernel)

/-- The handle is unregistered after the callback has run and the object was
freed, and a callback starts after the wait was unregistered during a slice. -/
theorem unregister_races :
    (¬ ∀ ls, Always waitStep NoUseAfterFree registeredWait ls) ∧
      ¬ ∀ ls, Always waitStep NoLateCallback registeredWait ls := by
  constructor
  · intro h
    have hrun := h [.check, .startSlice, .wake waitObject0, .call, .callbackReturns, .exit,
      .unregister none, .exchange]
    exact absurd hrun (by decide +kernel)
  · intro h
    have hrun := h [.check, .startSlice, .unregister none, .exchange, .unregisterReturns,
      .wake waitObject0, .call]
    exact absurd hrun (by decide +kernel)

end Wallpiper.Loader
