import Wallpiper.Ctl.ReplyMatching

/-!
# What one connection is told

The instances of a run keep the number of their connection and its request from the
thread through the mailbox and the main loop to what is written.  What is written is
the timeout, what the main loop says to some request, or the callback's answer.
-/

namespace Wallpiper.Ctl

open Foundations Foundations.CText

/-- The request in what a client sends. -/
def lineRequest (sent : Bytes) : Option CtlRequest :=
  if readLine 512 sent = [] then none else wpCtlRequestParse (readLine 512 sent)

def ListenerPc.current : ListenerPc → Option CtlInstance
  | .accepting => none
  | .callback i => some i
  | .dispatch i => some i
  | .waiting i => some i
  | .responding i _ => some i

def MainPc.current : MainPc → Option CtlInstance
  | .idle => none
  | .polled i => some i
  | .computed i _ => some i

/-! ## Instances -/

/-- `P` holds of every instance that is anywhere. -/
structure CtlState.Instances (P : CtlInstance → Prop) (s : CtlState) : Prop where
  pending : s.listener.hasPending = true → P s.listener.pendingRequest
  thread : ∀ i ∈ s.thread.current, P i
  main : ∀ i ∈ s.mainLoop.current, P i
  computed : ∀ e ∈ s.computed, P e.1
  written : ∀ e ∈ s.written, P e.1

/-- What an accepting thread does depends on the line. -/
theorem acceptConnection_cases (hasCursorFn : Bool) (s : CtlState) (sent : Bytes) :
    (acceptConnection hasCursorFn s sent = { s with nextConn := s.nextConn + 1 }) ∨
      ∃ request pc, lineRequest sent = some request ∧
        acceptConnection hasCursorFn s sent =
          { s with nextConn := s.nextConn + 1, thread := pc } ∧
        (pc = .dispatch ⟨s.nextConn, request⟩ ∧ ¬ (request = .cursorPos ∧ hasCursorFn = true) ∨
          pc = .callback ⟨s.nextConn, request⟩ ∧ request = .cursorPos ∧ hasCursorFn = true) := by
  simp only [acceptConnection]
  split
  · exact .inl rfl
  · rename_i hne
    split
    · exact .inl rfl
    · rename_i request hparse
      have hline : lineRequest sent = some request := (if_neg hne).trans hparse
      split
      · rename_i hcursor
        exact .inr ⟨request, _, hline, rfl, .inr ⟨rfl, hcursor⟩⟩
      · rename_i hmailbox
        exact .inr ⟨request, _, hline, rfl, .inl ⟨rfl, hmailbox⟩⟩

section Steps

variable {P : CtlInstance → Prop} {hasCursorFn : Bool} {s t : CtlState} {l : CtlLabel}

theorem CtlState.Instances.accept (h : s.Instances P) {sent : Bytes}
    (hnew : ∀ request ∈ lineRequest sent, P ⟨s.nextConn, request⟩) :
    (acceptConnection hasCursorFn s sent).Instances P := by
  rcases acceptConnection_cases hasCursorFn s sent with hstay | ⟨request, pc, hline, hpc, hcases⟩
  · rw [hstay]
    exact ⟨h.pending, h.thread, h.main, h.computed, h.written⟩
  · rw [hpc]
    refine ⟨h.pending, fun i hi ↦ ?_, h.main, h.computed, h.written⟩
    have hi' : i = ⟨s.nextConn, request⟩ := by
      rcases hcases with ⟨rfl, -⟩ | ⟨rfl, -⟩
      · exact (Option.some.inj hi).symm
      · exact (Option.some.inj hi).symm
    exact hi' ▸ hnew request hline

/-- Only an accepted line brings a new instance. -/
theorem CtlState.Instances.step (h : s.Instances P) (hstep : ctlStep hasCursorFn s l = some t)
    (hnew : ∀ sent, l = .accept sent → ∀ request ∈ lineRequest sent, P ⟨s.nextConn, request⟩) :
    t.Instances P := by
  cases l with
  | accept sent =>
      simp only [ctlStep] at hstep
      split at hstep
      · exact Option.some.inj hstep ▸ h.accept (hnew sent rfl)
      · cases hstep
  | cursor response =>
      simp only [ctlStep] at hstep
      split at hstep
      · rename_i i hthread
        obtain rfl := Option.some.inj hstep
        have hi := h.thread i (by rw [hthread]; rfl)
        exact ⟨h.pending, fun j hj ↦ Option.some.inj hj ▸ hi, h.main, h.computed, h.written⟩
      · cases hstep
  | install =>
      simp only [ctlStep] at hstep
      split at hstep
      · rename_i i hthread
        obtain rfl := Option.some.inj hstep
        have hi := h.thread i (by rw [hthread]; rfl)
        exact ⟨fun _ ↦ hi, fun j hj ↦ Option.some.inj hj ▸ hi, h.main, h.computed, h.written⟩
      · cases hstep
  | wake deadline =>
      simp only [ctlStep] at hstep
      split at hstep
      · rename_i i hthread
        have hi := h.thread i (by rw [hthread]; rfl)
        have hfinish : ∀ response, (finishWait s i response).Instances P := fun response ↦
          ⟨fun hpending ↦ absurd hpending (by simp [finishWait]),
            fun j hj ↦ Option.some.inj hj ▸ hi, h.main, h.computed, h.written⟩
        split at hstep
        · exact Option.some.inj hstep ▸ hfinish _
        · split at hstep
          · exact Option.some.inj hstep ▸ hfinish _
          · exact Option.some.inj hstep ▸ h
      · cases hstep
  | write =>
      simp only [ctlStep] at hstep
      split at hstep
      · rename_i i response hthread
        obtain rfl := Option.some.inj hstep
        have hi := h.thread i (by rw [hthread]; rfl)
        refine ⟨h.pending, fun j hj ↦ (by cases hj), h.main, h.computed, fun e he ↦ ?_⟩
        rcases List.mem_append.mp he with he | he
        · exact h.written e he
        · exact List.mem_singleton.mp he ▸ hi
      · cases hstep
  | poll =>
      simp only [ctlStep] at hstep
      split at hstep
      · by_cases hdue : s.listener.hasPending = true ∧ s.listener.delivered = false
        · rw [wpCtlListenerPoll, if_pos hdue] at hstep
          obtain rfl := Option.some.inj hstep
          exact ⟨h.pending, h.thread, fun j hj ↦ Option.some.inj hj ▸ h.pending hdue.1, h.computed,
            h.written⟩
        · rw [wpCtlListenerPoll, if_neg hdue] at hstep
          exact Option.some.inj hstep ▸ h
      · cases hstep
  | compute =>
      simp only [ctlStep] at hstep
      split at hstep
      · rename_i i hmain
        obtain rfl := Option.some.inj hstep
        have hi := h.main i (by rw [hmain]; rfl)
        refine ⟨h.pending, h.thread, fun j hj ↦ Option.some.inj hj ▸ hi, fun e he ↦ ?_, h.written⟩
        rcases List.mem_append.mp he with he | he
        · exact h.computed e he
        · exact List.mem_singleton.mp he ▸ hi
      · cases hstep
  | reply =>
      simp only [ctlStep] at hstep
      split at hstep
      · obtain rfl := Option.some.inj hstep
        exact ⟨h.pending, h.thread, fun j hj ↦ (by cases hj), h.computed, h.written⟩
      · cases hstep

theorem CtlState.Instances.mono {Q : CtlInstance → Prop} (h : s.Instances P)
    (hPQ : ∀ i, P i → Q i) : s.Instances Q :=
  ⟨fun hp ↦ hPQ _ (h.pending hp), fun i hi ↦ hPQ i (h.thread i hi),
    fun i hi ↦ hPQ i (h.main i hi), fun e he ↦ hPQ _ (h.computed e he),
    fun e he ↦ hPQ _ (h.written e he)⟩

theorem nextConn_accept {sent : Bytes} (hstep : ctlStep hasCursorFn s (.accept sent) = some t) :
    t.nextConn = s.nextConn + 1 := by
  simp only [ctlStep] at hstep
  split at hstep
  · obtain rfl := Option.some.inj hstep
    rcases acceptConnection_cases hasCursorFn s sent with hstay | ⟨request, pc, -, hpc, -⟩
    · exact hstay ▸ rfl
    · exact hpc ▸ rfl
  · cases hstep

/-- The number of the next connection only grows. -/
theorem nextConn_step (hstep : ctlStep hasCursorFn s l = some t) :
    t.nextConn = s.nextConn ∨ t.nextConn = s.nextConn + 1 := by
  cases l with
  | accept sent => exact .inr (nextConn_accept hstep)
  | wake deadline =>
      simp only [ctlStep] at hstep
      split at hstep
      · split_ifs at hstep
        all_goals exact .inl (Option.some.inj hstep ▸ rfl)
      · cases hstep
  | poll =>
      simp only [ctlStep] at hstep
      split at hstep
      · split at hstep
        all_goals exact .inl (Option.some.inj hstep ▸ rfl)
      · cases hstep
  | cursor response | install | write | compute | reply =>
      simp only [ctlStep] at hstep
      split at hstep
      · exact .inl (Option.some.inj hstep ▸ rfl)
      · cases hstep

end Steps

/-! ## One connection -/

/-- Every instance has a number that was given. -/
def CtlState.Numbered (s : CtlState) : Prop := s.Instances fun i ↦ i.conn < s.nextConn

theorem CtlState.Numbered.initial : CtlState.initial.Numbered := by
  refine ⟨?_, ?_, ?_, ?_, ?_⟩
  all_goals simp [CtlState.initial, CtlListener.zero, ListenerPc.current, MainPc.current]

section Runs

variable {hasCursorFn : Bool} {s t : CtlState} {ls : List CtlLabel}

theorem CtlState.Numbered.step {l : CtlLabel} (h : s.Numbered)
    (hstep : ctlStep hasCursorFn s l = some t) : t.Numbered := by
  have hnext := nextConn_step hstep
  by_cases hgrows : t.nextConn = s.nextConn + 1
  · refine CtlState.Instances.step (h.mono fun i hi ↦ ?_) hstep fun _ _ _ _ ↦ ?_
    · omega
    · exact hgrows ▸ Nat.lt_succ_self _
  · have hsame := hnext.resolve_right hgrows
    refine CtlState.Instances.step (h.mono fun i hi ↦ hsame ▸ hi) hstep fun sent hl _ _ ↦ ?_
    exact absurd (nextConn_accept (hl ▸ hstep)) hgrows

theorem CtlState.Numbered.exec (hrun : exec (ctlStep hasCursorFn) .initial ls = some s) :
    s.Numbered :=
  exec_invariant (fun _ _ _ h hstep ↦ h.step hstep) CtlState.Numbered.initial hrun

/-- All that a connection is about is the request in its line. -/
theorem instances_of_connection (hs : s.Numbered) {sent : Bytes}
    (hrun : exec (ctlStep hasCursorFn) s (.accept sent :: ls) = some t) :
    t.Instances fun i ↦ i.conn = s.nextConn → lineRequest sent = some i.request := by
  obtain ⟨u, hu, hrest⟩ := exec_cons_eq_some.mp hrun
  have hfirst : u.Instances fun i ↦ i.conn = s.nextConn → lineRequest sent = some i.request := by
    refine CtlState.Instances.step (hs.mono fun i hi hconn ↦ ?_) hu
      fun sent' hl request hrequest _ ↦ ?_
    · omega
    · obtain rfl := CtlLabel.accept.inj hl
      exact hrequest
  have hnext : s.nextConn < u.nextConn := by
    rw [nextConn_accept hu]
    exact Nat.lt_succ_self _
  have hlater : s.nextConn < t.nextConn ∧
      t.Instances fun i ↦ i.conn = s.nextConn → lineRequest sent = some i.request := by
    refine exec_invariant (I := fun v : CtlState ↦ s.nextConn < v.nextConn ∧
      v.Instances fun i ↦ i.conn = s.nextConn → lineRequest sent = some i.request)
      (fun v l w hv hstep ↦ ?_) ⟨hnext, hfirst⟩ hrest
    have hgrows := nextConn_step hstep
    have hbefore := hv.1
    refine ⟨by omega, hv.2.step hstep fun sent' _ request _ hconn ↦ ?_⟩
    exact absurd hconn (Nat.ne_of_gt hbefore)
  exact hlater.2

end Runs

/-! ## What is said -/

/-- The answers of the cursor callbacks. -/
def CallbackAnswer (response : CtlResponse) : Prop :=
  response = .err (bytesOf "cursor position unavailable") ∨ ∃ x y, response = .cursorPos x y

/-- A response that may be written for the instance. -/
structure Sayable (hasCursorFn : Bool) (i : CtlInstance) (response : CtlResponse) : Prop where
  callback : i.request = .cursorPos ∧ hasCursorFn = true → CallbackAnswer response
  mailbox : ¬ (i.request = .cursorPos ∧ hasCursorFn = true) →
    response = timedOut ∨ ∃ request, response = handleCtlRequest request

structure CtlState.Speaks (hasCursorFn : Bool) (s : CtlState) : Prop where
  reply : s.listener.hasReply = true →
    ∃ request, s.listener.pendingReply = handleCtlRequest request
  main : ∀ i response, s.mainLoop = .computed i response → response = handleCtlRequest i.request
  computed : ∀ e ∈ s.computed, e.2 = handleCtlRequest e.1.request
  callback : ∀ i, s.thread = .callback i → i.request = .cursorPos ∧ hasCursorFn = true
  dispatch : ∀ i, s.thread = .dispatch i → ¬ (i.request = .cursorPos ∧ hasCursorFn = true)
  waiting : ∀ i, s.thread = .waiting i → ¬ (i.request = .cursorPos ∧ hasCursorFn = true)
  responding : ∀ i response, s.thread = .responding i response → Sayable hasCursorFn i response
  written : ∀ e ∈ s.written, Sayable hasCursorFn e.1 e.2

theorem CtlState.Speaks.initial (hasCursorFn : Bool) : CtlState.initial.Speaks hasCursorFn := by
  refine ⟨?_, ?_, ?_, ?_, ?_, ?_, ?_, ?_⟩
  all_goals simp [CtlState.initial, CtlListener.zero]

/-- The thread moves on and the rest is as it was. -/
theorem CtlState.Speaks.thread_step {hasCursorFn : Bool} {s : CtlState} (h : s.Speaks hasCursorFn)
    {pc : ListenerPc} (nextConn : ℕ)
    (hcallback : ∀ i, pc = .callback i → i.request = .cursorPos ∧ hasCursorFn = true)
    (hdispatch : ∀ i, pc = .dispatch i → ¬ (i.request = .cursorPos ∧ hasCursorFn = true))
    (hwaiting : ∀ i, pc = .waiting i → ¬ (i.request = .cursorPos ∧ hasCursorFn = true))
    (hresponding : ∀ i response, pc = .responding i response → Sayable hasCursorFn i response) :
    CtlState.Speaks hasCursorFn { s with thread := pc, nextConn := nextConn } :=
  ⟨h.reply, h.main, h.computed, hcallback, hdispatch, hwaiting, hresponding, h.written⟩

theorem CtlState.Speaks.step {hasCursorFn : Bool} {s t : CtlState} {l : CtlLabel}
    (h : s.Speaks hasCursorFn) (hstep : ctlStep hasCursorFn s l = some t)
    (hanswer : ∀ response, l = .cursor response → CallbackAnswer response) :
    t.Speaks hasCursorFn := by
  cases l with
  | accept sent =>
      simp only [ctlStep] at hstep
      split at hstep
      · obtain rfl := Option.some.inj hstep
        rcases acceptConnection_cases hasCursorFn s sent with
          hstay | ⟨request, pc, -, hpc, ⟨rfl, hmailbox⟩ | ⟨rfl, hcursor⟩⟩
        · rw [hstay]
          exact h.thread_step _ h.callback h.dispatch h.waiting h.responding
        · rw [hpc]
          refine h.thread_step _ ?_ (fun i hi ↦ ListenerPc.dispatch.inj hi ▸ hmailbox) ?_ ?_
          all_goals simp
        · rw [hpc]
          refine h.thread_step _ (fun i hi ↦ ListenerPc.callback.inj hi ▸ hcursor) ?_ ?_ ?_
          all_goals simp
      · cases hstep
  | cursor response =>
      simp only [ctlStep] at hstep
      split at hstep
      · rename_i i hthread
        obtain rfl := Option.some.inj hstep
        have hcursor := h.callback i hthread
        refine h.thread_step _ ?_ ?_ ?_ fun j r hj ↦ ?_
        iterate 3 simp
        obtain ⟨rfl, rfl⟩ := ListenerPc.responding.inj hj
        exact ⟨fun _ ↦ hanswer response rfl, fun hmailbox ↦ absurd hcursor hmailbox⟩
      · cases hstep
  | install =>
      simp only [ctlStep] at hstep
      split at hstep
      · rename_i i hthread
        obtain rfl := Option.some.inj hstep
        refine ⟨?_, h.main, h.computed, ?_, ?_, fun j hj ↦ ?_, ?_, h.written⟩
        case refine_4 => exact ListenerPc.waiting.inj hj ▸ h.dispatch i hthread
        all_goals simp
      · cases hstep
  | wake deadline =>
      simp only [ctlStep] at hstep
      split at hstep
      · rename_i i hthread
        have hfinish : ∀ response, (response = timedOut ∨
            ∃ request, response = handleCtlRequest request) →
              (finishWait s i response).Speaks hasCursorFn := by
          intro response hmeans
          refine ⟨?_, h.main, h.computed, ?_, ?_, ?_, fun j r hj ↦ ?_, h.written⟩
          case refine_5 =>
            obtain ⟨rfl, rfl⟩ := ListenerPc.responding.inj hj
            exact ⟨fun hcursor ↦ absurd hcursor (h.waiting i hthread), fun _ ↦ hmeans⟩
          all_goals simp [finishWait]
        split at hstep
        · rename_i hreply
          exact Option.some.inj hstep ▸ hfinish _ (.inr (h.reply hreply))
        · split at hstep
          · exact Option.some.inj hstep ▸ hfinish _ (.inl rfl)
          · exact Option.some.inj hstep ▸ h
      · cases hstep
  | write =>
      simp only [ctlStep] at hstep
      split at hstep
      · rename_i i response hthread
        obtain rfl := Option.some.inj hstep
        refine ⟨h.reply, h.main, h.computed, ?_, ?_, ?_, ?_, fun e he ↦ ?_⟩
        case refine_5 =>
          rcases List.mem_append.mp he with he | he
          · exact h.written e he
          · exact List.mem_singleton.mp he ▸ h.responding i response hthread
        all_goals simp
      · cases hstep
  | poll =>
      simp only [ctlStep] at hstep
      split at hstep
      · by_cases hdue : s.listener.hasPending = true ∧ s.listener.delivered = false
        · rw [wpCtlListenerPoll, if_pos hdue] at hstep
          obtain rfl := Option.some.inj hstep
          exact ⟨h.reply, fun j r hj ↦ (by cases hj), h.computed, h.callback, h.dispatch, h.waiting,
            h.responding, h.written⟩
        · rw [wpCtlListenerPoll, if_neg hdue] at hstep
          exact Option.some.inj hstep ▸ h
      · cases hstep
  | compute =>
      simp only [ctlStep] at hstep
      split at hstep
      · rename_i i hmain
        obtain rfl := Option.some.inj hstep
        refine ⟨h.reply, fun j r hj ↦ ?_, fun e he ↦ ?_, h.callback, h.dispatch, h.waiting,
          h.responding, h.written⟩
        · obtain ⟨rfl, rfl⟩ := MainPc.computed.inj hj
          rfl
        · rcases List.mem_append.mp he with he | he
          · exact h.computed e he
          · exact List.mem_singleton.mp he ▸ rfl
      · cases hstep
  | reply =>
      simp only [ctlStep] at hstep
      split at hstep
      · rename_i i response hmain
        obtain rfl := Option.some.inj hstep
        exact ⟨fun _ ↦ ⟨i.request, h.main i response hmain⟩, fun j r hj ↦ (by cases hj), h.computed,
          h.callback, h.dispatch, h.waiting, h.responding, h.written⟩
      · cases hstep

theorem CtlState.Speaks.exec {hasCursorFn : Bool} {s : CtlState} {ls : List CtlLabel}
    (hrun : exec (ctlStep hasCursorFn) .initial ls = some s)
    (hanswer : ∀ response, .cursor response ∈ ls → CallbackAnswer response) :
    s.Speaks hasCursorFn :=
  exec_invariant_mem
    (fun _ _ _ h hl hstep ↦ h.step hstep fun response heq ↦ hanswer response (heq ▸ hl))
    (CtlState.Speaks.initial hasCursorFn) hrun

end Wallpiper.Ctl
