import Wallpiper.Ctl.Listener

/-!
# Which request a response belongs to

The reply slot carries no request id.  A reply that is posted while another
request is in the mailbox is handed to that other request's client.  As long
as this does not happen, every client gets the timeout error or what was
computed for its own request.
-/

namespace Wallpiper.Ctl

open Foundations Foundations.CText

/-- A reply is posted only while the mailbox is empty or holds the request
that the reply was computed for. -/
def repliesInTime (s : CtlState) : CtlLabel → Bool
  | .reply =>
      match s.mainLoop with
      | .computed i _ => !s.listener.hasPending || s.listener.pendingRequest == i
      | _ => true
  | _ => true

def RepliesInTime (s : CtlState) (l : CtlLabel) : Prop := repliesInTime s l = true

instance (s : CtlState) (l : CtlLabel) : Decidable (RepliesInTime s l) :=
  inferInstanceAs (Decidable (repliesInTime s l = true))

/-- A response to a request that went through the mailbox. -/
def Answers (hasCursorFn : Bool) (s : CtlState) (i : CtlInstance) (response : CtlResponse) : Prop :=
  ¬ (i.request = .cursorPos ∧ hasCursorFn = true) →
    response = timedOut ∨ (i, response) ∈ s.computed

structure MailboxSound (hasCursorFn : Bool) (s : CtlState) : Prop where
  pending_waits : s.listener.hasPending = true → s.thread = .waiting s.listener.pendingRequest
  waits_pending : ∀ i, s.thread = .waiting i →
    s.listener.hasPending = true ∧ s.listener.pendingRequest = i
  callback_cursor : ∀ i, s.thread = .callback i → i.request = .cursorPos ∧ hasCursorFn = true
  reply_computed : s.listener.hasPending = true → s.listener.hasReply = true →
    (s.listener.pendingRequest, s.listener.pendingReply) ∈ s.computed
  main_computed : ∀ i response, s.mainLoop = .computed i response → (i, response) ∈ s.computed
  responding : ∀ i response, s.thread = .responding i response → Answers hasCursorFn s i response
  written : ∀ i response, (i, response) ∈ s.written → Answers hasCursorFn s i response

theorem MailboxSound.initial (hasCursorFn : Bool) : MailboxSound hasCursorFn .initial := by
  refine ⟨?_, ?_, ?_, ?_, ?_, ?_, ?_⟩
  all_goals
    intros
    simp_all [CtlState.initial, CtlListener.zero]

/-! ## One step -/

section Steps

variable {hasCursorFn : Bool}

/-- Outside a wait the mailbox is empty. -/
theorem MailboxSound.not_pending {s : CtlState} (h : MailboxSound hasCursorFn s)
    (hthread : ∀ i, s.thread ≠ .waiting i) : s.listener.hasPending = false := by
  by_contra hp
  rw [Bool.not_eq_false] at hp
  exact hthread _ (h.pending_waits hp)

/-- The thread moves between points outside a wait; the mailbox and the main
loop are untouched. -/
theorem MailboxSound.thread_step {s : CtlState} (h : MailboxSound hasCursorFn s)
    (hfrom : ∀ i, s.thread ≠ .waiting i) {pc : ListenerPc} (hto : ∀ i, pc ≠ .waiting i)
    (hcallback : ∀ i, pc = .callback i → i.request = .cursorPos ∧ hasCursorFn = true)
    (hresponding : ∀ i response, pc = .responding i response → Answers hasCursorFn s i response)
    (nextConn : ℕ) {written : List (CtlInstance × CtlResponse)}
    (hwritten : ∀ i response, (i, response) ∈ written → Answers hasCursorFn s i response) :
    MailboxSound hasCursorFn { s with thread := pc, nextConn := nextConn, written := written } := by
  have hidle := h.not_pending hfrom
  refine ⟨?_, ?_, hcallback, h.reply_computed, h.main_computed, hresponding, hwritten⟩
  · intro hp
    exact absurd hp (by simp [hidle])
  · intro i hi
    exact absurd hi (hto i)

/-- The wait ends with a response that answers its request. -/
theorem MailboxSound.finishWait {s : CtlState} (h : MailboxSound hasCursorFn s) {i : CtlInstance}
    {response : CtlResponse} (hresponse : Answers hasCursorFn s i response) :
    MailboxSound hasCursorFn (finishWait s i response) := by
  refine ⟨?pending_waits, ?waits_pending, ?callback_cursor, ?reply_computed, h.main_computed,
    ?responding, h.written⟩
  case pending_waits =>
    intro hp
    exact absurd hp (by simp [Ctl.finishWait])
  case waits_pending =>
    intro j hj
    exact absurd hj (by simp [Ctl.finishWait])
  case callback_cursor =>
    intro j hj
    exact absurd hj (by simp [Ctl.finishWait])
  case reply_computed =>
    intro hp
    exact absurd hp (by simp [Ctl.finishWait])
  case responding =>
    intro j r hj
    obtain ⟨rfl, rfl⟩ := ListenerPc.responding.inj hj
    exact hresponse

theorem MailboxSound.accept {s : CtlState} (h : MailboxSound hasCursorFn s)
    (hthread : s.thread = .accepting) (sent : Bytes) :
    MailboxSound hasCursorFn (acceptConnection hasCursorFn s sent) := by
  have hfrom : ∀ i, s.thread ≠ .waiting i := by simp [hthread]
  have hstay : MailboxSound hasCursorFn { s with nextConn := s.nextConn + 1 } :=
    h.thread_step hfrom hfrom h.callback_cursor h.responding _ h.written
  simp only [acceptConnection]
  split
  · exact hstay
  · split
    · exact hstay
    · rename_i request hparse
      split
      · rename_i hcursor
        apply h.thread_step hfrom _ _ _ _ h.written
        · simp
        · intro i hi
          obtain rfl := ListenerPc.callback.inj hi
          exact hcursor
        · simp
      · apply h.thread_step hfrom _ _ _ _ h.written
        all_goals simp

theorem MailboxSound.install {s : CtlState} (h : MailboxSound hasCursorFn s) (i : CtlInstance) :
    MailboxSound hasCursorFn { s with
      listener := { s.listener with
        pendingRequest := i, hasPending := true, delivered := false, hasReply := false }
      thread := .waiting i } := by
  refine ⟨fun _ ↦ rfl, ?waits_pending, ?callback_cursor, ?reply_computed, h.main_computed,
    ?responding, h.written⟩
  case waits_pending =>
    intro j hj
    exact ⟨rfl, ListenerPc.waiting.inj hj⟩
  case callback_cursor =>
    intro j hj
    exact absurd hj (by simp)
  case reply_computed =>
    intro _ hr
    exact absurd hr (by simp)
  case responding =>
    intro j r hj
    exact absurd hj (by simp)

theorem MailboxSound.poll {s : CtlState} (h : MailboxSound hasCursorFn s) {l : CtlListener}
    {pc : MainPc} (hpending : l.hasPending = s.listener.hasPending)
    (hreply : l.hasReply = s.listener.hasReply)
    (hrequest : l.pendingRequest = s.listener.pendingRequest)
    (hanswer : l.pendingReply = s.listener.pendingReply)
    (hpc : ∀ i response, pc = .computed i response → (i, response) ∈ s.computed) :
    MailboxSound hasCursorFn { s with listener := l, mainLoop := pc } := by
  refine ⟨?pending_waits, ?waits_pending, h.callback_cursor, ?reply_computed, hpc, h.responding,
    h.written⟩
  case pending_waits =>
    intro hp
    rw [hrequest]
    exact h.pending_waits (hpending ▸ hp)
  case waits_pending =>
    intro i hi
    obtain ⟨hp, hr⟩ := h.waits_pending i hi
    exact ⟨hpending.trans hp, hrequest.trans hr⟩
  case reply_computed =>
    intro hp hr
    rw [hrequest, hanswer]
    exact h.reply_computed (hpending ▸ hp) (hreply ▸ hr)

theorem Answers.mono {s t : CtlState} {i : CtlInstance} {response : CtlResponse}
    (h : Answers hasCursorFn s i response) (hsub : s.computed ⊆ t.computed) :
    Answers hasCursorFn t i response := by
  intro hi
  rcases h hi with heq | hmem
  · exact Or.inl heq
  · exact Or.inr (hsub hmem)

theorem MailboxSound.compute {s : CtlState} (h : MailboxSound hasCursorFn s) (i : CtlInstance)
    (response : CtlResponse) :
    MailboxSound hasCursorFn { s with
      mainLoop := .computed i response, computed := s.computed ++ [(i, response)] } := by
  have hsub : s.computed ⊆ s.computed ++ [(i, response)] := List.subset_append_left _ _
  refine ⟨h.pending_waits, h.waits_pending, h.callback_cursor, ?reply_computed, ?main_computed,
    ?responding, ?written⟩
  case reply_computed =>
    intro hp hr
    exact hsub (h.reply_computed hp hr)
  case main_computed =>
    intro j r hj
    obtain ⟨rfl, rfl⟩ := MainPc.computed.inj hj
    simp
  case responding =>
    intro j r hj
    exact (h.responding j r hj).mono hsub
  case written =>
    intro j r hj
    exact (h.written j r hj).mono hsub

theorem MailboxSound.reply {s : CtlState} (h : MailboxSound hasCursorFn s) {i : CtlInstance}
    {response : CtlResponse} (hmain : s.mainLoop = .computed i response)
    (hguard : s.listener.hasPending = true → s.listener.pendingRequest = i) :
    MailboxSound hasCursorFn { s with
      listener := wpCtlListenerReply s.listener response, mainLoop := .idle } := by
  refine ⟨h.pending_waits, h.waits_pending, h.callback_cursor, ?_, ?_, h.responding, h.written⟩
  · intro hp _
    have heq : (s.listener.pendingRequest, response) = (i, response) := by rw [hguard hp]
    exact heq ▸ h.main_computed i response hmain
  · intro j r hj
    exact absurd hj (by simp)

theorem MailboxSound.step {s t : CtlState} {l : CtlLabel}
    (h : MailboxSound hasCursorFn s) (hguard : RepliesInTime s l)
    (hstep : ctlStep hasCursorFn s l = some t) :
    MailboxSound hasCursorFn t := by
  cases l with
  | accept sent =>
      cases hthread : s.thread with
      | accepting =>
          simp only [ctlStep, hthread, Option.some.injEq] at hstep
          exact hstep ▸ h.accept hthread sent
      | callback | dispatch | waiting | responding => simp [ctlStep, hthread] at hstep
  | cursor response =>
      cases hthread : s.thread with
      | callback i =>
          simp only [ctlStep, hthread, Option.some.injEq] at hstep
          have hi := h.callback_cursor i hthread
          rw [← hstep]
          apply h.thread_step (by simp [hthread]) (by simp) (by simp) _ s.nextConn h.written
          intro j r hj hne
          obtain ⟨rfl, rfl⟩ := ListenerPc.responding.inj hj
          exact absurd hi hne
      | accepting | dispatch | waiting | responding => simp [ctlStep, hthread] at hstep
  | install =>
      cases hthread : s.thread with
      | dispatch i =>
          simp only [ctlStep, hthread, Option.some.injEq] at hstep
          exact hstep ▸ h.install i
      | accepting | callback | waiting | responding => simp [ctlStep, hthread] at hstep
  | wake deadline =>
      cases hthread : s.thread with
      | waiting i =>
          obtain ⟨hp, hi⟩ := h.waits_pending i hthread
          simp only [ctlStep, hthread] at hstep
          split at hstep
          · rename_i hreply
            obtain rfl := Option.some.inj hstep
            apply h.finishWait
            intro _
            exact Or.inr (hi ▸ h.reply_computed hp hreply)
          · split at hstep
            · obtain rfl := Option.some.inj hstep
              exact h.finishWait fun _ ↦ Or.inl rfl
            · exact Option.some.inj hstep ▸ h
      | accepting | callback | dispatch | responding => simp [ctlStep, hthread] at hstep
  | write =>
      cases hthread : s.thread with
      | responding i response =>
          simp only [ctlStep, hthread, Option.some.injEq] at hstep
          rw [← hstep]
          apply h.thread_step (by simp [hthread]) (by simp) (by simp) (by simp) s.nextConn
          intro j r hj
          rcases List.mem_append.mp hj with hj | hj
          · exact h.written j r hj
          · obtain ⟨rfl, rfl⟩ := Prod.mk.inj (List.mem_singleton.mp hj)
            exact h.responding j r hthread
      | accepting | callback | dispatch | waiting => simp [ctlStep, hthread] at hstep
  | poll =>
      cases hmain : s.mainLoop with
      | idle =>
          by_cases hdue : s.listener.hasPending = true ∧ s.listener.delivered = false
          · simp only [ctlStep, hmain, wpCtlListenerPoll, if_pos hdue, Option.some.injEq] at hstep
            exact hstep ▸ h.poll rfl rfl rfl rfl (by simp)
          · simp only [ctlStep, hmain, wpCtlListenerPoll, if_neg hdue, Option.some.injEq] at hstep
            exact hstep ▸ h.poll rfl rfl rfl rfl (by simp)
      | polled | computed => simp [ctlStep, hmain] at hstep
  | compute =>
      cases hmain : s.mainLoop with
      | polled i =>
          simp only [ctlStep, hmain, Option.some.injEq] at hstep
          exact hstep ▸ h.compute i (handleCtlRequest i.request)
      | idle | computed => simp [ctlStep, hmain] at hstep
  | reply =>
      cases hmain : s.mainLoop with
      | computed i response =>
          simp only [ctlStep, hmain, Option.some.injEq] at hstep
          refine hstep ▸ h.reply hmain fun hp ↦ ?_
          simpa [RepliesInTime, repliesInTime, hmain, hp] using hguard
      | idle | polled => simp [ctlStep, hmain] at hstep

end Steps

/-! ## Runs -/

/-- In a run whose replies are in time, every client gets the timeout error
or the response computed for its own request; `OK` is never the timeout. -/
theorem written_own_response {hasCursorFn : Bool} {ls : List CtlLabel} {s : CtlState}
    (hguard : Guarded (ctlStep hasCursorFn) RepliesInTime .initial ls)
    (hrun : exec (ctlStep hasCursorFn) .initial ls = some s) :
    (∀ i response, (i, response) ∈ s.written → i.request ≠ .cursorPos →
      response = timedOut ∨ (i, response) ∈ s.computed) ∧
    ∀ i, (i, CtlResponse.ok) ∈ s.written → i.request ≠ .cursorPos →
      (i, CtlResponse.ok) ∈ s.computed := by
  have hs : MailboxSound hasCursorFn s :=
    exec_invariant_guarded (fun _ _ _ h hG ht ↦ h.step hG ht) (MailboxSound.initial hasCursorFn)
      hguard hrun
  have hwritten : ∀ i response, (i, response) ∈ s.written → i.request ≠ .cursorPos →
      response = timedOut ∨ (i, response) ∈ s.computed :=
    fun i response hi hne ↦ hs.written i response hi fun hcursor ↦ hne hcursor.1
  refine ⟨hwritten, ?_⟩
  intro i hi hne
  rcases hwritten i .ok hi hne with heq | hmem
  · exact absurd heq (by simp [timedOut])
  · exact hmem

/-- A client that pings and is answered. -/
def pingRun : List CtlLabel :=
  [.accept (bytesOf "PING\n"), .install, .poll, .compute, .reply, .wake false, .write]

theorem written_own_response_ping :
    ∃ s, exec (ctlStep true) .initial pingRun = some s ∧
      ((⟨0, .ping⟩, .ok) : CtlInstance × CtlResponse) ∈ s.computed := by
  refine ⟨_, rfl, ?_⟩
  have hguard : Guarded (ctlStep true) RepliesInTime .initial pingRun := by decide
  exact (written_own_response hguard rfl).2 ⟨0, .ping⟩ (by decide) (by decide)

/-- The main loop is slow with a ping: its answer goes to the client that
asked to detach. -/
def staleReplyRun : List CtlLabel :=
  [.accept (bytesOf "PING\n"), .install, .poll, .compute, .wake true, .write,
    .accept (bytesOf "DETACH\n"), .install, .reply, .wake false, .write]

theorem staleReplyRun_answers_detach :
    ∃ s, exec (ctlStep true) .initial staleReplyRun = some s ∧
      ∃ i response, (i, response) ∈ s.written ∧ i.request = .detach ∧ response = .ok ∧
        response ≠ timedOut ∧ (i, response) ∉ s.computed :=
  ⟨_, rfl, ⟨1, .detach⟩, .ok, by decide, rfl, rfl, by decide, by decide⟩

end Wallpiper.Ctl
