import Wallpiper.Ctl.Listener

/-!
# Which requests the main loop gets

The listener thread installs the requests one after the other and resets the
flags of the mailbox on its own.  Here the main loop polls and replies whenever
it likes, so that a reply may come late, twice or without a poll.  What the
polls return is still a subsequence of what the thread accepted.
-/

namespace Wallpiper.Ctl

open Foundations Foundations.CText

/-- `accepted` lists the valid requests that go to the mailbox, `polled` what the
polls returned. -/
structure Delivery where
  state : CtlState
  accepted : List CtlInstance
  polled : List CtlInstance
  deriving DecidableEq, Repr

def Delivery.initial : Delivery := { state := .initial, accepted := [], polled := [] }

inductive DeliveryLabel where
  | thread (l : CtlLabel)
  | poll
  | reply (response : CtlResponse)
  deriving DecidableEq, Repr

/-- The request on its way to the mailbox. -/
def dispatching : ListenerPc → List CtlInstance
  | .dispatch i => [i]
  | _ => []

/-- The request that a step of the listener thread accepts. -/
def newlyAccepted (t : CtlState) : CtlLabel → List CtlInstance
  | .accept _ => dispatching t.thread
  | _ => []

def CtlLabel.ofThread : CtlLabel → Bool
  | .accept _ | .cursor _ | .install | .wake _ | .write => true
  | .poll | .compute | .reply => false

def deliveryStep (hasCursorFn : Bool) (d : Delivery) : DeliveryLabel → Option Delivery
  | .thread l =>
      if l.ofThread = true then
        (ctlStep hasCursorFn d.state l).map fun t ↦
          { d with state := t, accepted := d.accepted ++ newlyAccepted t l }
      else none
  | .poll =>
      let (found, l) := wpCtlListenerPoll d.state.listener
      some { d with
        state := { d.state with listener := l }, polled := d.polled ++ found.toList }
  | .reply response =>
      some { d with
        state := { d.state with listener := wpCtlListenerReply d.state.listener response } }

/-! ## What a later poll may return -/

/-- The request in the mailbox until a poll takes it. -/
def undelivered (l : CtlListener) : List CtlInstance :=
  if l.hasPending = true ∧ l.delivered = false then [l.pendingRequest] else []

def inFlight (s : CtlState) : List CtlInstance := undelivered s.listener ++ dispatching s.thread

theorem poll_undelivered (l : CtlListener) :
    (wpCtlListenerPoll l).1.toList ++ undelivered (wpCtlListenerPoll l).2 = undelivered l := by
  by_cases hdue : l.hasPending = true ∧ l.delivered = false
  · rw [wpCtlListenerPoll, if_pos hdue]
    simp [undelivered, hdue]
  · rw [wpCtlListenerPoll, if_neg hdue]
    rfl

theorem inFlight_finishWait (s : CtlState) (i : CtlInstance) (response : CtlResponse) :
    inFlight (finishWait s i response) = [] := by
  simp [inFlight, undelivered, finishWait, dispatching]

/-- A connection gives its request a fresh number, if it gives one at all. -/
theorem accept_cases (hasCursorFn : Bool) (s : CtlState) (sent : Bytes) :
    (acceptConnection hasCursorFn s sent).listener = s.listener ∧
      (acceptConnection hasCursorFn s sent).nextConn = s.nextConn + 1 ∧
        ((acceptConnection hasCursorFn s sent).thread = s.thread ∨
          ∃ request,
            (acceptConnection hasCursorFn s sent).thread = .callback ⟨s.nextConn, request⟩ ∨
            (acceptConnection hasCursorFn s sent).thread = .dispatch ⟨s.nextConn, request⟩) := by
  simp only [acceptConnection]
  split
  · exact ⟨rfl, rfl, .inl rfl⟩
  · split
    · exact ⟨rfl, rfl, .inl rfl⟩
    · rename_i request _
      split
      · exact ⟨rfl, rfl, .inr ⟨request, .inl rfl⟩⟩
      · exact ⟨rfl, rfl, .inr ⟨request, .inr rfl⟩⟩

/-- The thread puts only what it accepts on its way, with a fresh number. -/
structure ThreadStep (s t : CtlState) (new : List CtlInstance) : Prop where
  inFlight : (inFlight t).Sublist (inFlight s ++ new)
  next : s.nextConn ≤ t.nextConn
  fresh : new = [] ∨ ∃ request, new = [⟨s.nextConn, request⟩] ∧ s.nextConn < t.nextConn

theorem threadStep_accept {s : CtlState} (hthread : s.thread = .accepting) (hasCursorFn : Bool)
    (sent : Bytes) :
    ThreadStep s (acceptConnection hasCursorFn s sent)
      (dispatching (acceptConnection hasCursorFn s sent).thread) := by
  obtain ⟨hlistener, hnext, hpc⟩ := accept_cases hasCursorFn s sent
  have hflight : inFlight s = undelivered s.listener := by
    simp [inFlight, hthread, dispatching]
  refine ⟨?_, by omega, ?_⟩
  · rw [hflight, inFlight, hlistener]
  · rcases hpc with hpc | ⟨request, hpc | hpc⟩
    · exact .inl (by rw [hpc, hthread]; rfl)
    · exact .inl (by rw [hpc]; rfl)
    · exact .inr ⟨request, by rw [hpc]; rfl, by omega⟩

theorem ThreadStep.of_sublist {s t : CtlState} (h : (Ctl.inFlight t).Sublist (Ctl.inFlight s))
    (hnext : t.nextConn = s.nextConn) : ThreadStep s t [] :=
  ⟨by rwa [List.append_nil], hnext.ge, .inl rfl⟩

theorem threadStep_of_step {hasCursorFn : Bool} {s t : CtlState} {l : CtlLabel}
    (hl : l.ofThread = true) (hstep : ctlStep hasCursorFn s l = some t) :
    ThreadStep s t (newlyAccepted t l) := by
  cases l with
  | accept sent =>
      cases hthread : s.thread with
      | accepting =>
          simp only [ctlStep, hthread, Option.some.injEq] at hstep
          exact hstep ▸ threadStep_accept hthread hasCursorFn sent
      | callback | dispatch | waiting | responding => simp [ctlStep, hthread] at hstep
  | cursor response =>
      cases hthread : s.thread with
      | callback i =>
          simp only [ctlStep, hthread, Option.some.injEq] at hstep
          obtain rfl := hstep
          refine .of_sublist ?_ rfl
          simp [inFlight, dispatching]
      | accepting | dispatch | waiting | responding => simp [ctlStep, hthread] at hstep
  | install =>
      cases hthread : s.thread with
      | dispatch i =>
          simp only [ctlStep, hthread, Option.some.injEq] at hstep
          obtain rfl := hstep
          refine .of_sublist ?_ rfl
          -- what an undelivered request was overwritten by came behind it
          simp [inFlight, undelivered, dispatching, hthread]
      | accepting | callback | waiting | responding => simp [ctlStep, hthread] at hstep
  | wake deadline =>
      cases hthread : s.thread with
      | waiting i =>
          simp only [ctlStep, hthread] at hstep
          split at hstep
          · obtain rfl := Option.some.inj hstep
            exact .of_sublist (by rw [inFlight_finishWait]; exact List.nil_sublist _) rfl
          · split at hstep
            · obtain rfl := Option.some.inj hstep
              exact .of_sublist (by rw [inFlight_finishWait]; exact List.nil_sublist _) rfl
            · obtain rfl := Option.some.inj hstep
              exact .of_sublist (List.Sublist.refl _) rfl
      | accepting | callback | dispatch | responding => simp [ctlStep, hthread] at hstep
  | write =>
      cases hthread : s.thread with
      | responding i response =>
          simp only [ctlStep, hthread, Option.some.injEq] at hstep
          obtain rfl := hstep
          refine .of_sublist ?_ rfl
          simp [inFlight, dispatching]
      | accepting | callback | dispatch | waiting => simp [ctlStep, hthread] at hstep
  | poll | compute | reply => simp [CtlLabel.ofThread] at hl

/-! ## The invariant -/

/-- The polled requests and those that a later poll may return are accepted, in
this order; the accepted ones are numbered upwards. -/
structure InOrder (d : Delivery) : Prop where
  sublist : (d.polled ++ inFlight d.state).Sublist d.accepted
  ascending : d.accepted.Pairwise fun i j ↦ i.conn < j.conn
  below : ∀ i ∈ d.accepted, i.conn < d.state.nextConn

theorem InOrder.initial : InOrder .initial :=
  ⟨List.Sublist.refl _, List.Pairwise.nil, by simp [Delivery.initial]⟩

theorem InOrder.thread {d : Delivery} (h : InOrder d) {t : CtlState} {new : List CtlInstance}
    (hstep : ThreadStep d.state t new) :
    InOrder { d with state := t, accepted := d.accepted ++ new } := by
  have hsub : (d.polled ++ inFlight t).Sublist (d.accepted ++ new) := by
    have hflight := hstep.inFlight.append_left d.polled
    rw [← List.append_assoc] at hflight
    exact hflight.trans (h.sublist.append_right new)
  have hnext := hstep.next
  rcases hstep.fresh with rfl | ⟨request, rfl, hlt⟩
  · rw [List.append_nil] at hsub ⊢
    exact ⟨hsub, h.ascending, fun i hi ↦ (h.below i hi).trans_le hnext⟩
  · refine ⟨hsub, ?_, ?_⟩
    · rw [List.pairwise_append]
      refine ⟨h.ascending, List.pairwise_singleton _ _, ?_⟩
      intro i hi j hj
      rw [List.mem_singleton.mp hj]
      exact h.below i hi
    · intro i hi
      rcases List.mem_append.mp hi with hi | hi
      · exact (h.below i hi).trans hlt
      · rw [List.mem_singleton.mp hi]
        exact hlt

theorem InOrder.poll {d : Delivery} (h : InOrder d) :
    InOrder { d with
      state := { d.state with listener := (wpCtlListenerPoll d.state.listener).2 }
      polled := d.polled ++ (wpCtlListenerPoll d.state.listener).1.toList } := by
  refine ⟨?_, h.ascending, h.below⟩
  have hsub := h.sublist
  rw [inFlight, ← poll_undelivered] at hsub
  simpa only [inFlight, List.append_assoc] using hsub

theorem InOrder.step {hasCursorFn : Bool} {d d' : Delivery} {l : DeliveryLabel} (h : InOrder d)
    (hstep : deliveryStep hasCursorFn d l = some d') : InOrder d' := by
  cases l with
  | thread l =>
      rw [deliveryStep] at hstep
      split at hstep
      · rename_i hl
        obtain ⟨t, ht, rfl⟩ := Option.map_eq_some_iff.mp hstep
        exact h.thread (threadStep_of_step hl ht)
      · exact absurd hstep (by simp)
  | poll =>
      obtain rfl := Option.some.inj hstep
      exact h.poll
  | reply response =>
      obtain rfl := Option.some.inj hstep
      exact ⟨h.sublist, h.ascending, h.below⟩

theorem InOrder.nodup {d : Delivery} (h : InOrder d) : d.accepted.Nodup := by
  refine h.ascending.imp ?_
  rintro i j hlt rfl
  exact absurd hlt (Nat.lt_irrefl _)

/-- After any run the polls have returned a subsequence of the accepted requests,
and no instance twice. -/
theorem polled_sublist_accepted {hasCursorFn : Bool} {ls : List DeliveryLabel} {d : Delivery}
    (hrun : exec (deliveryStep hasCursorFn) .initial ls = some d) :
    d.polled.Sublist d.accepted ∧ d.polled.Nodup := by
  have hd : InOrder d := exec_invariant (fun _ _ _ h ht ↦ h.step ht) InOrder.initial hrun
  have hsub : d.polled.Sublist d.accepted := (List.sublist_append_left _ _).trans hd.sublist
  exact ⟨hsub, hd.nodup.sublist hsub⟩

/-- The first request times out before a poll, and a late reply comes for the
second, which is polled once. -/
def latePollRun : List DeliveryLabel :=
  [.thread (.accept (bytesOf "PING\n")), .thread .install, .thread (.wake true), .thread .write,
    .poll, .thread (.accept (bytesOf "DETACH\n")), .thread .install, .reply .ok, .poll, .poll]

theorem polled_sublist_accepted_latePoll :
    ∃ d, exec (deliveryStep true) .initial latePollRun = some d ∧
      d.accepted = [⟨0, .ping⟩, ⟨1, .detach⟩] ∧ d.polled = [⟨1, .detach⟩] ∧
        d.polled.Sublist d.accepted ∧ d.polled.Nodup := by
  refine ⟨_, rfl, by decide, by decide, ?_⟩
  exact @polled_sublist_accepted true latePollRun _ rfl

/-! ## The main loop of the portals -/

/-- The request that is being handled. -/
def inHand : MainPc → List CtlInstance
  | .polled i => [i]
  | _ => []

def CtlState.withMain (s : CtlState) (pc : MainPc) (computed : List (CtlInstance × CtlResponse)) :
    CtlState := { s with mainLoop := pc, computed := computed }

/-- The listener thread does not look at the main loop. -/
theorem ctlStep_withMain (hasCursorFn : Bool) (s : CtlState) (pc : MainPc)
    (computed : List (CtlInstance × CtlResponse)) {l : CtlLabel} (hl : l.ofThread = true) :
    ctlStep hasCursorFn (s.withMain pc computed) l =
      (ctlStep hasCursorFn s l).map fun t ↦ t.withMain pc computed := by
  cases l with
  | accept sent =>
      cases hthread : s.thread with
      | accepting =>
          simp only [ctlStep, CtlState.withMain, hthread, Option.map_some, acceptConnection]
          split
          · rfl
          · split
            · rfl
            · split
              · rfl
              · rfl
      | callback | dispatch | waiting | responding => simp [ctlStep, CtlState.withMain, hthread]
  | cursor response =>
      cases hthread : s.thread with
      | accepting | callback | dispatch | waiting | responding =>
          simp [ctlStep, CtlState.withMain, hthread]
  | install =>
      cases hthread : s.thread with
      | accepting | callback | dispatch | waiting | responding =>
          simp [ctlStep, CtlState.withMain, hthread]
  | wake deadline =>
      cases hthread : s.thread with
      | waiting i =>
          simp only [ctlStep, CtlState.withMain, hthread]
          split
          · rfl
          · split
            · rfl
            · simp [← hthread]
      | accepting | callback | dispatch | responding => simp [ctlStep, CtlState.withMain, hthread]
  | write =>
      cases hthread : s.thread with
      | accepting | callback | dispatch | waiting | responding =>
          simp [ctlStep, CtlState.withMain, hthread]
  | poll | compute | reply => simp [CtlLabel.ofThread] at hl

/-- The two threads differ from a delivery in the main loop alone, and what was
polled is what the main loop computed a response for or still handles. -/
structure Follows (d : Delivery) (s : CtlState) : Prop where
  state : d.state.withMain s.mainLoop s.computed = s
  polled : d.polled = s.computed.map Prod.fst ++ inHand s.mainLoop

/-- An idle main loop polls. -/
theorem Follows.poll {hasCursorFn : Bool} {d : Delivery} {s t : CtlState} (h : Follows d s)
    (hmain : s.mainLoop = .idle) (hstep : ctlStep hasCursorFn s .poll = some t) :
    ∃ ls d', exec (deliveryStep hasCursorFn) d ls = some d' ∧ Follows d' t := by
  have hlistener : d.state.listener = s.listener := by
    rw [← h.state]
    rfl
  rcases hpoll : wpCtlListenerPoll s.listener with ⟨found, l⟩
  have hpolled := h.polled
  have hstate := congrArg (fun s : CtlState ↦ { s with listener := l }) h.state
  have hexec : exec (deliveryStep hasCursorFn) d [.poll] = some { d with
      state := { d.state with listener := l }
      polled := d.polled ++ found.toList } := by
    rw [exec_cons, deliveryStep, hlistener, hpoll]
    rfl
  simp only [hmain, inHand, List.append_nil] at hpolled
  refine ⟨[.poll], _, hexec, ?_⟩
  cases found with
  | none =>
      simp only [ctlStep, hmain, hpoll, Option.some.injEq] at hstep
      obtain rfl := hstep
      refine ⟨?_, ?_⟩
      · rw [← hmain]
        exact hstate
      · simpa [hmain, inHand] using hpolled
  | some i =>
      simp only [ctlStep, hmain, hpoll, Option.some.injEq] at hstep
      obtain rfl := hstep
      refine ⟨congrArg (fun s : CtlState ↦ { s with mainLoop := .polled i }) hstate, ?_⟩
      simp [hpolled, inHand]

/-- Every step of the portal's main loop is a poll, a reply or none. -/
theorem Follows.step {hasCursorFn : Bool} {d : Delivery} {s t : CtlState} {l : CtlLabel}
    (h : Follows d s) (hstep : ctlStep hasCursorFn s l = some t) :
    ∃ ls d', exec (deliveryStep hasCursorFn) d ls = some d' ∧ Follows d' t := by
  by_cases hl : l.ofThread = true
  · rw [← h.state, ctlStep_withMain _ _ _ _ hl] at hstep
    obtain ⟨u, hu, rfl⟩ := Option.map_eq_some_iff.mp hstep
    refine ⟨[.thread l], { d with state := u, accepted := d.accepted ++ newlyAccepted u l }, ?_,
      ⟨rfl, h.polled⟩⟩
    rw [exec_cons, deliveryStep, if_pos hl, hu]
    rfl
  · cases l with
    | accept | cursor | install | wake | write => simp [CtlLabel.ofThread] at hl
    | poll =>
        cases hmain : s.mainLoop with
        | idle => exact h.poll hmain hstep
        | polled | computed => simp [ctlStep, hmain] at hstep
    | compute =>
        cases hmain : s.mainLoop with
        | polled i =>
            simp only [ctlStep, hmain, Option.some.injEq] at hstep
            obtain rfl := hstep
            refine ⟨[], d, rfl, ?_, ?_⟩
            · conv_rhs => rw [← h.state]
              rfl
            · rw [h.polled, hmain]
              simp [inHand]
        | idle | computed => simp [ctlStep, hmain] at hstep
    | reply =>
        cases hmain : s.mainLoop with
        | computed i response =>
            simp only [ctlStep, hmain, Option.some.injEq] at hstep
            obtain rfl := hstep
            refine ⟨[.reply response], _, rfl, ?_, ?_⟩
            · rw [← h.state]
              rfl
            · rw [h.polled, hmain]
              rfl
        | idle | polled => simp [ctlStep, hmain] at hstep

/-- A run of the two threads is a run of the listener thread with some polls and
replies. -/
theorem exists_delivery {hasCursorFn : Bool} {ls : List CtlLabel} {s : CtlState}
    (hrun : exec (ctlStep hasCursorFn) .initial ls = some s) :
    ∃ ls' d, exec (deliveryStep hasCursorFn) .initial ls' = some d ∧ Follows d s := by
  refine @exec_invariant _ _ (ctlStep hasCursorFn) (fun s ↦ ∃ ls' d,
    exec (deliveryStep hasCursorFn) .initial ls' = some d ∧ Follows d s) ?_ _ _ _ ?_ hrun
  · rintro s l t ⟨before, d, hd, hfollows⟩ hstep
    obtain ⟨now, d', hd', hfollows'⟩ := hfollows.step hstep
    exact ⟨before ++ now, d', by rw [exec_append, hd]; exact hd', hfollows'⟩
  · exact ⟨[], .initial, rfl, rfl, rfl⟩

/-- The main loop of the portals computes at most one response for a request. -/
theorem computed_nodup {hasCursorFn : Bool} {ls : List CtlLabel} {s : CtlState}
    (hrun : exec (ctlStep hasCursorFn) .initial ls = some s) :
    (s.computed.map Prod.fst).Nodup := by
  obtain ⟨ls', d, hexec, hfollows⟩ := exists_delivery hrun
  have hd : InOrder d := exec_invariant (fun _ _ _ h ht ↦ h.step ht) InOrder.initial hexec
  have hsub : (s.computed.map Prod.fst).Sublist d.accepted := by
    refine (List.sublist_append_left _ (inHand s.mainLoop)).trans ?_
    rw [← hfollows.polled]
    exact (List.sublist_append_left _ _).trans hd.sublist
  exact hd.nodup.sublist hsub

end Wallpiper.Ctl
