import Wallpiper.Tray.Refresh

/-!
# Layout revisions

A GetLayout reply carries the revision it was copied with.  The revision moves
only when a refresh has fetched a dump, in the refresh's critical section; the
entries move with every dump, and the signal goes out after the mutex is
released.
-/

namespace Wallpiper.Tray

open Foundations

variable {n : ℕ}

/-- Replies that carry one revision describe one entry list. -/
def RevisionsIdentify (s : TrayService n) : Prop :=
  ∀ a ∈ s.replies, ∀ b ∈ s.replies, a.carried ≠ none → a.carried = b.carried →
    a.entries = b.entries

def SignalsIncrease (s : TrayService n) : Prop := s.signals.Pairwise (· < ·)

instance (s : TrayService n) : Decidable (RevisionsIdentify s) :=
  inferInstanceAs (Decidable (∀ a ∈ s.replies, ∀ b ∈ s.replies,
    a.carried ≠ none → a.carried = b.carried → a.entries = b.entries))

instance (s : TrayService n) : Decidable (SignalsIncrease s) :=
  inferInstanceAs (Decidable (s.signals.Pairwise (· < ·)))

/-- The revision that a thread is about to signal. -/
def RefreshPc.unsignalled : RefreshPc → Option UInt32
  | .emitting revision => some revision
  | _ => none

def TrayService.unsignalled (s : TrayService n) (t : Fin n) : Option UInt32 :=
  (s.callers t).pc.unsignalled

/-- A wait ends by its deadline. -/
def ThreadLabel.timesOut : ThreadLabel → Bool
  | .wake timedOut _ => timedOut
  | _ => false

/-- No other thread has yet to signal an older revision. -/
def TrayService.EmitsInOrder (s : TrayService n) (t : Fin n) : Prop :=
  ∀ u, u ≠ t → ∀ r ∈ s.unsignalled t, ∀ r' ∈ s.unsignalled u, r < r'

/-- GetLayout does not come between a dump that changed the entries it told
and the end of a refresh, the revision does not wrap around, and signals go
out in order. -/
def RevisesLayouts (s : TrayService n) : TrayLabel n → Prop
  | .publish _ => True
  | .thread t l =>
      (l = .read → (s.callers t).task ≠ .getGroupProperties → s.changedSinceTold = false) ∧
        (l.timesOut = true → (s.callers t).pc = .settling s.tray.generation →
          s.revision ≠ 0xFFFFFFFF) ∧
        (l = .emit true → s.EmitsInOrder t)

instance decidableEmitsInOrder (s : TrayService n) (t : Fin n) : Decidable (s.EmitsInOrder t) :=
  -- the revisions are read off the threads, not enumerated
  have : ∀ (u : Fin n) (r : UInt32), Decidable (∀ r' ∈ s.unsignalled u, r < r') :=
    fun _ _ ↦ Option.decidableForallMem _
  have : ∀ u : Fin n, Decidable (∀ r ∈ s.unsignalled t, ∀ r' ∈ s.unsignalled u, r < r') :=
    fun _ ↦ Option.decidableForallMem _
  Nat.decidableForallFin fun u ↦
    u ≠ t → ∀ r ∈ s.unsignalled t, ∀ r' ∈ s.unsignalled u, r < r'

instance (s : TrayService n) : ∀ l, Decidable (RevisesLayouts s l)
  | .publish _ => inferInstanceAs (Decidable True)
  | .thread _ _ => inferInstanceAs (Decidable ((_ → _ → _) ∧ (_ → _ → _) ∧ (_ → _)))

/-! ## The invariant -/

/-- Replies carry the revisions up to the current one, those of the current
one its entries, and unsignalled revisions are above the signalled ones. -/
structure Revised (s : TrayService n) : Prop where
  replied : ∀ r ∈ s.replies, r.revision ≤ s.revision
  current : s.changedSinceTold = false → ∀ r ∈ s.replies, r.carried = some s.revision →
    r.entries = s.tray.entries
  identify : RevisionsIdentify s
  pending : ∀ t r, s.unsignalled t = some r → r ≤ s.revision ∧ ∀ x ∈ s.signals, x < r
  apart : ∀ t u r, s.unsignalled t = some r → s.unsignalled u = some r → t = u
  signalled : ∀ x ∈ s.signals, x ≤ s.revision
  increase : SignalsIncrease s

theorem LayoutReply.carried_eq_some {r : LayoutReply} {revision : UInt32}
    (h : r.carried = some revision) : revision = r.revision := by
  unfold carried message handleMenuGetLayout at h
  split at h
  · rename_i revision' node children hmessage
    obtain rfl := Option.some.inj h
    split at hmessage
    · exact (Prod.mk.inj (Except.ok.inj hmessage)).1.symm
    · split at hmessage
      · exact absurd hmessage (by simp)
      · exact (Prod.mk.inj (Except.ok.inj hmessage)).1.symm
  · exact absurd h (by simp)

theorem lt_add_one_of_ne {r : UInt32} (h : r ≠ 0xFFFFFFFF) : r < r + 1 := by
  have hlt := r.toNat_lt
  have hne : r.toNat ≠ 0xFFFFFFFF := fun heq ↦ h (UInt32.toNat_inj.mp heq)
  have hone : (1 : UInt32).toNat = 1 := rfl
  rw [UInt32.lt_iff_toNat_lt, UInt32.toNat_add, hone, Nat.mod_eq_of_lt (by omega)]
  exact Nat.lt_succ_self _

theorem unsignalled_setCaller_of_ne {s : TrayService n} {t u : Fin n} {c : Caller} (hne : u ≠ t) :
    (s.setCaller t c).unsignalled u = s.unsignalled u := by
  rw [TrayService.unsignalled, callers_setCaller_of_ne hne]
  rfl

theorem unsignalled_setCaller_self {s : TrayService n} {t : Fin n} {c : Caller} :
    (s.setCaller t c).unsignalled t = c.pc.unsignalled := by
  rw [TrayService.unsignalled, callers_setCaller_self]

/-- A thread that moves on has nothing left to signal. -/
theorem unsignalled_setCaller {s : TrayService n} {t u : Fin n} {c : Caller} {r : UInt32}
    (hc : c.pc.unsignalled = none) (h : (s.setCaller t c).unsignalled u = some r) :
    u ≠ t ∧ s.unsignalled u = some r := by
  by_cases hut : u = t
  · subst hut
    rw [unsignalled_setCaller_self, hc] at h
    exact absurd h (by simp)
  · rw [unsignalled_setCaller_of_ne hut] at h
    exact ⟨hut, h⟩

namespace Revised

variable {s s' : TrayService n} {t : Fin n} {c : Caller} {pc : RefreshPc} {l : TrayLabel n}

theorem initial : Revised (.initial n) where
  replied := by simp [TrayService.initial]
  current := by simp [TrayService.initial]
  identify := by simp [RevisionsIdentify, TrayService.initial]
  pending := by simp [TrayService.initial, TrayService.unsignalled, RefreshPc.unsignalled]
  apart := by simp [TrayService.initial, TrayService.unsignalled, RefreshPc.unsignalled]
  signalled := by simp [TrayService.initial]
  increase := List.Pairwise.nil

theorem setCaller (h : Revised s) (hc : c.pc.unsignalled = none) :
    Revised (s.setCaller t c) where
  replied := h.replied
  current := h.current
  identify := h.identify
  pending := fun u r hr ↦ h.pending u r (unsignalled_setCaller hc hr).2
  apart := fun u v r hu hv ↦
    h.apart u v r (unsignalled_setCaller hc hu).2 (unsignalled_setCaller hc hv).2
  signalled := h.signalled
  increase := h.increase

theorem goto (h : Revised s) (hpc : pc.unsignalled = none) : Revised (s.goto t pc) :=
  h.setCaller hpc

theorem publish (h : Revised s) (dump : List TrayEntry) : Revised (s.publish dump) where
  replied := h.replied
  current := by
    intro hunchanged r hr hcarried
    obtain ⟨hbefore, hsame⟩ := Bool.or_eq_false_iff.mp hunchanged
    have htold : s.toldRevision = true :=
      List.any_eq_true.mpr ⟨r, hr, beq_iff_eq.mpr hcarried⟩
    rw [htold, Bool.true_and, bne_eq_false_iff_eq] at hsame
    exact (h.current hbefore r hr hcarried).trans hsame.symm
  identify := h.identify
  pending := h.pending
  apart := h.apart
  signalled := h.signalled
  increase := h.increase

/-- The revision that ends a refresh is above all earlier ones. -/
theorem settled (h : Revised s) (hlast : s.revision ≠ 0xFFFFFFFF) :
    Revised (s.finish t false) := by
  have hlt := lt_add_one_of_ne hlast
  have hpending : ∀ u r, (s.goto t (.emitting (s.revision + 1))).unsignalled u = some r →
      u = t ∧ r = s.revision + 1 ∨ u ≠ t ∧ s.unsignalled u = some r := by
    intro u r hr
    by_cases hut : u = t
    · subst hut
      rw [TrayService.goto, unsignalled_setCaller_self] at hr
      exact .inl ⟨rfl, (Option.some.inj hr).symm⟩
    · rw [TrayService.goto, unsignalled_setCaller_of_ne hut] at hr
      exact .inr ⟨hut, hr⟩
  refine ⟨?replied, ?current, h.identify, ?pending, ?apart, ?signalled, h.increase⟩
  case replied =>
    intro r hr
    exact UInt32.le_trans (h.replied r hr) (UInt32.le_of_lt hlt)
  case current =>
    intro _ r hr hcarried
    have hreplied := h.replied r hr
    rw [← LayoutReply.carried_eq_some hcarried] at hreplied
    exact absurd hlt (UInt32.not_lt.mpr hreplied)
  case pending =>
    intro u r hr
    rcases hpending u r hr with ⟨_, rfl⟩ | ⟨_, hr⟩
    · exact ⟨UInt32.le_refl _, fun x hx ↦ UInt32.lt_of_le_of_lt (h.signalled x hx) hlt⟩
    · obtain ⟨hle, hsignals⟩ := h.pending u r hr
      exact ⟨UInt32.le_trans hle (UInt32.le_of_lt hlt), hsignals⟩
  case apart =>
    intro u v r hu hv
    rcases hpending u r hu with ⟨rfl, rfl⟩ | ⟨_, hu⟩
    · rcases hpending v _ hv with ⟨rfl, _⟩ | ⟨_, hv⟩
      · rfl
      · exact absurd hlt (UInt32.not_lt.mpr (h.pending v _ hv).1)
    · rcases hpending v _ hv with ⟨_, rfl⟩ | ⟨_, hv⟩
      · exact absurd hlt (UInt32.not_lt.mpr (h.pending u _ hu).1)
      · exact h.apart u v r hu hv
  case signalled =>
    intro x hx
    exact UInt32.le_trans (h.signalled x hx) (UInt32.le_of_lt hlt)

theorem emitLayoutUpdated (h : Revised s) {revision : UInt32} {made : Bool}
    (hpc : (s.callers t).pc = .emitting revision) (horder : made = true → s.EmitsInOrder t) :
    Revised (s.emitLayoutUpdated t revision made) := by
  have hgoto : Revised (s.goto t (.returning false true)) := h.goto rfl
  cases made with
  | false =>
      exact ⟨hgoto.replied, hgoto.current, hgoto.identify, hgoto.pending, hgoto.apart,
        hgoto.signalled, hgoto.increase⟩
  | true =>
      have hself : s.unsignalled t = some revision := by
        rw [TrayService.unsignalled, hpc]
        rfl
      obtain ⟨hle, hbelow⟩ := h.pending t revision hself
      refine ⟨hgoto.replied, hgoto.current, hgoto.identify, ?pending, hgoto.apart, ?signalled,
        ?increase⟩
      case pending =>
        intro u r hr
        obtain ⟨hne, hother⟩ := unsignalled_setCaller (s := s) rfl hr
        refine ⟨(h.pending u r hother).1, ?_⟩
        intro x hx
        rcases List.mem_append.mp hx with hx | hx
        · exact (h.pending u r hother).2 x hx
        · obtain rfl := List.mem_singleton.mp hx
          exact horder rfl u hne x hself r hother
      case signalled =>
        intro x hx
        rcases List.mem_append.mp hx with hx | hx
        · exact h.signalled x hx
        · obtain rfl := List.mem_singleton.mp hx
          exact hle
      case increase =>
        refine List.pairwise_append.mpr ⟨h.increase, List.pairwise_singleton _ _, ?_⟩
        intro x hx y hy
        obtain rfl := List.mem_singleton.mp hy
        exact hbelow x hx

/-- The reply of a GetLayout call agrees with those before it. -/
theorem read (h : Revised s)
    (hguard : (s.callers t).task ≠ .getGroupProperties → s.changedSinceTold = false) :
    Revised (s.read t) := by
  have hgoto : Revised (s.goto t .idle) := h.goto rfl
  unfold TrayService.read
  split
  · rename_i parentId recursionDepth htask
    have hunchanged := hguard (by simp [htask])
    have hagrees : ∀ r ∈ s.replies,
        r.carried = LayoutReply.carried ⟨s.tray.entries, s.revision, parentId, recursionDepth⟩ →
        r.carried ≠ none → r.entries = s.tray.entries := by
      intro r hr hsame hcarries
      obtain ⟨revision, hrevision⟩ := Option.ne_none_iff_exists'.mp hcarries
      obtain rfl := LayoutReply.carried_eq_some (hsame.symm.trans hrevision)
      exact h.current hunchanged r hr hrevision
    refine ⟨?replied, ?current, ?identify, hgoto.pending, hgoto.apart, h.signalled, h.increase⟩
    case replied =>
      intro r hr
      rcases List.mem_append.mp hr with hr | hr
      · exact h.replied r hr
      · obtain rfl := List.mem_singleton.mp hr
        exact UInt32.le_refl s.revision
    case current =>
      intro _ r hr hcarried
      rcases List.mem_append.mp hr with hr | hr
      · exact h.current hunchanged r hr hcarried
      · obtain rfl := List.mem_singleton.mp hr
        rfl
    case identify =>
      intro a ha b hb hcarries hsame
      rcases List.mem_append.mp ha with ha | ha
      · rcases List.mem_append.mp hb with hb | hb
        · exact h.identify a ha b hb hcarries hsame
        · obtain rfl := List.mem_singleton.mp hb
          exact hagrees a ha hsame hcarries
      · obtain rfl := List.mem_singleton.mp ha
        rcases List.mem_append.mp hb with hb | hb
        · exact (hagrees b hb hsame.symm (hsame ▸ hcarries)).symm
        · obtain rfl := List.mem_singleton.mp hb
          rfl
  · exact hgoto

theorem unsignalled_afterRefresh : (s.afterRefresh t).unsignalled = none := by
  unfold TrayService.afterRefresh
  split
  · rfl
  · rfl

theorem step (h : Revised s) (hguard : RevisesLayouts s l) (hmove : TrayMove s l s') :
    Revised s' := by
  cases hmove with
  | publish dump => exact h.publish dump
  | begin t task hpc =>
      refine h.setCaller ?_
      cases task.ensuresPopulated <;> rfl
  | check t hpc =>
      refine h.goto ?_
      split
      · rfl
      · exact unsignalled_afterRefresh
  | call t hpc => exact h.setCaller rfl
  | join t hpc hbusy => exact h.goto rfl
  | own t hpc hfree =>
      have hgoto : Revised (s.goto t (.clicking s.tray.generation)) := h.goto rfl
      exact ⟨h.replied, h.current, h.identify, hgoto.pending, hgoto.apart, h.signalled, h.increase⟩
  | stay => exact h
  | released t timedOut finalWait hpc hfree => exact h.goto rfl
  | wait t l start pc howns hpc =>
      rcases hpc with rfl | ⟨finalWait, rfl⟩
      · exact h.goto rfl
      · exact h.goto rfl
  | fetched t l start howns hnew => exact h.goto rfl
  | giveUp t timedOut finalWait hpc =>
      have hgoto : Revised (s.goto t (.returning false false)) := h.goto rfl
      exact ⟨h.replied, h.current, h.identify, hgoto.pending, hgoto.apart, h.signalled, h.increase⟩
  | settleAgain t l settled hpc => exact h.goto rfl
  | settled t finalWait hpc => exact h.settled (hguard.2.1 rfl hpc)
  | emit t revision made hpc =>
      exact h.emitLayoutUpdated hpc (fun hmade ↦ hguard.2.2 (congrArg ThreadLabel.emit hmade))
  | returnResult t piggybacked result hpc =>
      have hgoto : Revised (s.goto t (s.afterRefresh t)) := h.goto unsignalled_afterRefresh
      exact ⟨h.replied, h.current, h.identify, hgoto.pending, hgoto.apart, h.signalled, h.increase⟩
  | read t hpc => exact h.read (hguard.1 rfl)

end Revised

/-! ## Runs -/

/-- Revisions identify layouts and signals increase in every run whose copies,
refreshes and signals keep to that order. -/
theorem layouts_revised (n : ℕ) (ls : List (TrayLabel n))
    (hguarded : Guarded trayStep RevisesLayouts (.initial n) ls) :
    Always trayStep (fun s ↦ RevisionsIdentify s ∧ SignalsIncrease s) (.initial n) ls := by
  have hrevised : Always trayStep Revised (.initial n) ls :=
    always_of_guarded (fun s l t h hguard hstep ↦ h.step hguard (trayStep_moves hstep))
      .initial hguarded
  exact hrevised.mono fun s h ↦ ⟨h.identify, h.increase⟩

/-- A thread that replies to GetLayout while there are entries. -/
def getLayout (t : Fin n) : List (TrayLabel n) :=
  [.thread t (.begin (.getLayout 0 (-1))), .thread t .check, .thread t .read]

/-- A refresh up to its signal. -/
def refresh (t : Fin n) (dump : List TrayEntry) : List (TrayLabel n) :=
  [.thread t (.begin .aboutToShow), .thread t .call, .thread t .enter, .publish dump,
    .thread t (.relock false), .thread t (.wake true false)]

theorem layouts_revised_two_refreshes :
    Always trayStep (fun s ↦ RevisionsIdentify s ∧ SignalsIncrease s) (.initial 2)
      (refresh 0 [⟨0, 7, 0, 0, [], 0⟩] ++ [.thread 0 (.emit true)] ++ getLayout 1 ++
        refresh 1 [⟨0, 8, 0, 0, [], 0⟩] ++ [.thread 1 (.emit true), .thread 1 .returnResult] ++
        getLayout 1) :=
  layouts_revised 2 _ (by decide +kernel)

/-- A dump comes between two GetLayout calls, and two refreshes signal in the
wrong order. -/
theorem revisions_do_not_identify :
    ¬ Always trayStep RevisionsIdentify (.initial 1)
        ([.publish [⟨0, 7, 0, 0, [], 0⟩]] ++ getLayout 0 ++ [.publish [⟨0, 8, 0, 0, [], 0⟩]] ++
          getLayout 0) ∧
      ¬ Always trayStep SignalsIncrease (.initial 2)
        (refresh 0 [⟨0, 7, 0, 0, [], 0⟩] ++ refresh 1 [⟨0, 8, 0, 0, [], 0⟩] ++
          [.thread 1 (.emit true), .thread 0 (.emit true)]) := by
  constructor
  · decide +kernel
  · decide +kernel

end Wallpiper.Tray
