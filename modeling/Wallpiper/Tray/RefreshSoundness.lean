import Wallpiper.Foundations.Claims
import Wallpiper.Tray.Refresh

/-!
# What a refresh reports

A refresh in progress has one owner, and an owner that reports success has
seen a dump that came after its call.  A thread that waits for another's
refresh reports only that there are entries, which may be older than its call.
-/

namespace Wallpiper.Tray

open Foundations

variable {n : ℕ}

/-- At most one thread owns the refresh. -/
def OneOwner (s : TrayService n) : Prop :=
  ∀ t u, (s.callers t).pc.owns = true → (s.callers u).pc.owns = true → t = u

/-- A call that returned true saw a dump published between its call and its
return. -/
def RefreshReturn.Justified (r : RefreshReturn) : Prop :=
  r.result = true → r.calledAt < r.returnedAt

/-- An AboutToShow reply carries the result as `needUpdate`. -/
def ReturnsJustified (s : TrayService n) : Prop := ∀ r ∈ s.returns, r.Justified

def OwnReturnsJustified (s : TrayService n) : Prop :=
  ∀ r ∈ s.returns, r.piggybacked = false → r.Justified

instance (r : RefreshReturn) : Decidable r.Justified :=
  inferInstanceAs (Decidable (r.result = true → r.calledAt < r.returnedAt))

instance (s : TrayService n) : Decidable (ReturnsJustified s) :=
  inferInstanceAs (Decidable (∀ r ∈ s.returns, r.Justified))

/-- A thread that joins a refresh finds its dump still to come, or one was
published since its own call. -/
def TrayService.JoinsInTime (s : TrayService n) (t : Fin n) : Prop :=
  (s.callers t).calledAt < s.publications ∨ s.publications = s.startedAt ∨ s.tray.entries = []

/-- Every thread that waits has seen a dump published since its call. -/
def TrayService.WaitersServed (s : TrayService n) : Prop :=
  ∀ u, (s.callers u).pc = .piggybacking → (s.callers u).calledAt < s.publications

/-- No thread joins a refresh too late, and no owner gives up on a thread that
waits for a dump while there are older entries. -/
def RefreshesServeWaiters (s : TrayService n) : TrayLabel n → Prop
  | .publish _ => True
  | .thread t _ =>
      ((s.callers t).pc = .called → s.refreshInProgress = true → s.JoinsInTime t) ∧
        ((s.callers t).pc = .timedWait s.tray.generation true →
          s.tray.entries = [] ∨ s.WaitersServed)

instance (s : TrayService n) (t : Fin n) : Decidable (s.JoinsInTime t) :=
  inferInstanceAs (Decidable (_ ∨ _ ∨ _))

instance (s : TrayService n) : Decidable s.WaitersServed :=
  Nat.decidableForallFin fun u ↦
    (s.callers u).pc = .piggybacking → (s.callers u).calledAt < s.publications

instance (s : TrayService n) : ∀ l, Decidable (RefreshesServeWaiters s l)
  | .publish _ => inferInstanceAs (Decidable True)
  | .thread _ _ => inferInstanceAs (Decidable ((_ → _ → _) ∧ (_ → _)))

/-! ## The owner -/

theorem generation_assignDbusId (st : WpTrayState) (isSeparator : Bool) (depth : ℕ)
    (anchor ordinal : UInt32) :
    (assignDbusId st isSeparator depth anchor ordinal).2.generation = st.generation := by
  simp only [assignDbusId]
  split
  · rfl
  · split
    · rfl
    · rfl

theorem generation_assignStableDbusIdsFrom (scan : DepthScan) (st : WpTrayState)
    (dump : List TrayEntry) :
    (assignStableDbusIdsFrom scan st dump).2.generation = st.generation := by
  induction dump generalizing scan st with
  | nil => rfl
  | cons e es ih =>
      simp only [assignStableDbusIdsFrom]
      rw [ih, generation_assignDbusId]

theorem generation_onMenuDumpChanged (st : WpTrayState) (dump : List TrayEntry) :
    (wpTrayStateOnMenuDumpChanged st dump).generation = st.generation + 1 :=
  congrArg (· + 1) (generation_assignStableDbusIdsFrom .zero st dump)

def RefreshPc.claim (pc : RefreshPc) : Option Unit := if pc.owns then some () else none

theorem RefreshPc.claim_eq_some {pc : RefreshPc} : pc.claim = some () ↔ pc.owns = true := by
  simp [claim]

theorem RefreshPc.claim_eq_none {pc : RefreshPc} : pc.claim = none ↔ pc.owns = false := by
  simp [claim]

def TrayService.claims (s : TrayService n) (t : Fin n) : Option Unit := (s.callers t).pc.claim

theorem claims_setCaller (s : TrayService n) (t : Fin n) (c : Caller) :
    (s.setCaller t c).claims = Function.update s.claims t c.pc.claim := by
  funext u
  by_cases hut : u = t
  · subst hut
    rw [TrayService.claims, callers_setCaller_self, Function.update_self]
  · rw [TrayService.claims, callers_setCaller_of_ne hut, Function.update_of_ne hut]
    rfl

theorem update_unit (inUse : Unit → Bool) (b : Bool) :
    Function.update inUse () b = fun _ ↦ b := by
  funext
  exact Function.update_self ..

/-- What a thread knows of the dumps published since its call. -/
def Caller.Sound (published started : ℕ) (c : Caller) : Prop :=
  match c.pc with
  | .called => c.calledAt ≤ published
  | .piggybacking => c.calledAt ≤ published
  | .clicking start => start = .ofNat started ∧ c.calledAt ≤ started
  | .timedWait start _ => start = .ofNat started ∧ c.calledAt ≤ started
  | .settling _ => c.calledAt ≤ started ∧ started < published
  | .emitting _ => c.calledAt < published
  | .returning piggybacked result =>
      result = true → piggybacked = false → c.calledAt < published
  | _ => True

theorem Caller.Sound.publish {published started : ℕ} {c : Caller}
    (h : c.Sound published started) : c.Sound (published + 1) started := by
  unfold Caller.Sound at h ⊢
  split at h
  · exact h.trans (Nat.le_succ _)
  · exact h.trans (Nat.le_succ _)
  · exact h
  · exact h
  · exact ⟨h.1, h.2.trans (Nat.lt_succ_self _)⟩
  · exact h.trans (Nat.lt_succ_self _)
  · exact fun hresult hown ↦ (h hresult hown).trans (Nat.lt_succ_self _)
  · exact h

/-- Only the owner remembers when the refresh started. -/
theorem Caller.Sound.restart {published started : ℕ} {c : Caller}
    (h : c.Sound published started) (howns : c.pc.owns = false) (started' : ℕ) :
    c.Sound published started' := by
  unfold Caller.Sound at h ⊢
  split at h
  case h_3 hpc => exact absurd howns (by simp [hpc, RefreshPc.owns])
  case h_4 hpc => exact absurd howns (by simp [hpc, RefreshPc.owns])
  case h_5 hpc => exact absurd howns (by simp [hpc, RefreshPc.owns])
  all_goals exact h

structure Refreshing (s : TrayService n) : Prop where
  generation : s.tray.generation = .ofNat s.publications
  started : s.startedAt ≤ s.publications
  held : Held (fun _ : Unit ↦ s.refreshInProgress) s.claims
  callers : ∀ t, (s.callers t).Sound s.publications s.startedAt
  returns : OwnReturnsJustified s

namespace Refreshing

variable {s s' : TrayService n} {t : Fin n} {c : Caller} {pc : RefreshPc} {l : TrayLabel n}

theorem initial : Refreshing (.initial n) := by
  refine ⟨rfl, Nat.le_refl _, Held.unclaimed, fun t ↦ trivial, ?_⟩
  intro r hr
  exact absurd hr (by simp [TrayService.initial])

theorem oneOwner (h : Refreshing s) : OneOwner s := by
  intro t u ht hu
  exact h.held.exclusive t u () (RefreshPc.claim_eq_some.mpr ht) (RefreshPc.claim_eq_some.mpr hu)

theorem unowned (h : Refreshing s) (hfree : s.refreshInProgress = false) (t : Fin n) :
    (s.callers t).pc.owns = false := by
  by_contra howns
  have hclaim : s.claims t = some () := RefreshPc.claim_eq_some.mpr (by simpa using howns)
  have hbusy := (h.held.marked ()).mpr ⟨t, hclaim⟩
  exact absurd (hfree.symm.trans hbusy) (by simp)

theorem publish (h : Refreshing s) (dump : List TrayEntry) : Refreshing (s.publish dump) where
  generation := by
    change (wpTrayStateOnMenuDumpChanged s.tray dump).generation = _
    rw [generation_onMenuDumpChanged, h.generation]
    exact (UInt64.ofNat_add _ _).symm
  started := h.started.trans (Nat.le_succ _)
  held := h.held
  callers := fun t ↦ (h.callers t).publish
  returns := h.returns

/-- A thread moves and stays owner, or stays none. -/
theorem setCaller (h : Refreshing s) (hclaim : c.pc.owns = (s.callers t).pc.owns)
    (hc : c.Sound s.publications s.startedAt) : Refreshing (s.setCaller t c) where
  generation := h.generation
  started := h.started
  held := by
    have hsame : c.pc.claim = s.claims t := by
      rw [TrayService.claims, RefreshPc.claim, RefreshPc.claim, hclaim]
    rw [claims_setCaller, hsame, Function.update_eq_self]
    exact h.held
  callers := forall_setCaller h.callers hc
  returns := h.returns

theorem goto (h : Refreshing s) (hclaim : pc.owns = (s.callers t).pc.owns)
    (hc : { s.callers t with pc := pc }.Sound s.publications s.startedAt) :
    Refreshing (s.goto t pc) :=
  h.setCaller hclaim hc

theorem own (h : Refreshing s) (hpc : (s.callers t).pc = .called)
    (hfree : s.refreshInProgress = false) : Refreshing (s.own t) where
  generation := h.generation
  started := Nat.le_refl _
  held := by
    have hclaim : s.claims t = none := RefreshPc.claim_eq_none.mpr (h.unowned hfree t)
    have hheld := h.held.acquire (c := ()) hfree hclaim
    rw [update_unit] at hheld
    exact (claims_setCaller s t _).symm ▸ hheld
  callers := by
    have hcalled := h.callers t
    rw [Caller.Sound, hpc] at hcalled
    exact forall_setCaller (fun u ↦ (h.callers u).restart (h.unowned hfree u) _)
      ⟨h.generation, hcalled⟩
  returns := h.returns

/-- The owner leaves its critical section with or without a dump. -/
theorem release (h : Refreshing s) (howns : (s.callers t).pc.owns = true) (pc : RefreshPc)
    (hpc : pc.owns = false)
    (hc : { s.callers t with pc := pc }.Sound s.publications s.startedAt) (revision : UInt32) :
    Refreshing { s.goto t pc with revision := revision, refreshInProgress := false } where
  generation := h.generation
  started := h.started
  held := by
    have hheld := h.held.release (c := ()) (RefreshPc.claim_eq_some.mpr howns)
    rw [update_unit, ← RefreshPc.claim_eq_none.mpr hpc] at hheld
    exact (claims_setCaller s t _).symm ▸ hheld
  callers := forall_setCaller h.callers hc
  returns := h.returns

theorem finish (h : Refreshing s) (howns : (s.callers t).pc.owns = true) {timedOut : Bool}
    (hc : timedOut = false → (s.callers t).calledAt < s.publications) :
    Refreshing (s.finish t timedOut) := by
  cases timedOut with
  | true =>
      exact h.release howns (.returning false false) rfl
        (fun hfalse ↦ absurd hfalse (by simp)) s.revision
  | false =>
      have hleft := h.release howns (.emitting (s.revision + 1)) rfl (hc rfl) (s.revision + 1)
      exact ⟨hleft.generation, hleft.started, hleft.held, hleft.callers, hleft.returns⟩

theorem emitLayoutUpdated (h : Refreshing s) {revision : UInt32}
    (hpc : (s.callers t).pc = .emitting revision) (made : Bool) :
    Refreshing (s.emitLayoutUpdated t revision made) := by
  have hcaller := h.callers t
  rw [Caller.Sound, hpc] at hcaller
  have hgoto : Refreshing (s.goto t (.returning false true)) :=
    h.goto (by rw [hpc]; rfl) (fun _ _ ↦ hcaller)
  exact ⟨hgoto.generation, hgoto.started, hgoto.held, hgoto.callers, hgoto.returns⟩

theorem afterRefresh_owns : (s.afterRefresh t).owns = false := by
  unfold TrayService.afterRefresh
  split
  · rfl
  · rfl

theorem sound_afterRefresh {published started : ℕ} :
    { c with pc := s.afterRefresh t }.Sound published started := by
  unfold TrayService.afterRefresh
  split
  · trivial
  · trivial

theorem returnResult (h : Refreshing s) {piggybacked result : Bool}
    (hpc : (s.callers t).pc = .returning piggybacked result) :
    Refreshing (s.returnResult t piggybacked result) := by
  have hcaller := h.callers t
  rw [Caller.Sound, hpc] at hcaller
  have hgoto : Refreshing (s.goto t (s.afterRefresh t)) :=
    h.goto (by rw [hpc, afterRefresh_owns]; rfl) sound_afterRefresh
  refine ⟨hgoto.generation, hgoto.started, hgoto.held, hgoto.callers, ?_⟩
  intro r hr hown hresult
  rcases List.mem_append.mp hr with hr | hr
  · exact h.returns r hr hown hresult
  · obtain rfl := List.mem_singleton.mp hr
    obtain rfl : piggybacked = false := hown
    obtain rfl : result = true := hresult
    exact hcaller rfl rfl

theorem read (h : Refreshing s) (hpc : (s.callers t).pc = .reading) : Refreshing (s.read t) := by
  have hgoto : Refreshing (s.goto t .idle) := h.goto (by rw [hpc]; rfl) trivial
  unfold TrayService.read
  split
  · exact ⟨hgoto.generation, hgoto.started, hgoto.held, hgoto.callers, hgoto.returns⟩
  · exact hgoto

/-- The owner's generation differs from the one it started at only if a dump
was published since. -/
theorem published (h : Refreshing s) {start : UInt64} (hstart : start = .ofNat s.startedAt)
    (hnew : s.tray.generation ≠ start) : s.startedAt < s.publications := by
  refine lt_of_le_of_ne h.started ?_
  intro heq
  rw [hstart, heq] at hnew
  exact hnew h.generation

/-- A thread in its first wait remembers when the refresh started. -/
theorem first_wait (h : Refreshing s) {start : UInt64}
    (hpc : (s.callers t).pc = .clicking start ∨
      ∃ finalWait, (s.callers t).pc = .timedWait start finalWait) :
    (s.callers t).pc.owns = true ∧ start = .ofNat s.startedAt ∧
      (s.callers t).calledAt ≤ s.startedAt := by
  have hcaller := h.callers t
  rcases hpc with hpc | ⟨finalWait, hpc⟩
  · rw [Caller.Sound, hpc] at hcaller
    exact ⟨by rw [hpc]; rfl, hcaller⟩
  · rw [Caller.Sound, hpc] at hcaller
    exact ⟨by rw [hpc]; rfl, hcaller⟩

theorem second_wait (h : Refreshing s) {settled : UInt64}
    (hpc : (s.callers t).pc = .settling settled) :
    (s.callers t).pc.owns = true ∧ (s.callers t).calledAt ≤ s.startedAt ∧
      s.startedAt < s.publications := by
  have hcaller := h.callers t
  rw [Caller.Sound, hpc] at hcaller
  exact ⟨by rw [hpc]; rfl, hcaller⟩

theorem step (h : Refreshing s) (hmove : TrayMove s l s') : Refreshing s' := by
  cases hmove with
  | publish dump => exact h.publish dump
  | begin t task hpc =>
      refine h.setCaller ?_ ?_
      · rw [hpc]
        cases task.ensuresPopulated <;> rfl
      · cases hensures : task.ensuresPopulated <;> simp [Caller.Sound]
  | check t hpc =>
      refine h.goto ?_ ?_
      · rw [hpc]
        split
        · rfl
        · exact afterRefresh_owns
      · split
        · trivial
        · exact sound_afterRefresh
  | call t hpc => exact h.setCaller (by rw [hpc]; rfl) (Nat.le_refl _)
  | join t hpc hbusy =>
      have hcaller := h.callers t
      rw [Caller.Sound, hpc] at hcaller
      exact h.goto (by rw [hpc]; rfl) hcaller
  | own t hpc hfree => exact h.own hpc hfree
  | stay => exact h
  | released t timedOut finalWait hpc hfree =>
      exact h.goto (by rw [hpc]; rfl) (fun _ hfalse ↦ absurd hfalse (by simp))
  | wait t l start pc howns hpc =>
      obtain ⟨howner, hstart, hcalled⟩ := h.first_wait howns
      rcases hpc with rfl | ⟨finalWait, rfl⟩
      · exact h.goto howner.symm ⟨hstart, hcalled⟩
      · exact h.goto howner.symm ⟨hstart, hcalled⟩
  | fetched t l start howns hnew =>
      obtain ⟨howner, hstart, hcalled⟩ := h.first_wait howns
      exact h.goto howner.symm ⟨hcalled, h.published hstart hnew⟩
  | giveUp t timedOut finalWait hpc =>
      obtain ⟨howner, _⟩ := h.first_wait (.inr ⟨true, hpc⟩)
      exact h.finish howner (fun hfalse ↦ absurd hfalse (by simp))
  | settleAgain t l settled hpc =>
      obtain ⟨howner, hsound⟩ := h.second_wait hpc
      exact h.goto howner.symm hsound
  | settled t finalWait hpc =>
      obtain ⟨howner, hcalled, hpublished⟩ := h.second_wait hpc
      exact h.finish howner (fun _ ↦ hcalled.trans_lt hpublished)
  | emit t revision made hpc => exact h.emitLayoutUpdated hpc made
  | returnResult t piggybacked result hpc => exact h.returnResult hpc
  | read t hpc => exact h.read hpc

end Refreshing

/-! ## Threads that wait -/

/-- The dump of the refresh in progress is still to come, or there is nothing
to report. -/
def TrayService.Awaited (s : TrayService n) : Prop :=
  (s.refreshInProgress = true ∧ s.publications = s.startedAt) ∨ s.tray.entries = []

def Caller.Served (published : ℕ) (awaited : Prop) (c : Caller) : Prop :=
  match c.pc with
  | .piggybacking => c.calledAt < published ∨ awaited
  | .emitting _ => c.calledAt < published
  | .returning _ result => result = true → c.calledAt < published
  | _ => True

structure Serving (s : TrayService n) : Prop where
  callers : ∀ t, (s.callers t).Served s.publications s.Awaited
  returns : ReturnsJustified s

theorem Caller.Served.mono {published : ℕ} {awaited awaited' : Prop} {c : Caller}
    (h : c.Served published awaited)
    (hwaits : c.pc = .piggybacking → awaited → c.calledAt < published ∨ awaited') :
    c.Served published awaited' := by
  unfold Caller.Served at h ⊢
  split at h
  case h_1 hpc =>
    rcases h with hlt | hawaited
    · exact .inl hlt
    · exact hwaits hpc hawaited
  all_goals exact h

theorem Caller.Served.publish {published started : ℕ} {awaited awaited' : Prop} {c : Caller}
    (h : c.Served published awaited) (hsound : c.Sound published started) :
    c.Served (published + 1) awaited' := by
  unfold Caller.Served at h ⊢
  split at h
  case h_1 hpc =>
    rw [Caller.Sound, hpc] at hsound
    exact .inl (Nat.lt_succ_of_le hsound)
  case h_2 => exact h.trans (Nat.lt_succ_self _)
  case h_3 => exact fun hresult ↦ (h hresult).trans (Nat.lt_succ_self _)
  case h_4 => trivial

namespace Serving

variable {s s' : TrayService n} {t : Fin n} {c : Caller} {pc : RefreshPc} {l : TrayLabel n}

theorem initial : Serving (.initial n) := by
  refine ⟨fun t ↦ trivial, ?_⟩
  intro r hr
  exact absurd hr (by simp [TrayService.initial])

theorem setCaller (h : Serving s) (hc : c.Served s.publications s.Awaited) :
    Serving (s.setCaller t c) :=
  ⟨forall_setCaller h.callers hc, h.returns⟩

theorem goto (h : Serving s) (hc : { s.callers t with pc := pc }.Served s.publications s.Awaited) :
    Serving (s.goto t pc) :=
  h.setCaller hc

theorem publish (h : Serving s) (href : Refreshing s) (dump : List TrayEntry) :
    Serving (s.publish dump) :=
  ⟨fun t ↦ (h.callers t).publish (href.callers t), h.returns⟩

theorem own (h : Serving s) : Serving (s.own t) := by
  have hawaited : (s.own t).Awaited := .inl ⟨rfl, rfl⟩
  have hcallers : ∀ u, (s.callers u).Served s.publications (s.own t).Awaited := fun u ↦
    (h.callers u).mono fun _ _ ↦ .inr hawaited
  exact ⟨forall_setCaller hcallers trivial, h.returns⟩

/-- The threads that wait for a refresh that ends have been served, or there
is nothing to report. -/
theorem finish (h : Serving s) {timedOut : Bool}
    (hc : timedOut = false → (s.callers t).calledAt < s.publications)
    (hwaits : s.tray.entries = [] ∨ s.publications ≠ s.startedAt ∨ s.WaitersServed) :
    Serving (s.finish t timedOut) := by
  have hcallers : ∀ u, (s.callers u).Served s.publications (s.tray.entries = []) := by
    intro u
    refine (h.callers u).mono ?_
    rintro hpc (⟨_, heq⟩ | hempty)
    · rcases hwaits with hempty | hne | hserved
      · exact .inr hempty
      · exact absurd heq hne
      · exact .inl (hserved u hpc)
    · exact .inr hempty
  have hafter : ∀ u, (s.callers u).Served s.publications (s.finish t timedOut).Awaited := by
    intro u
    refine (hcallers u).mono fun _ hempty ↦ .inr (.inr ?_)
    cases timedOut with
    | true => exact hempty
    | false => exact hempty
  cases timedOut with
  | true => exact ⟨forall_setCaller hafter fun hfalse ↦ absurd hfalse (by simp), h.returns⟩
  | false => exact ⟨forall_setCaller hafter (hc rfl), h.returns⟩

theorem served_afterRefresh {published : ℕ} {awaited : Prop} :
    { c with pc := s.afterRefresh t }.Served published awaited := by
  unfold TrayService.afterRefresh
  split
  · trivial
  · trivial

theorem returnResult (h : Serving s) {piggybacked result : Bool}
    (hpc : (s.callers t).pc = .returning piggybacked result) :
    Serving (s.returnResult t piggybacked result) := by
  refine ⟨forall_setCaller h.callers served_afterRefresh, ?_⟩
  intro r hr hresult
  rcases List.mem_append.mp hr with hr | hr
  · exact h.returns r hr hresult
  · obtain rfl := List.mem_singleton.mp hr
    obtain rfl : result = true := hresult
    have hcaller := h.callers t
    rw [Caller.Served, hpc] at hcaller
    exact hcaller rfl

theorem read (h : Serving s) : Serving (s.read t) := by
  have hgoto : Serving (s.goto t .idle) := h.goto trivial
  unfold TrayService.read
  split
  · exact ⟨hgoto.callers, hgoto.returns⟩
  · exact hgoto

theorem step (h : Serving s) (href : Refreshing s) (hguard : RefreshesServeWaiters s l)
    (hmove : TrayMove s l s') : Serving s' := by
  cases hmove with
  | publish dump => exact h.publish href dump
  | begin t task hpc =>
      refine h.setCaller ?_
      cases hensures : task.ensuresPopulated <;> simp [Caller.Served]
  | check t hpc =>
      refine h.goto ?_
      split
      · trivial
      · exact served_afterRefresh
  | call t hpc => exact h.setCaller trivial
  | join t hpc hbusy =>
      refine h.goto ?_
      rcases hguard.1 hpc hbusy with hlt | hcoming | hempty
      · exact .inl hlt
      · exact .inr (.inl ⟨hbusy, hcoming⟩)
      · exact .inr (.inr hempty)
  | own t hpc hfree => exact h.own
  | stay => exact h
  | released t timedOut finalWait hpc hfree =>
      refine h.goto ?_
      have hcaller := h.callers t
      rw [Caller.Served, hpc] at hcaller
      intro hentries
      have hsome : s.tray.entries ≠ [] := List.length_pos_iff.mp (of_decide_eq_true hentries)
      rcases hcaller with hlt | ⟨hbusy, _⟩ | hempty
      · exact hlt
      · exact absurd (hfree.symm.trans hbusy) (by simp)
      · exact absurd hempty hsome
  | wait t l start pc howns hpc =>
      rcases hpc with rfl | ⟨finalWait, rfl⟩
      · exact h.goto trivial
      · exact h.goto trivial
  | fetched t l start howns hnew => exact h.goto trivial
  | giveUp t timedOut finalWait hpc =>
      refine h.finish (fun hfalse ↦ absurd hfalse (by simp)) ?_
      rcases hguard.2 hpc with hempty | hserved
      · exact .inl hempty
      · exact .inr (.inr hserved)
  | settleAgain t l settled hpc => exact h.goto trivial
  | settled t finalWait hpc =>
      obtain ⟨_, hcalled, hpublished⟩ := href.second_wait hpc
      exact h.finish (fun _ ↦ hcalled.trans_lt hpublished) (.inr (.inl hpublished.ne'))
  | emit t revision made hpc =>
      have hcaller := h.callers t
      rw [Caller.Served, hpc] at hcaller
      have hgoto : Serving (s.goto t (.returning false true)) := h.goto (fun _ ↦ hcaller)
      exact ⟨hgoto.callers, hgoto.returns⟩
  | returnResult t piggybacked result hpc => exact h.returnResult hpc
  | read t hpc => exact h.read

end Serving

/-! ## Runs -/

/-- In every run at most one thread owns the refresh and an owner's report is
justified; every report is where refreshes serve the threads that wait. -/
theorem refresh_soundness (n : ℕ) (ls : List (TrayLabel n)) :
    Always trayStep (fun s ↦ OneOwner s ∧ OwnReturnsJustified s) (.initial n) ls ∧
      (Guarded trayStep RefreshesServeWaiters (.initial n) ls →
        Always trayStep (fun s ↦ OneOwner s ∧ ReturnsJustified s) (.initial n) ls) := by
  have hrefreshing : Always trayStep Refreshing (.initial n) ls :=
    always_of_step (fun s l t h hstep ↦ h.step (trayStep_moves hstep)) .initial ls
  refine ⟨hrefreshing.mono fun s h ↦ ⟨h.oneOwner, h.returns⟩, ?_⟩
  intro hguarded
  have hserving : Always trayStep (fun s ↦ Refreshing s ∧ Serving s) (.initial n) ls := by
    refine always_of_guarded ?_ ⟨.initial, .initial⟩ hguarded
    rintro s l t ⟨href, hserv⟩ hguard hstep
    have hmove := trayStep_moves hstep
    exact ⟨href.step hmove, hserv.step href hguard hmove⟩
  exact hserving.mono fun s h ↦ ⟨h.1.oneOwner, h.2.returns⟩

/-- The threads of a run: one in the middle of a refresh and one that joined
it. -/
def iconRefreshJoined (dump : List TrayEntry) : List (TrayLabel 2) :=
  [.publish dump,
    .thread 0 (.begin .iconChanged), .thread 0 .call, .thread 0 .enter,
    .thread 1 (.begin .aboutToShow), .thread 1 .call, .thread 1 .enter,
    .thread 0 (.relock false), .thread 0 (.wake true false)]

/-- The dump comes and both report it. -/
theorem refresh_soundness_joined :
    Always trayStep (fun s ↦ OneOwner s ∧ ReturnsJustified s) (.initial 2)
      (iconRefreshJoined [⟨0, 7, 0, 0, [], 0⟩] ++
        [.publish [⟨0, 8, 0, 0, [], 0⟩], .thread 0 (.relock false), .thread 0 (.wake true false),
          .thread 0 (.emit true), .thread 0 .returnResult, .thread 1 (.wake false false),
          .thread 1 .returnResult]) :=
  (refresh_soundness 2 _).2 (by decide +kernel)

/-- The loader never answers: the owner gives up, and the thread that joined it
reports the entries that were there before. -/
theorem reports_old_entries :
    ¬ Always trayStep (fun s ↦ OneOwner s ∧ ReturnsJustified s) (.initial 2)
      (iconRefreshJoined [⟨0, 7, 0, 0, [], 0⟩] ++
        [.thread 0 (.relock true), .thread 0 (.wake true false), .thread 0 .returnResult,
          .thread 1 (.wake false false), .thread 1 .returnResult]) := by
  intro halways
  have hreturns := halways.mono fun s h ↦ h.2
  exact absurd hreturns (by decide +kernel)

end Wallpiper.Tray
