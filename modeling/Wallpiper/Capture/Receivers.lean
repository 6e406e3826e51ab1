import Wallpiper.Capture.LayerSteps
import Wallpiper.Foundations.Precedence
import Wallpiper.Foundations.Runs

/-!
# The capture link and the portal instances behind it

Every device has a link that connects to whichever portal instance owns the
socket path, and reconnects after a failed send.  A slot is marked as sent
once and for all, so a frame follows its buffer only as long as the link is
not reconnected to an instance that never got the buffer.
-/

namespace Wallpiper.Capture

open Foundations

/-- The instance the socket is connected to, and the last one it was. -/
structure CaptureLink where
  sock : Option ℕ
  lastPeer : Option ℕ
  deriving DecidableEq, Repr

/-- Portal instances are numbered as they start.  The last one owns the socket
path; `delivered` records what arrived at which instance. -/
structure LinkState where
  layer : CaptureLayer
  links : ℕ → CaptureLink
  owner : Option ℕ
  alive : ℕ → Bool
  started : ℕ
  delivered : List (ℕ × CaptureMessage)

def LinkState.initial : LinkState :=
  { layer := .initial, links := fun _ ↦ ⟨none, none⟩, owner := none, alive := fun _ ↦ false
    started := 0, delivered := [] }

def LinkState.setLink (s : LinkState) (d : ℕ) (link : CaptureLink) : LinkState :=
  { s with links := Function.update s.links d link }

theorem LinkState.setLink_self (s : LinkState) (d : ℕ) (link : CaptureLink) :
    (s.setLink d link).links d = link :=
  Function.update_self ..

theorem LinkState.setLink_of_ne (s : LinkState) {d e : ℕ} (h : e ≠ d) (link : CaptureLink) :
    (s.setLink d link).links e = s.links e :=
  Function.update_of_ne h ..

/-- The instance that `connect` reaches. -/
def LinkState.listening (s : LinkState) : Option ℕ := s.owner.filter s.alive

def ensureConnected (s : LinkState) (link : CaptureLink) (socketOk : Bool) : CaptureLink :=
  match link.sock with
  | some _ => link
  | none =>
      if socketOk = false then link
      else
        match s.listening with
        | none => link
        | some r => ⟨some r, some r⟩

def resetLink (link : CaptureLink) : CaptureLink := { link with sock := none }

/-- A send to a live instance may still fail. -/
def sendWithFds (s : LinkState) (d : ℕ) (message : CaptureMessage) (socketOk sendOk : Bool) :
    LinkState × Bool :=
  let link := ensureConnected s (s.links d) socketOk
  match link.sock with
  | none => (s.setLink d link, false)
  | some r =>
      if sendOk && s.alive r then
        ({ s.setLink d link with delivered := s.delivered ++ [(r, message)] }, true)
      else (s.setLink d (resetLink link), false)

def captureAndNotify (s : LinkState) (d : ℕ) (swapchain : UInt64) (imageIndex : UInt32)
    (driver : DriverAnswers) (socketOk sendOk : Bool) : LinkState :=
  match wpCaptureAndNotify s.layer d swapchain imageIndex driver with
  | (layer, none) => { s with layer := layer }
  | (layer, some notice) =>
      let sent := sendWithFds { s with layer := layer } d notice.message socketOk sendOk
      if sent.2 then { sent.1 with layer := markBufSent layer d notice } else sent.1

inductive LinkLabel where
  | register (device : ℕ) (swapchain : UInt64) (info : SwapchainInfo)
  | teardown (device : ℕ) (swapchain : UInt64) (fenceWait : SlotIndex → Bool)
  | removeDevice (device : ℕ)
  | present (device : ℕ) (swapchain : UInt64) (imageIndex : UInt32) (driver : DriverAnswers)
      (socketOk sendOk : Bool)
  | portalStart
  | portalExit (receiver : ℕ)

def linkStep (s : LinkState) : LinkLabel → Option LinkState
  | .register d swapchain info =>
      some { s with layer := wpRegisterSwapchain s.layer d swapchain info }
  | .teardown d swapchain fenceWait =>
      some { s with layer := wpTeardownSwapchain s.layer d swapchain fenceWait }
  | .removeDevice d =>
      some { s.setLink d ⟨none, none⟩ with layer := wpDeviceDataRemove s.layer d }
  | .present d swapchain imageIndex driver socketOk sendOk =>
      some (captureAndNotify s d swapchain imageIndex driver socketOk sendOk)
  | .portalStart =>
      some { s with
        owner := some s.started
        alive := Function.update s.alive s.started true
        started := s.started + 1 }
  | .portalExit r => some { s with alive := Function.update s.alive r false }

/-! ## Buffers before frames -/

def givesSlot : ℕ × CaptureMessage → Option (ℕ × UInt32)
  | (r, .buf slot ..) => some (r, slot)
  | (_, .frame ..) => none

def needsSlot : ℕ × CaptureMessage → Option (ℕ × UInt32)
  | (_, .buf ..) => none
  | (r, .frame slot _) => some (r, slot)

/-- Every frame delivered to an instance was preceded by its buffer there. -/
def BufBeforeFrame (s : LinkState) : Prop := Preceded givesSlot needsSlot s.delivered

instance (s : LinkState) : Decidable (BufBeforeFrame s) := decidablePreceded s.delivered

/-- Some slot of the device's live swapchains is marked as sent. -/
def anySent (dd : DeviceData) : Bool :=
  (List.finRange wpMaxSwapchains).any fun i ↦
    (dd.swapchains i).any fun state ↦
      (List.finRange wpCaptureSlotCount).any fun j ↦ (state.slots j).any CaptureSlot.bufSent

/-- A link that is down comes up at the instance it was last connected to, or
while its device has nothing marked as sent. -/
def ReconnectsInformed (s : LinkState) : LinkLabel → Prop
  | .present d _ _ _ _ _ =>
      (s.links d).sock = none → ∀ r ∈ s.listening,
        (s.links d).lastPeer = some r ∨ anySent (s.layer.devices d) = false
  | _ => True

instance (s : LinkState) (l : LinkLabel) : Decidable (ReconnectsInformed s l) := by
  cases l <;> unfold ReconnectsInformed <;> infer_instance

/-- The wire slot belongs to a slot of the device that is marked as sent. -/
def Announced (layer : CaptureLayer) (d : ℕ) (w : UInt32) : Prop :=
  ∃ i state j, layer.stateAt d i = some state ∧ state.Sent j ∧ wireSlot state.wireChannel j = w

/-- What is marked as sent has arrived at the instance the link was last
connected to. -/
structure LinkSound (s : LinkState) : Prop where
  announced : ∀ d w, Announced s.layer d w →
    ∃ r, (s.links d).lastPeer = some r ∧ ∃ e ∈ s.delivered, givesSlot e = some (r, w)
  peer : ∀ d r, (s.links d).sock = some r → (s.links d).lastPeer = some r
  preceded : BufBeforeFrame s

theorem LinkSound.initial : LinkSound .initial := by
  refine ⟨?_, ?_, preceded_nil _ _⟩
  · rintro d w ⟨i, state, j, hstate, _⟩
    exact absurd hstate (by simp [LinkState.initial, CaptureLayer.initial, CaptureLayer.stateAt,
      DeviceData.empty])
  · intro d r h
    exact absurd h (by simp [LinkState.initial])

/-! ## The layer's operations announce nothing by themselves -/

theorem announced_put {layer : CaptureLayer} {d e : ℕ} {i : Fin wpMaxSwapchains}
    {state' : Option SwapchainState} {w : UInt32} (h : Announced (layer.put d i state') e w) :
    Announced layer e w ∨
      e = d ∧ ∃ new j, state' = some new ∧ new.Sent j ∧ wireSlot new.wireChannel j = w := by
  obtain ⟨k, state, j, hstate, hsent, hw⟩ := h
  rw [CaptureLayer.stateAt_put] at hstate
  split at hstate
  · rename_i hplace
    exact .inr ⟨hplace.1, state, j, hstate, hsent, hw⟩
  · exact .inl ⟨k, state, j, hstate, hsent, hw⟩

theorem announced_register {layer : CaptureLayer} {d e : ℕ} {swapchain : UInt64}
    {info : SwapchainInfo} {w : UInt32}
    (h : Announced (wpRegisterSwapchain layer d swapchain info) e w) : Announced layer e w := by
  rcases wpRegisterSwapchain_cases layer d swapchain info with heq | ⟨i, c, _, _, heq⟩
  · exact heq ▸ h
  · rw [heq] at h
    rcases announced_put h with hold | ⟨_, new, j, hnew, ⟨slot, hslot, _⟩, _⟩
    · exact hold
    · obtain rfl := Option.some.inj hnew
      exact absurd hslot (by simp [newSwapchain])

theorem announced_teardown {layer : CaptureLayer} {d e : ℕ} {swapchain : UInt64}
    {fenceWait : SlotIndex → Bool} {w : UInt32}
    (h : Announced (wpTeardownSwapchain layer d swapchain fenceWait) e w) :
    Announced layer e w := by
  rcases wpTeardownSwapchain_cases layer d swapchain fenceWait with heq | ⟨i, state, calls, _, heq⟩
  · exact heq ▸ h
  · rw [heq] at h
    rcases announced_put h with hold | ⟨_, new, j, hnew, _⟩
    · exact hold
    · exact absurd hnew (by simp)

theorem announced_remove {layer : CaptureLayer} {d e : ℕ} {w : UInt32}
    (h : Announced (wpDeviceDataRemove layer d) e w) : e ≠ d ∧ Announced layer e w := by
  obtain ⟨i, state, j, hstate, hsent, hw⟩ := h
  by_cases hd : e = d
  · subst hd
    exact absurd hstate (by simp [wpDeviceDataRemove, CaptureLayer.stateAt, DeviceData.empty])
  · refine ⟨hd, i, state, j, ?_, hsent, hw⟩
    simpa [wpDeviceDataRemove, CaptureLayer.stateAt, hd] using hstate

/-- A swapchain that goes on announces what it announced before. -/
theorem announced_continues {layer : CaptureLayer} {d e : ℕ} {i : Fin wpMaxSwapchains}
    {state state' : SwapchainState} {w : UInt32} (hstate : layer.stateAt d i = some state)
    (hcontinues : state.Continues state') (h : Announced (layer.put d i (some state')) e w) :
    Announced layer e w := by
  rcases announced_put h with hold | ⟨rfl, new, j, hnew, hsent, rfl⟩
  · exact hold
  · obtain rfl := Option.some.inj hnew
    exact ⟨i, state, j, hstate, hcontinues.sent j hsent, by rw [hcontinues.wireChannel]⟩

theorem announced_present {layer layer' : CaptureLayer} {d e : ℕ} {swapchain : UInt64}
    {imageIndex : UInt32} {driver : DriverAnswers} {notice : Option Notice} {w : UInt32}
    (hpresent : wpCaptureAndNotify layer d swapchain imageIndex driver = (layer', notice))
    (h : Announced layer' e w) : Announced layer e w := by
  rcases wpCaptureAndNotify_cases layer d swapchain imageIndex driver with
    heq | ⟨i, state, state', calls, n, hfind, hcontinues, _, heq⟩
  · obtain ⟨rfl, _⟩ := Prod.mk.inj (hpresent.symm.trans heq)
    exact h
  · obtain ⟨rfl, _⟩ := Prod.mk.inj (hpresent.symm.trans heq)
    exact announced_continues (findSwapchain_eq_some hfind).1 hcontinues h

/-- A frame is sent only for a slot that is marked. -/
theorem announced_of_frame {layer layer' : CaptureLayer} {d : ℕ} {swapchain : UInt64}
    {imageIndex : UInt32} {driver : DriverAnswers} {n : Notice}
    (hpresent : wpCaptureAndNotify layer d swapchain imageIndex driver = (layer', some n))
    {w : UInt32} {syncFd : Option ℕ} (hframe : n.message = .frame w syncFd) :
    Announced layer d w := by
  rcases wpCaptureAndNotify_cases layer d swapchain imageIndex driver with
    heq | ⟨i, state, state', calls, notice, hfind, _, hdescribes, heq⟩
  · exact absurd (Prod.mk.inj (hpresent.symm.trans heq)).2 (by simp)
  · have hn := (Prod.mk.inj (hpresent.symm.trans heq)).2
    rcases (hdescribes n hn.symm).message with
      ⟨_, _, _, _, _, _, _, hmessage⟩ | ⟨syncFd', hmessage, hsent⟩
    · exact absurd (hframe.symm.trans hmessage) (by simp)
    · obtain ⟨rfl, _⟩ := CaptureMessage.frame.inj (hframe.symm.trans hmessage)
      exact ⟨i, state, n.slotIdx, (findSwapchain_eq_some hfind).1, hsent, rfl⟩

/-- Marking a sent buffer announces the wire slot of its message. -/
theorem announced_mark {layer layer' : CaptureLayer} {d e : ℕ} {swapchain : UInt64}
    {imageIndex : UInt32} {driver : DriverAnswers} {n : Notice}
    (hpresent : wpCaptureAndNotify layer d swapchain imageIndex driver = (layer', some n))
    {w : UInt32} (h : Announced (markBufSent layer' d n) e w) (r : ℕ) :
    Announced layer e w ∨ e = d ∧ givesSlot (r, n.message) = some (r, w) := by
  rcases wpCaptureAndNotify_cases layer d swapchain imageIndex driver with
    heq | ⟨i, state, state', calls, notice, hfind, hcontinues, hdescribes, heq⟩
  · exact absurd (Prod.mk.inj (hpresent.symm.trans heq)).2 (by simp)
  · obtain ⟨rfl, hn⟩ := Prod.mk.inj (hpresent.symm.trans heq)
    have hn := hdescribes n hn.symm
    obtain ⟨hstate, hswapchain⟩ := findSwapchain_eq_some hfind
    have hfind' : findSwapchain (((layer.put d i (some state')).addCalls calls).devices d)
        n.swapchain = some (i, state') := by
      rw [hn.swapchain, hswapchain]
      exact findSwapchain_put hfind (hcontinues.swapchain.trans hswapchain)
    rcases hn.message with ⟨_, _, _, _, _, _, _, hmessage⟩ | ⟨_, hmessage, _⟩
    · simp only [markBufSent, hmessage, hfind'] at h
      cases hslot : state'.slots n.slotIdx with
      | none =>
          simp only [hslot] at h
          exact .inl (announced_continues hstate hcontinues h)
      | some slot =>
          simp only [hslot] at h
          rcases announced_put h with hold | ⟨rfl, new, j, hnew, ⟨slot', hslot', hsent⟩, rfl⟩
          · exact .inl (announced_continues hstate hcontinues hold)
          · obtain rfl := Option.some.inj hnew
            by_cases hj : j = n.slotIdx
            · subst hj
              refine .inr ⟨rfl, ?_⟩
              rw [hmessage, ← hcontinues.wireChannel]
              rfl
            · have hold : state'.Sent j := ⟨slot', by simpa [hj] using hslot', hsent⟩
              refine .inl ⟨i, state, j, hstate, hcontinues.sent j hold, ?_⟩
              rw [hcontinues.wireChannel]
    · simp only [markBufSent, hmessage] at h
      exact .inl (announced_continues hstate hcontinues h)

theorem not_announced {layer : CaptureLayer} {d : ℕ} (h : anySent (layer.devices d) = false)
    (w : UInt32) : ¬ Announced layer d w := by
  rintro ⟨i, state, j, hstate, ⟨slot, hslot, hsent⟩, _⟩
  apply absurd h
  rw [Bool.not_eq_false]
  apply List.any_eq_true.mpr
  refine ⟨i, List.mem_finRange i, ?_⟩
  apply (Option.any_eq_true _ _).mpr
  refine ⟨state, hstate, ?_⟩
  apply List.any_eq_true.mpr
  exact ⟨j, List.mem_finRange j, (Option.any_eq_true _ _).mpr ⟨slot, hslot, hsent⟩⟩

/-! ## Sending -/

/-- Where a send leaves the link: at the old peer or closed, or connected to
the listening instance if it was closed. -/
def LinkMoves (s : LinkState) (d : ℕ) (link : CaptureLink) : Prop :=
  (link.lastPeer = (s.links d).lastPeer ∧
      ∀ r, link.sock = some r → (s.links d).sock = some r) ∨
    ∃ r, (s.links d).sock = none ∧ r ∈ s.listening ∧ link.lastPeer = some r ∧
      ∀ r', link.sock = some r' → r' = r

theorem ensureConnected_moves (s : LinkState) (d : ℕ) (socketOk : Bool) :
    LinkMoves s d (ensureConnected s (s.links d) socketOk) := by
  unfold ensureConnected
  split
  · exact .inl ⟨rfl, fun _ h ↦ h⟩
  · rename_i hsock
    split
    · exact .inl ⟨rfl, fun _ h ↦ h⟩
    · split
      · exact .inl ⟨rfl, fun _ h ↦ h⟩
      · rename_i r hr
        exact .inr ⟨r, hsock, hr, rfl, fun r' h ↦ (Option.some.inj h).symm⟩

theorem LinkMoves.reset {s : LinkState} {d : ℕ} {link : CaptureLink} (h : LinkMoves s d link) :
    LinkMoves s d (resetLink link) := by
  rcases h with ⟨hpeer, _⟩ | ⟨r, hsock, hr, hpeer, _⟩
  · exact .inl ⟨hpeer, fun r hr ↦ absurd hr (by simp [resetLink])⟩
  · exact .inr ⟨r, hsock, hr, hpeer, fun r' hr' ↦ absurd hr' (by simp [resetLink])⟩

theorem sendWithFds_cases (s : LinkState) (d : ℕ) (message : CaptureMessage)
    (socketOk sendOk : Bool) :
    ∃ link, LinkMoves s d link ∧
      (sendWithFds s d message socketOk sendOk = (s.setLink d link, false) ∨
        ∃ r, link.sock = some r ∧
          sendWithFds s d message socketOk sendOk =
            ({ s.setLink d link with delivered := s.delivered ++ [(r, message)] }, true)) := by
  have hmoves := ensureConnected_moves s d socketOk
  cases hsock : (ensureConnected s (s.links d) socketOk).sock with
  | none =>
      refine ⟨_, hmoves, .inl ?_⟩
      simp only [sendWithFds, hsock]
  | some r =>
      by_cases hsent : (sendOk && s.alive r) = true
      · refine ⟨_, hmoves, .inr ⟨r, hsock, ?_⟩⟩
        simp only [sendWithFds, hsock, if_pos hsent]
      · refine ⟨_, hmoves.reset, .inl ?_⟩
        simp only [sendWithFds, hsock, if_neg hsent]

/-! ## One step -/

theorem LinkSound.layer {s : LinkState} (h : LinkSound s) (layer' : CaptureLayer)
    (hless : ∀ e w, Announced layer' e w → Announced s.layer e w) :
    LinkSound { s with layer := layer' } :=
  ⟨fun e w hw ↦ h.announced e w (hless e w hw), h.peer, h.preceded⟩

theorem LinkSound.setLink {s : LinkState} (h : LinkSound s) {d : ℕ} {link : CaptureLink}
    (hmoves : LinkMoves s d link)
    (hinformed : (s.links d).sock = none → ∀ r ∈ s.listening,
      (s.links d).lastPeer = some r ∨ anySent (s.layer.devices d) = false) :
    LinkSound (s.setLink d link) := by
  refine ⟨?_, ?_, h.preceded⟩
  · intro e w hw
    obtain ⟨r, hpeer, hgiven⟩ := h.announced e w hw
    by_cases he : e = d
    · subst he
      refine ⟨r, ?_, hgiven⟩
      rw [s.setLink_self]
      rcases hmoves with ⟨hsame, _⟩ | ⟨r', hsock, hlistening, hpeer', _⟩
      · exact hsame.trans hpeer
      · rcases hinformed hsock r' hlistening with hold | hnone
        · exact hpeer'.trans (hold.symm.trans hpeer)
        · exact absurd hw (not_announced hnone w)
    · exact ⟨r, by rw [s.setLink_of_ne he, hpeer], hgiven⟩
  · intro e r hsock
    by_cases he : e = d
    · subst he
      rw [s.setLink_self] at hsock ⊢
      rcases hmoves with ⟨hsame, hold⟩ | ⟨r', _, _, hpeer', hr'⟩
      · exact hsame.trans (h.peer e r (hold r hsock))
      · exact hr' r hsock ▸ hpeer'
    · rw [s.setLink_of_ne he] at hsock ⊢
      exact h.peer e r hsock

/-- A message arrives at the peer: a frame only where its buffer did. -/
theorem LinkSound.deliver {s : LinkState} (h : LinkSound s) {d r : ℕ} (message : CaptureMessage)
    (hsock : (s.links d).sock = some r)
    (hframe : ∀ w syncFd, message = .frame w syncFd → Announced s.layer d w) :
    LinkSound { s with delivered := s.delivered ++ [(r, message)] } := by
  refine ⟨?_, h.peer, ?_⟩
  · intro e w hw
    obtain ⟨r', hpeer, c, hc, hgives⟩ := h.announced e w hw
    exact ⟨r', hpeer, c, List.mem_append_left _ hc, hgives⟩
  · apply preceded_concat.mpr
    refine ⟨h.preceded, ?_⟩
    intro k hneeds
    cases message with
    | buf => exact absurd hneeds (by simp [needsSlot])
    | frame w syncFd =>
        obtain rfl := Option.some.inj hneeds
        obtain ⟨r', hpeer, hgiven⟩ := h.announced d w (hframe w syncFd rfl)
        obtain rfl := Option.some.inj ((h.peer d r hsock).symm.trans hpeer)
        exact hgiven

/-- Marking what has just arrived at the peer. -/
theorem LinkSound.mark {s : LinkState} (h : LinkSound s) {d r : ℕ} (message : CaptureMessage)
    (hsock : (s.links d).sock = some r) (hmem : (r, message) ∈ s.delivered)
    {layer' : CaptureLayer}
    (hmark : ∀ e w, Announced layer' e w →
      Announced s.layer e w ∨ e = d ∧ givesSlot (r, message) = some (r, w)) :
    LinkSound { s with layer := layer' } := by
  refine ⟨?_, h.peer, h.preceded⟩
  intro e w hw
  rcases hmark e w hw with hold | ⟨rfl, hgives⟩
  · exact h.announced e w hold
  · exact ⟨r, h.peer e r hsock, _, hmem, hgives⟩

theorem LinkSound.captureAndNotify {s : LinkState} (h : LinkSound s) {d : ℕ} (swapchain : UInt64)
    (imageIndex : UInt32) (driver : DriverAnswers) (socketOk sendOk : Bool)
    (hinformed : (s.links d).sock = none → ∀ r ∈ s.listening,
      (s.links d).lastPeer = some r ∨ anySent (s.layer.devices d) = false) :
    LinkSound (captureAndNotify s d swapchain imageIndex driver socketOk sendOk) := by
  obtain ⟨⟨layer, notice⟩, hpresent⟩ : ∃ p,
    wpCaptureAndNotify s.layer d swapchain imageIndex driver = p := ⟨_, rfl⟩
  cases notice with
  | none =>
      simp only [Capture.captureAndNotify, hpresent]
      exact h.layer _ fun e w ↦ announced_present hpresent
  | some n =>
      simp only [Capture.captureAndNotify, hpresent]
      obtain ⟨link, hmoves, hsend | ⟨r, hsock, hsend⟩⟩ :=
        sendWithFds_cases { s with layer := layer } d n.message socketOk sendOk
      · have hlink := (h.setLink hmoves hinformed).layer layer
          fun e w ↦ announced_present hpresent
        rw [hsend]
        exact hlink
      · have hlink := h.setLink hmoves hinformed
        have hpeer : ((s.setLink d link).links d).sock = some r := by
          rw [s.setLink_self, hsock]
        have hdelivered := hlink.deliver n.message hpeer
          fun w syncFd hframe ↦ announced_of_frame hpresent hframe
        rw [hsend]
        exact hdelivered.mark n.message hpeer (by simp)
          fun e w hw ↦ announced_mark hpresent hw r

theorem LinkSound.step {s t : LinkState} {l : LinkLabel} (h : LinkSound s)
    (hinformed : ReconnectsInformed s l) (hstep : linkStep s l = some t) : LinkSound t := by
  cases l with
  | register d swapchain info =>
      obtain rfl := Option.some.inj hstep
      exact h.layer _ fun e w ↦ announced_register
  | teardown d swapchain fenceWait =>
      obtain rfl := Option.some.inj hstep
      exact h.layer _ fun e w ↦ announced_teardown
  | removeDevice d =>
      obtain rfl := Option.some.inj hstep
      refine ⟨?_, ?_, h.preceded⟩
      · intro e w hw
        obtain ⟨he, hold⟩ := announced_remove hw
        obtain ⟨r, hpeer, hgiven⟩ := h.announced e w hold
        exact ⟨r, (congrArg _ (s.setLink_of_ne he ⟨none, none⟩)).trans hpeer, hgiven⟩
      · intro e r hsock
        by_cases he : e = d
        · exact absurd hsock (by simp [he, LinkState.setLink])
        · have hlink := s.setLink_of_ne he ⟨none, none⟩
          rw [hlink] at hsock ⊢
          exact h.peer e r hsock
  | present d swapchain imageIndex driver socketOk sendOk =>
      obtain rfl := Option.some.inj hstep
      exact h.captureAndNotify swapchain imageIndex driver socketOk sendOk hinformed
  | portalStart =>
      obtain rfl := Option.some.inj hstep
      exact ⟨h.announced, h.peer, h.preceded⟩
  | portalExit r =>
      obtain rfl := Option.some.inj hstep
      exact ⟨h.announced, h.peer, h.preceded⟩

/-! ## Runs -/

/-- In a run whose links only reconnect informed, every instance gets its
buffers before its frames. -/
theorem bufBeforeFrame_of_informed {ls : List LinkLabel}
    (hinformed : Guarded linkStep ReconnectsInformed .initial ls) :
    Always linkStep BufBeforeFrame .initial ls := by
  have hsound : Always linkStep LinkSound .initial ls :=
    always_of_guarded (fun _ _ _ h hl ht ↦ h.step hl ht) LinkSound.initial hinformed
  exact hsound.mono fun _ h ↦ h.preceded

/-- A present for which every driver call succeeds. -/
def goodPresent (device : ℕ) (swapchain : UInt64) : LinkLabel :=
  .present device swapchain 0
    { queueFamilyKnown := true, createSlot := some (1, 7680, 0), fenceStatus := .success
      fenceWait := true, resetFences := true, resetCommandBuffer := true
      beginCommandBuffer := true, endCommandBuffer := true, queueSubmit := true
      semaphoreFd := none, memoryFd := some 7 } true true

def oneWindow : SwapchainInfo :=
  { format := 44, width := 1920, height := 1080, imageCount := 2, candidateModifiers := [0]
    geometry := some (0, 0) }

/-- The portal restarts between two swapchains and gets both from the start. -/
theorem bufBeforeFrame_between_swapchains :
    Always linkStep BufBeforeFrame .initial
      [.portalStart, .register 0 5 oneWindow, goodPresent 0 5, goodPresent 0 5, goodPresent 0 5,
        goodPresent 0 5, .teardown 0 5 fun _ ↦ true, .portalExit 0, .portalStart,
        .register 0 6 oneWindow, goodPresent 0 6, goodPresent 0 6] :=
  bufBeforeFrame_of_informed (by decide)

/-- A swapchain fills its three slots, the portal restarts, and the next two
presents reconnect the link. -/
def restartedPortal : List LinkLabel :=
  [.portalStart, .register 0 5 oneWindow, goodPresent 0 5, goodPresent 0 5, goodPresent 0 5,
    .portalExit 0, .portalStart, goodPresent 0 5, goodPresent 0 5]

/-- The second instance gets a frame for a slot whose buffer it never got. -/
theorem restartedPortal_gets_frames_only :
    ∃ s, exec linkStep .initial restartedPortal = some s ∧
      s.delivered.filter (fun e ↦ e.1 == 1) = [(1, .frame 1 none)] ∧ ¬ BufBeforeFrame s :=
  ⟨_, rfl, by decide, by decide⟩

end Wallpiper.Capture
