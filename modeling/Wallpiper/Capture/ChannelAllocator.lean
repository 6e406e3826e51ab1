import Wallpiper.Capture.LayerSteps
import Wallpiper.Foundations.Claims
import Wallpiper.Foundations.Runs

/-!
# The allocator of wire channels

Swapchains are registered and torn down under the lock of their device, while
the channels belong to the process, so the critical sections of different
devices interleave.  The thread inside a section holds the channel that its
device's table does not show.
-/

namespace Wallpiper.Capture

open Foundations

/-- What the thread that holds a device's lock is about to do. -/
inductive Section where
  | idle
  | registering (i : Fin wpMaxSwapchains) (swapchain : UInt64) (info : SwapchainInfo)
  | filling (i : Fin wpMaxSwapchains) (swapchain : UInt64) (info : SwapchainInfo) (c : WireChannel)
  | freeing (c : WireChannel) (calls : List DriverCall)

def Section.isIdle : Section → Bool
  | .idle => true
  | _ => false

/-- A present that has given up the lock: its message is still to be sent, or
it was sent and the slot is still to be marked. -/
structure OpenPresent where
  device : ℕ
  place : Fin wpMaxSwapchains
  notice : Notice
  sent : Bool

/-- `sent` holds the wire slots sent by the swapchain at each place, `allSent`
those of all swapchains there ever were. -/
structure AllocState where
  layer : CaptureLayer
  lock : ℕ → Section
  geometries : List (WireChannel × Option Position)
  presents : List OpenPresent
  sent : ℕ → Fin wpMaxSwapchains → List UInt32
  allSent : List UInt32

def AllocState.initial : AllocState :=
  { layer := .initial, lock := fun _ ↦ .idle, geometries := [], presents := []
    sent := fun _ _ ↦ [], allSent := [] }

def AllocState.enter (s : AllocState) (d : ℕ) (sec : Section) : AllocState :=
  { s with lock := Function.update s.lock d sec }

def messageSlot : CaptureMessage → UInt32
  | .buf slot .. => slot
  | .frame slot _ => slot

inductive AllocLabel where
  | registerLock (device : ℕ) (swapchain : UInt64) (info : SwapchainInfo)
  | registerAlloc (device : ℕ)
  | registerFill (device : ℕ)
  | setGeometry (pending : ℕ)
  | teardownLock (device : ℕ) (swapchain : UInt64) (fenceWait : SlotIndex → Bool)
  | teardownFree (device : ℕ)
  | present (device : ℕ) (swapchain : UInt64) (imageIndex : UInt32) (driver : DriverAnswers)
  | send (pending : ℕ) (sendOk : Bool)
  | mark (pending : ℕ)
  | removeDevice (device : ℕ)

/-! ## Registering -/

/-- A full table ends the registration at once. -/
def registerLock (s : AllocState) (d : ℕ) (swapchain : UInt64) (info : SwapchainInfo) :
    AllocState :=
  match Table.free (s.layer.devices d).swapchains with
  | none => s
  | some i => s.enter d (.registering i swapchain info)

def registerAlloc (s : AllocState) (d : ℕ) (i : Fin wpMaxSwapchains) (swapchain : UInt64)
    (info : SwapchainInfo) : AllocState :=
  match allocWireChannel s.layer with
  | none => s.enter d .idle
  | some c =>
      { s.enter d (.filling i swapchain info c) with
        layer := { s.layer with channelInUse := Function.update s.layer.channelInUse c true } }

def registerFill (s : AllocState) (d : ℕ) (i : Fin wpMaxSwapchains) (swapchain : UInt64)
    (info : SwapchainInfo) (c : WireChannel) : AllocState :=
  { s.enter d .idle with
    layer := s.layer.put d i (some (newSwapchain swapchain info c))
    geometries := s.geometries ++ [(c, info.geometry)]
    sent := Function.update s.sent d (Function.update (s.sent d) i []) }

/-! ## Destroying -/

/-- The driver calls that destroy the slots of a swapchain. -/
def destroySlots (state : SwapchainState) (fenceWait : SlotIndex → Bool) : List DriverCall :=
  (List.finRange wpCaptureSlotCount).flatMap fun j ↦
    match state.slots j with
    | none => []
    | some slot => destroyCaptureSlot slot (fenceWait j)

def teardownLock (s : AllocState) (d : ℕ) (swapchain : UInt64) (fenceWait : SlotIndex → Bool) :
    AllocState :=
  match findSwapchain (s.layer.devices d) swapchain with
  | none => s
  | some (i, state) =>
      { s.enter d (.freeing state.wireChannel (destroySlots state fenceWait)) with
        layer := s.layer.put d i none }

/-- The slots are destroyed after the lock is given up; nothing here depends
on when. -/
def teardownFree (s : AllocState) (d : ℕ) (c : WireChannel) (calls : List DriverCall) :
    AllocState :=
  { s.enter d .idle with
    layer := ({ s.layer with
      channelInUse := Function.update s.layer.channelInUse c false }).addCalls calls }

/-! ## Presenting -/

/-- The position that the message carries is the one read under the lock;
which wire slot is sent does not depend on it. -/
def openPresent (s : AllocState) (d : ℕ) (swapchain : UInt64) (imageIndex : UInt32)
    (driver : DriverAnswers) : AllocState :=
  let presented := wpCaptureAndNotify s.layer d swapchain imageIndex driver
  { s with
    layer := presented.1
    presents := s.presents ++
      match findSwapchain (s.layer.devices d) swapchain, presented.2 with
      | some (i, _), some notice => [⟨d, i, notice, false⟩]
      | _, _ => [] }

def sendPresent (s : AllocState) (pending : ℕ) (p : OpenPresent) (sendOk : Bool) : AllocState :=
  let wireSlot := messageSlot p.notice.message
  { s with
    presents := s.presents.eraseIdx pending ++ if sendOk then [{ p with sent := true }] else []
    sent := Function.update s.sent p.device
      (Function.update (s.sent p.device) p.place (s.sent p.device p.place ++ [wireSlot]))
    allSent := s.allSent ++ [wireSlot] }

def markPresent (s : AllocState) (pending : ℕ) (p : OpenPresent) : AllocState :=
  { s with
    presents := s.presents.eraseIdx pending
    layer := markBufSent s.layer p.device p.notice }

/-- A lock is taken only while nobody is in the device's section. -/
def allocStep (s : AllocState) : AllocLabel → Option AllocState
  | .registerLock d swapchain info =>
      match s.lock d with
      | .idle => some (registerLock s d swapchain info)
      | _ => none
  | .registerAlloc d =>
      match s.lock d with
      | .registering i swapchain info => some (registerAlloc s d i swapchain info)
      | _ => none
  | .registerFill d =>
      match s.lock d with
      | .filling i swapchain info c => some (registerFill s d i swapchain info c)
      | _ => none
  | .setGeometry pending =>
      match s.geometries[pending]? with
      | some (c, geometry) =>
          some { s with
            geometries := s.geometries.eraseIdx pending
            layer := { s.layer with
              channelGeometry := Function.update s.layer.channelGeometry c geometry } }
      | none => none
  | .teardownLock d swapchain fenceWait =>
      match s.lock d with
      | .idle => some (teardownLock s d swapchain fenceWait)
      | _ => none
  | .teardownFree d =>
      match s.lock d with
      | .freeing c calls => some (teardownFree s d c calls)
      | _ => none
  | .present d swapchain imageIndex driver =>
      match s.lock d with
      | .idle => some (openPresent s d swapchain imageIndex driver)
      | _ => none
  | .send pending sendOk =>
      match s.presents[pending]? with
      | some p => if p.sent then none else some (sendPresent s pending p sendOk)
      | none => none
  | .mark pending =>
      match s.presents[pending]? with
      | some p =>
          match p.sent, s.lock p.device with
          | true, .idle => some (markPresent s pending p)
          | _, _ => none
      | none => none
  | .removeDevice d => some { s with layer := wpDeviceDataRemove s.layer d }

/-- Devices are destroyed after their swapchains, and a swapchain is destroyed
while no present of it is under way. -/
def SwapchainsFirst (s : AllocState) : AllocLabel → Prop
  | .teardownLock d swapchain _ => ∀ p ∈ s.presents, p.device = d → p.notice.swapchain ≠ swapchain
  | .removeDevice d => (s.lock d).isIdle = true ∧ ∀ i, (s.layer.stateAt d i).isNone = true
  | _ => True

instance (s : AllocState) : ∀ l, Decidable (SwapchainsFirst s l)
  | .teardownLock d swapchain _ =>
      inferInstanceAs (Decidable (∀ p ∈ s.presents, p.device = d → p.notice.swapchain ≠ swapchain))
  | .removeDevice d => inferInstanceAs
      (Decidable ((s.lock d).isIdle = true ∧ ∀ i, (s.layer.stateAt d i).isNone = true))
  | .registerLock .. => inferInstanceAs (Decidable True)
  | .registerAlloc _ => inferInstanceAs (Decidable True)
  | .registerFill _ => inferInstanceAs (Decidable True)
  | .setGeometry _ => inferInstanceAs (Decidable True)
  | .teardownFree _ => inferInstanceAs (Decidable True)
  | .present .. => inferInstanceAs (Decidable True)
  | .send .. => inferInstanceAs (Decidable True)
  | .mark _ => inferInstanceAs (Decidable True)

/-! ## The sections one after the other -/

/-- Taken without interruption, the sections of a registration are the
registration. -/
theorem register_sections {s : AllocState} {d : ℕ} (hidle : s.lock d = .idle) (swapchain : UInt64)
    (info : SwapchainInfo) :
    ∃ ls s', exec allocStep s ls = some s' ∧ s'.lock = s.lock ∧
      s'.layer = wpRegisterSwapchain s.layer d swapchain info := by
  have hunlock : Function.update s.lock d .idle = s.lock := by
    rw [← hidle, Function.update_eq_self]
  cases hplace : Table.free (s.layer.devices d).swapchains with
  | none =>
      refine ⟨[.registerLock d swapchain info], s, ?_, rfl, ?_⟩
      · simp [exec, allocStep, hidle, registerLock, hplace]
      · simp [wpRegisterSwapchain, hplace]
  | some i =>
      cases hchannel : allocWireChannel s.layer with
      | none =>
          refine ⟨[.registerLock d swapchain info, .registerAlloc d], s, ?_, rfl, ?_⟩
          · simp [exec, allocStep, hidle, registerLock, hplace, AllocState.enter, registerAlloc,
              hchannel, hunlock]
          · simp [wpRegisterSwapchain, hplace, hchannel]
      | some c =>
          let done : AllocState :=
            { s with
              layer := wpRegisterSwapchain s.layer d swapchain info
              sent := Function.update s.sent d (Function.update (s.sent d) i []) }
          have herase : (s.geometries ++ [(c, info.geometry)]).eraseIdx s.geometries.length =
              s.geometries := by
            rw [List.eraseIdx_append_of_length_le (Nat.le_refl _), Nat.sub_self,
              List.eraseIdx_zero, List.tail_cons, List.append_nil]
          refine ⟨[.registerLock d swapchain info, .registerAlloc d, .registerFill d,
            .setGeometry s.geometries.length], done, ?_, rfl, rfl⟩
          simp [exec, allocStep, hidle, registerLock, hplace, AllocState.enter, registerAlloc,
            hchannel, registerFill, hunlock, herase, done, wpRegisterSwapchain, CaptureLayer.put]

/-- Likewise those of a teardown. -/
theorem teardown_sections {s : AllocState} {d : ℕ} (hidle : s.lock d = .idle) (swapchain : UInt64)
    (fenceWait : SlotIndex → Bool) :
    ∃ ls s', exec allocStep s ls = some s' ∧ s'.lock = s.lock ∧
      s'.layer = wpTeardownSwapchain s.layer d swapchain fenceWait := by
  have hunlock : Function.update s.lock d .idle = s.lock := by
    rw [← hidle, Function.update_eq_self]
  cases hfind : findSwapchain (s.layer.devices d) swapchain with
  | none =>
      refine ⟨[.teardownLock d swapchain fenceWait], s, ?_, rfl, ?_⟩
      · simp [exec, allocStep, hidle, teardownLock, hfind]
      · simp [wpTeardownSwapchain, hfind]
  | some found =>
      obtain ⟨i, state⟩ := found
      let done : AllocState :=
        { s with layer := wpTeardownSwapchain s.layer d swapchain fenceWait }
      refine ⟨[.teardownLock d swapchain fenceWait, .teardownFree d], done, ?_, rfl, rfl⟩
      simp only [exec, allocStep, hidle, teardownLock, hfind, AllocState.enter, teardownFree,
        Option.bind_some, Function.update_self, Function.update_idem, hunlock, done,
        wpTeardownSwapchain]
      rfl

/-! ## Claims on channels -/

def Section.channel : Section → Option WireChannel
  | .filling _ _ _ c => some c
  | .freeing c _ => some c
  | _ => none

/-- The place that a registration has found free. -/
def Section.place : Section → Option (Fin wpMaxSwapchains)
  | .registering i .. => some i
  | .filling i .. => some i
  | _ => none

/-- The handle and the channel of the swapchain at a place. -/
def CaptureLayer.shown (layer : CaptureLayer) (d : ℕ) (i : Fin wpMaxSwapchains) :
    Option (UInt64 × WireChannel) :=
  (layer.stateAt d i).map fun state ↦ (state.swapchain, state.wireChannel)

/-- The channel claimed by a place of a device's table, or by the thread in
the device's section. -/
def channelClaim (s : AllocState) : ℕ × Option (Fin wpMaxSwapchains) → Option WireChannel
  | (d, some i) => (s.layer.shown d i).map Prod.snd
  | (d, none) => (s.lock d).channel

structure AllocSound (s : AllocState) : Prop where
  held : Held s.layer.channelInUse (channelClaim s)
  reserved : ∀ d i, (s.lock d).place = some i → s.layer.shown d i = none
  sent : ∀ d i swapchain c, s.layer.shown d i = some (swapchain, c) →
    ∀ slot ∈ s.sent d i, ∃ j, slot = wireSlot c j
  presents : ∀ p ∈ s.presents, ∃ c j,
    s.layer.shown p.device p.place = some (p.notice.swapchain, c) ∧
      messageSlot p.notice.message = wireSlot c j
  bounded : ∀ slot ∈ s.allSent, ∃ c j, slot = wireSlot c j

/-- What is claimed of the allocator in every state. -/
structure AllocatorConsistent (s : AllocState) : Prop where
  marked : (∀ d, s.lock d = .idle) → ∀ c, s.layer.channelInUse c = true ↔
    ∃! place : ℕ × Fin wpMaxSwapchains, ∃ state,
      s.layer.stateAt place.1 place.2 = some state ∧ state.wireChannel = c
  apart : ∀ d i e k, (s.layer.stateAt d i).isSome → (s.layer.stateAt e k).isSome →
    (d, i) ≠ (e, k) → ∀ slot ∈ s.sent d i, slot ∉ s.sent e k
  bounded : ∀ slot ∈ s.allSent, slot.toNat < wpMaxCaptureChannels * wpCaptureSlotCount

theorem wireSlot_toNat (c : WireChannel) (j : SlotIndex) :
    (wireSlot c j).toNat = c.val * 3 + j.val := by
  have hc : c.val < 4 := c.isLt
  have hj : j.val < 3 := j.isLt
  exact UInt32.toNat_ofNat_of_lt' (show c.val * 3 + j.val < 2 ^ 32 by omega)

theorem wireSlot_channel {c c' : WireChannel} {j j' : SlotIndex}
    (h : wireSlot c j = wireSlot c' j') : c = c' := by
  have hnat := congrArg UInt32.toNat h
  rw [wireSlot_toNat, wireSlot_toNat] at hnat
  have hj : j.val < 3 := j.isLt
  have hj' : j'.val < 3 := j'.isLt
  exact Fin.ext (by omega)

theorem shown_eq_some {layer : CaptureLayer} {d : ℕ} {i : Fin wpMaxSwapchains}
    {state : SwapchainState} (h : layer.stateAt d i = some state) :
    layer.shown d i = some (state.swapchain, state.wireChannel) := by
  rw [CaptureLayer.shown, h, Option.map_some]

theorem AllocSound.consistent {s : AllocState} (h : AllocSound s) : AllocatorConsistent s := by
  have hclaim : ∀ d i c, (∃ state, s.layer.stateAt d i = some state ∧ state.wireChannel = c) ↔
      channelClaim s (d, some i) = some c := by
    intro d i c
    rw [channelClaim, CaptureLayer.shown, Option.map_map]
    exact Option.map_eq_some_iff.symm
  refine ⟨?_, ?_, ?_⟩
  · intro hidle c
    simp only [hclaim]
    constructor
    · intro hmarked
      obtain ⟨⟨d, place⟩, hplace⟩ := (h.held.marked c).mp hmarked
      cases place with
      | none =>
          -- nobody is inside a section
          rw [channelClaim, hidle d] at hplace
          exact absurd hplace (by simp [Section.channel])
      | some i =>
          refine ⟨(d, i), hplace, ?_⟩
          rintro ⟨e, k⟩ hother
          have heq := h.held.exclusive _ _ c hother hplace
          obtain ⟨rfl, hk⟩ := Prod.mk.inj heq
          exact Prod.ext rfl (Option.some.inj hk)
    · rintro ⟨⟨d, i⟩, hplace, _⟩
      exact (h.held.marked c).mpr ⟨(d, some i), hplace⟩
  · intro d i e k hlive hlive' hne slot hslot hslot'
    obtain ⟨state, hstate⟩ := Option.isSome_iff_exists.mp hlive
    obtain ⟨state', hstate'⟩ := Option.isSome_iff_exists.mp hlive'
    obtain ⟨j, hj⟩ := h.sent d i _ _ (shown_eq_some hstate) slot hslot
    obtain ⟨j', hj'⟩ := h.sent e k _ _ (shown_eq_some hstate') slot hslot'
    have hchannel := wireSlot_channel (hj.symm.trans hj')
    have heq := h.held.exclusive (d, some i) (e, some k) state.wireChannel
      ((hclaim d i _).mp ⟨state, hstate, rfl⟩) ((hclaim e k _).mp ⟨state', hstate', hchannel.symm⟩)
    obtain ⟨rfl, hk⟩ := Prod.mk.inj heq
    exact hne (Prod.ext rfl (Option.some.inj hk))
  · intro slot hslot
    obtain ⟨c, j, rfl⟩ := h.bounded slot hslot
    have hc : c.val < 4 := c.isLt
    have hj : j.val < 3 := j.isLt
    rw [wireSlot_toNat]
    exact show c.val * 3 + j.val < 4 * 3 by omega

/-! ## Steps -/

theorem CaptureLayer.shown_put (layer : CaptureLayer) (d e : ℕ) (i k : Fin wpMaxSwapchains)
    (state : Option SwapchainState) :
    (layer.put d i state).shown e k =
      if e = d ∧ k = i then state.map fun state ↦ (state.swapchain, state.wireChannel)
      else layer.shown e k := by
  rw [shown, stateAt_put]
  split
  · rfl
  · rfl

/-- A swapchain is replaced by one with its handle and its channel. -/
theorem CaptureLayer.shown_replace {layer : CaptureLayer} {d : ℕ} {i : Fin wpMaxSwapchains}
    {state state' : SwapchainState} (hstate : layer.stateAt d i = some state)
    (hswapchain : state'.swapchain = state.swapchain)
    (hchannel : state'.wireChannel = state.wireChannel) :
    (layer.put d i (some state')).shown = layer.shown := by
  funext e k
  rw [shown_put]
  split
  · rename_i hplace
    obtain ⟨rfl, rfl⟩ := hplace
    rw [shown_eq_some hstate, Option.map_some, hswapchain, hchannel]
  · rfl

/-- What is shown and marked, the sections and what was sent decide about
soundness. -/
theorem AllocSound.same {s s' : AllocState} (h : AllocSound s)
    (huse : s'.layer.channelInUse = s.layer.channelInUse) (hshown : s'.layer.shown = s.layer.shown)
    (hlock : s'.lock = s.lock) (hsent : s'.sent = s.sent) (hall : s'.allSent = s.allSent)
    (hpresents : ∀ p ∈ s'.presents, p ∈ s.presents ∨ ∃ c j,
      s.layer.shown p.device p.place = some (p.notice.swapchain, c) ∧
        messageSlot p.notice.message = wireSlot c j) : AllocSound s' := by
  have hclaim : channelClaim s' = channelClaim s := by
    funext ⟨d, place⟩
    cases place with
    | none => rw [channelClaim, channelClaim, hlock]
    | some i => rw [channelClaim, channelClaim, hshown]
  refine ⟨?held, ?reserved, ?sent, ?presents, ?bounded⟩
  case held =>
    rw [huse, hclaim]
    exact h.held
  case reserved =>
    rw [hlock, hshown]
    exact h.reserved
  case sent =>
    rw [hshown, hsent]
    exact h.sent
  case presents =>
    intro p hp
    rw [hshown]
    exact (hpresents p hp).elim (h.presents p) id
  case bounded =>
    rw [hall]
    exact h.bounded

theorem AllocSound.enter {s : AllocState} (h : AllocSound s) {d : ℕ} {sec : Section}
    (hchannel : sec.channel = (s.lock d).channel)
    (hplace : ∀ i, sec.place = some i → s.layer.shown d i = none) : AllocSound (s.enter d sec) := by
  have hclaim : channelClaim (s.enter d sec) = channelClaim s := by
    funext ⟨e, place⟩
    cases place with
    | some i => rfl
    | none =>
        simp only [channelClaim, AllocState.enter]
        by_cases he : e = d
        · subst he
          rw [Function.update_self, hchannel]
        · rw [Function.update_of_ne he]
  refine ⟨hclaim ▸ h.held, ?_, h.sent, h.presents, h.bounded⟩
  intro e i hreserved
  simp only [AllocState.enter] at hreserved
  by_cases he : e = d
  · subst he
    rw [Function.update_self] at hreserved
    exact hplace i hreserved
  · rw [Function.update_of_ne he] at hreserved
    exact h.reserved e i hreserved

theorem AllocSound.registerLock {s : AllocState} (h : AllocSound s) {d : ℕ}
    (hidle : s.lock d = .idle) (swapchain : UInt64) (info : SwapchainInfo) :
    AllocSound (registerLock s d swapchain info) := by
  unfold Capture.registerLock
  split
  · exact h
  · rename_i i hi
    apply h.enter
    · rw [hidle]
      rfl
    · intro k hk
      obtain rfl := Option.some.inj hk
      have hnone : s.layer.stateAt d i = none := Table.eq_none_of_free hi
      rw [CaptureLayer.shown, hnone, Option.map_none]

/-- The thread in the section claims the free channel that it found. -/
theorem AllocSound.registerAlloc {s : AllocState} (h : AllocSound s) {d : ℕ}
    {i : Fin wpMaxSwapchains} {swapchain : UInt64} {info : SwapchainInfo}
    (hlock : s.lock d = .registering i swapchain info) :
    AllocSound (registerAlloc s d i swapchain info) := by
  unfold Capture.registerAlloc
  split
  · apply h.enter
    · rw [hlock]
      rfl
    · intro k hk
      exact absurd hk (by simp [Section.place])
  · rename_i c hc
    have hnone : channelClaim s (d, none) = none := by
      rw [channelClaim, hlock]
      rfl
    have hclaim : channelClaim { s.enter d (.filling i swapchain info c) with
        layer := { s.layer with channelInUse := Function.update s.layer.channelInUse c true } } =
          Function.update (channelClaim s) (d, none) (some c) := by
      funext ⟨e, place⟩
      cases place with
      | some k => simp [channelClaim, CaptureLayer.shown, CaptureLayer.stateAt]
      | none =>
          simp only [channelClaim, AllocState.enter]
          by_cases he : e = d
          · subst he
            simp [Section.channel]
          · simp [he, channelClaim]
    refine ⟨?_, ?_, h.sent, h.presents, h.bounded⟩
    · rw [hclaim]
      exact h.held.acquire (channel_free_of_alloc hc) hnone
    · intro e k hreserved
      simp only [AllocState.enter] at hreserved
      by_cases he : e = d
      · subst he
        rw [Function.update_self] at hreserved
        obtain rfl := Option.some.inj hreserved
        exact h.reserved e i (by rw [hlock]; rfl)
      · rw [Function.update_of_ne he] at hreserved
        exact h.reserved e k hreserved

/-- The channel of the section is handed to the place that was found free; the
swapchain there has sent nothing yet. -/
theorem AllocSound.registerFill {s : AllocState} (h : AllocSound s) {d : ℕ}
    {i : Fin wpMaxSwapchains} {swapchain : UInt64} {info : SwapchainInfo} {c : WireChannel}
    (hlock : s.lock d = .filling i swapchain info c) :
    AllocSound (registerFill s d i swapchain info c) := by
  have hfree : s.layer.shown d i = none := h.reserved d i (by rw [hlock]; rfl)
  have hshown : ∀ e k, (Capture.registerFill s d i swapchain info c).layer.shown e k =
      if e = d ∧ k = i then some (swapchain, c) else s.layer.shown e k := by
    intro e k
    rw [Capture.registerFill, CaptureLayer.shown_put]
    rfl
  have hclaimed : channelClaim s (d, none) = some c := by
    rw [channelClaim, hlock]
    rfl
  have hunclaimed : channelClaim s (d, some i) = none := by
    rw [channelClaim, hfree, Option.map_none]
  have hclaim : channelClaim (Capture.registerFill s d i swapchain info c) =
      Function.update (Function.update (channelClaim s) (d, none) none) (d, some i) (some c) := by
    funext ⟨e, place⟩
    cases place with
    | none =>
        rw [Function.update_of_ne (by simp)]
        by_cases he : e = d
        · subst he
          rw [Function.update_self]
          simp [channelClaim, Capture.registerFill, AllocState.enter, Section.channel]
        · rw [Function.update_of_ne (by simp [he])]
          simp [channelClaim, Capture.registerFill, AllocState.enter, he]
    | some k =>
        rw [channelClaim, hshown]
        by_cases hplace : e = d ∧ k = i
        · obtain ⟨rfl, rfl⟩ := hplace
          rw [if_pos ⟨rfl, rfl⟩, Function.update_self, Option.map_some]
        · have hne : (e, some k) ≠ (d, some i) := by simpa using hplace
          rw [if_neg hplace, Function.update_of_ne hne, Function.update_of_ne (by simp),
            channelClaim]
  refine ⟨?held, ?reserved, ?sent, ?presents, h.bounded⟩
  case held =>
    rw [hclaim]
    exact h.held.handOver hclaimed hunclaimed
  case reserved =>
    intro e k hreserved
    by_cases he : e = d
    · subst he
      exact absurd hreserved (by simp [Capture.registerFill, AllocState.enter, Section.place])
    · rw [hshown, if_neg fun hplace ↦ he hplace.1]
      exact h.reserved e k (by simpa [Capture.registerFill, AllocState.enter, he] using hreserved)
  case sent =>
    intro e k swapchain' c' hshown' slot hslot
    rw [hshown] at hshown'
    by_cases hplace : e = d ∧ k = i
    · obtain ⟨rfl, rfl⟩ := hplace
      exact absurd hslot (by simp [Capture.registerFill])
    · rw [if_neg hplace] at hshown'
      apply h.sent e k swapchain' c' hshown' slot
      by_cases he : e = d
      · subst he
        have hk : k ≠ i := fun hk ↦ hplace ⟨rfl, hk⟩
        simpa [Capture.registerFill, hk] using hslot
      · simpa [Capture.registerFill, he] using hslot
  case presents =>
    intro p hp
    obtain ⟨c', j, hp', hmessage⟩ := h.presents p hp
    refine ⟨c', j, ?_, hmessage⟩
    rw [hshown, if_neg, hp']
    rintro ⟨hd, hi⟩
    rw [hd, hi, hfree] at hp'
    exact absurd hp' (by simp)

/-- The channel of the swapchain goes to the section, and no present of it is
under way. -/
theorem AllocSound.teardownLock {s : AllocState} (h : AllocSound s) {d : ℕ}
    (hidle : s.lock d = .idle) {swapchain : UInt64} {fenceWait : SlotIndex → Bool}
    (hpresents : ∀ p ∈ s.presents, p.device = d → p.notice.swapchain ≠ swapchain) :
    AllocSound (teardownLock s d swapchain fenceWait) := by
  unfold Capture.teardownLock
  split
  · exact h
  · rename_i i state hfind
    obtain ⟨hstate, hswapchain⟩ := findSwapchain_eq_some hfind
    have hold := shown_eq_some hstate
    have hclaimed : channelClaim s (d, some i) = some state.wireChannel := by
      rw [channelClaim, hold, Option.map_some]
    have hunclaimed : channelClaim s (d, none) = none := by
      rw [channelClaim, hidle]
      rfl
    have hclaim : channelClaim { s.enter d (.freeing state.wireChannel
        (destroySlots state fenceWait)) with layer := s.layer.put d i none } =
          Function.update (Function.update (channelClaim s) (d, some i) none) (d, none)
            (some state.wireChannel) := by
      funext ⟨e, place⟩
      cases place with
      | none =>
          by_cases he : e = d
          · subst he
            rw [Function.update_self]
            simp [channelClaim, AllocState.enter, Section.channel]
          · rw [Function.update_of_ne (by simp [he]), Function.update_of_ne (by simp)]
            simp [channelClaim, AllocState.enter, he]
      | some k =>
          rw [channelClaim, CaptureLayer.shown_put, Function.update_of_ne (by simp)]
          by_cases hplace : e = d ∧ k = i
          · obtain ⟨rfl, rfl⟩ := hplace
            rw [if_pos ⟨rfl, rfl⟩, Function.update_self]
            rfl
          · have hne : (e, some k) ≠ (d, some i) := by simpa using hplace
            rw [if_neg hplace, Function.update_of_ne hne, channelClaim]
    refine ⟨?held, ?reserved, ?sent, ?presents, h.bounded⟩
    case held =>
      rw [hclaim]
      exact h.held.handOver hclaimed hunclaimed
    case reserved =>
      intro e k hreserved
      rw [CaptureLayer.shown_put]
      split
      · rfl
      · apply h.reserved e k
        by_cases he : e = d
        · subst he
          exact absurd hreserved (by simp [AllocState.enter, Section.place])
        · simpa [AllocState.enter, he] using hreserved
    case sent =>
      intro e k swapchain' c' hshown' slot hslot
      rw [CaptureLayer.shown_put] at hshown'
      split at hshown'
      · exact absurd hshown' (by simp)
      · exact h.sent e k swapchain' c' hshown' slot hslot
    case presents =>
      intro p hp
      obtain ⟨c', j, hp', hmessage⟩ := h.presents p hp
      refine ⟨c', j, ?_, hmessage⟩
      rw [CaptureLayer.shown_put, if_neg, hp']
      rintro ⟨hd, hi⟩
      rw [hd, hi, hold, hswapchain] at hp'
      exact hpresents p hp hd (Prod.mk.inj (Option.some.inj hp')).1.symm

theorem AllocSound.teardownFree {s : AllocState} (h : AllocSound s) {d : ℕ} {c : WireChannel}
    {calls : List DriverCall} (hlock : s.lock d = .freeing c calls) :
    AllocSound (teardownFree s d c calls) := by
  have hclaimed : channelClaim s (d, none) = some c := by
    rw [channelClaim, hlock]
    rfl
  have hclaim : channelClaim (Capture.teardownFree s d c calls) =
      Function.update (channelClaim s) (d, none) none := by
    funext ⟨e, place⟩
    cases place with
    | some k =>
        rw [Function.update_of_ne (by simp)]
        rfl
    | none =>
        by_cases he : e = d
        · subst he
          rw [Function.update_self]
          simp [channelClaim, Capture.teardownFree, AllocState.enter, Section.channel]
        · rw [Function.update_of_ne (by simp [he])]
          simp [channelClaim, Capture.teardownFree, AllocState.enter, he]
  refine ⟨?_, ?_, h.sent, h.presents, h.bounded⟩
  · rw [hclaim]
    exact h.held.release hclaimed
  · intro e k hreserved
    by_cases he : e = d
    · subst he
      exact absurd hreserved (by simp [Capture.teardownFree, AllocState.enter, Section.place])
    · exact h.reserved e k (by simpa [Capture.teardownFree, AllocState.enter, he] using hreserved)

theorem AllocSound.openPresent {s : AllocState} (h : AllocSound s) (d : ℕ) (swapchain : UInt64)
    (imageIndex : UInt32) (driver : DriverAnswers) :
    AllocSound (openPresent s d swapchain imageIndex driver) := by
  unfold Capture.openPresent
  rcases wpCaptureAndNotify_cases s.layer d swapchain imageIndex driver with
    heq | ⟨i, state, state', calls, notice, hfind, hcontinues, hnotice, heq⟩
  · simp only [heq]
    refine h.same rfl rfl rfl rfl rfl ?_
    intro p hp
    rcases List.mem_append.mp hp with hp | hp
    · exact .inl hp
    · split at hp
      · rename_i hnone
        exact absurd hnone (by simp)
      · exact absurd hp List.not_mem_nil
  · obtain ⟨hstate, hswapchain⟩ := findSwapchain_eq_some hfind
    simp only [heq, hfind]
    refine h.same rfl ?_ rfl rfl rfl ?_
    · exact CaptureLayer.shown_replace hstate hcontinues.swapchain hcontinues.wireChannel
    · intro p hp
      rcases List.mem_append.mp hp with hp | hp
      · exact .inl hp
      · cases hn : notice with
        | none =>
            rw [hn] at hp
            exact absurd hp List.not_mem_nil
        | some n =>
            rw [hn] at hp
            obtain rfl := List.mem_singleton.mp hp
            obtain ⟨hsame, _, hmessage⟩ := hnotice n hn
            refine .inr ⟨state.wireChannel, n.slotIdx, ?_, ?_⟩
            · rw [hsame]
              exact shown_eq_some hstate
            · rcases hmessage with ⟨_, _, _, _, _, _, _, hbuf⟩ | ⟨_, hframe, _⟩
              · rw [hbuf, messageSlot]
              · rw [hframe, messageSlot]

theorem AllocSound.sendPresent {s : AllocState} (h : AllocSound s) {pending : ℕ}
    {p : OpenPresent} (hp : s.presents[pending]? = some p) (sendOk : Bool) :
    AllocSound (sendPresent s pending p sendOk) := by
  have hmem := List.mem_of_getElem? hp
  obtain ⟨c, j, hshown, hmessage⟩ := h.presents p hmem
  refine ⟨h.held, h.reserved, ?sent, ?presents, ?bounded⟩
  case sent =>
    intro e k swapchain c' hshown' slot hslot
    by_cases hplace : e = p.device ∧ k = p.place
    · obtain ⟨rfl, rfl⟩ := hplace
      have hc : c' = c := (Prod.mk.inj (Option.some.inj (hshown'.symm.trans hshown))).2
      subst hc
      simp only [Capture.sendPresent, Function.update_self, List.mem_append,
        List.mem_singleton] at hslot
      rcases hslot with hslot | rfl
      · exact h.sent _ _ swapchain c' hshown' slot hslot
      · exact ⟨j, hmessage⟩
    · apply h.sent e k swapchain c' hshown' slot
      by_cases he : e = p.device
      · subst he
        have hk : k ≠ p.place := fun hk ↦ hplace ⟨rfl, hk⟩
        simpa [Capture.sendPresent, hk] using hslot
      · simpa [Capture.sendPresent, he] using hslot
  case presents =>
    intro q hq
    rcases List.mem_append.mp hq with hq | hq
    · exact h.presents q (List.mem_of_mem_eraseIdx hq)
    · split at hq
      · obtain rfl := List.mem_singleton.mp hq
        exact ⟨c, j, hshown, hmessage⟩
      · exact absurd hq List.not_mem_nil
  case bounded =>
    intro slot hslot
    rcases List.mem_append.mp hslot with hslot | hslot
    · exact h.bounded slot hslot
    · obtain rfl := List.mem_singleton.mp hslot
      exact ⟨c, j, hmessage⟩

theorem markBufSent_shown (layer : CaptureLayer) (d : ℕ) (notice : Notice) :
    (markBufSent layer d notice).shown = layer.shown ∧
      (markBufSent layer d notice).channelInUse = layer.channelInUse := by
  unfold markBufSent
  split
  · exact ⟨rfl, rfl⟩
  · split
    · exact ⟨rfl, rfl⟩
    · rename_i i state hfind
      split
      · exact ⟨rfl, rfl⟩
      · exact ⟨CaptureLayer.shown_replace (findSwapchain_eq_some hfind).1 rfl rfl, rfl⟩

theorem AllocSound.markPresent {s : AllocState} (h : AllocSound s) (pending : ℕ)
    (p : OpenPresent) : AllocSound (markPresent s pending p) := by
  obtain ⟨hshown, huse⟩ := markBufSent_shown s.layer p.device p.notice
  refine h.same huse hshown rfl rfl rfl ?_
  intro q hq
  exact .inl (List.mem_of_mem_eraseIdx hq)

/-- A device without swapchains shows nothing. -/
theorem AllocSound.removeDevice {s : AllocState} (h : AllocSound s) {d : ℕ}
    (hnone : ∀ i, (s.layer.stateAt d i).isNone = true) :
    AllocSound { s with layer := wpDeviceDataRemove s.layer d } := by
  refine h.same rfl ?_ rfl rfl rfl fun p hp ↦ .inl hp
  funext e k
  by_cases he : e = d
  · subst he
    have hempty := Option.isNone_iff_eq_none.mp (hnone k)
    rw [CaptureLayer.shown, CaptureLayer.shown, hempty]
    simp [wpDeviceDataRemove, CaptureLayer.stateAt, DeviceData.empty]
  · simp [wpDeviceDataRemove, CaptureLayer.shown, CaptureLayer.stateAt, he]

theorem AllocSound.step {s s' : AllocState} {l : AllocLabel} (h : AllocSound s)
    (horder : SwapchainsFirst s l) (hstep : allocStep s l = some s') : AllocSound s' := by
  cases l with
  | registerLock d swapchain info =>
      simp only [allocStep] at hstep
      split at hstep
      · rename_i hidle
        exact Option.some.inj hstep ▸ h.registerLock hidle swapchain info
      · exact absurd hstep (by simp)
  | registerAlloc d =>
      simp only [allocStep] at hstep
      split at hstep
      · rename_i hlock
        exact Option.some.inj hstep ▸ h.registerAlloc hlock
      · exact absurd hstep (by simp)
  | registerFill d =>
      simp only [allocStep] at hstep
      split at hstep
      · rename_i hlock
        exact Option.some.inj hstep ▸ h.registerFill hlock
      · exact absurd hstep (by simp)
  | setGeometry pending =>
      simp only [allocStep] at hstep
      split at hstep
      · obtain rfl := Option.some.inj hstep
        exact h.same rfl rfl rfl rfl rfl fun p hp ↦ .inl hp
      · exact absurd hstep (by simp)
  | teardownLock d swapchain fenceWait =>
      simp only [allocStep] at hstep
      split at hstep
      · rename_i hidle
        exact Option.some.inj hstep ▸ h.teardownLock hidle horder
      · exact absurd hstep (by simp)
  | teardownFree d =>
      simp only [allocStep] at hstep
      split at hstep
      · rename_i hlock
        exact Option.some.inj hstep ▸ h.teardownFree hlock
      · exact absurd hstep (by simp)
  | present d swapchain imageIndex driver =>
      simp only [allocStep] at hstep
      split at hstep
      · exact Option.some.inj hstep ▸ h.openPresent d swapchain imageIndex driver
      · exact absurd hstep (by simp)
  | send pending sendOk =>
      simp only [allocStep] at hstep
      split at hstep
      · rename_i p hp
        split at hstep
        · exact absurd hstep (by simp)
        · exact Option.some.inj hstep ▸ h.sendPresent hp sendOk
      · exact absurd hstep (by simp)
  | mark pending =>
      simp only [allocStep] at hstep
      split at hstep
      · rename_i p _
        split at hstep
        · exact Option.some.inj hstep ▸ h.markPresent pending p
        · exact absurd hstep (by simp)
      · exact absurd hstep (by simp)
  | removeDevice d =>
      obtain rfl := Option.some.inj hstep
      exact h.removeDevice horder.2

/-! ## Runs -/

theorem allocSound_initial : AllocSound .initial := by
  have hshown : ∀ d i, AllocState.initial.layer.shown d i = none := fun _ _ ↦ rfl
  have hclaim : channelClaim .initial = fun _ ↦ none := by
    funext ⟨d, place⟩
    cases place with
    | none => rfl
    | some i => rfl
  refine ⟨?held, ?reserved, ?sent, ?presents, ?bounded⟩
  case held =>
    rw [hclaim]
    exact Held.unclaimed
  case reserved =>
    intro d i _
    exact hshown d i
  case sent =>
    intro d i swapchain c hsome
    exact absurd ((hshown d i).symm.trans hsome) (by simp)
  case presents =>
    intro p hp
    exact absurd hp List.not_mem_nil
  case bounded =>
    intro slot hslot
    exact absurd hslot List.not_mem_nil

/-- Between the critical sections the marked channels are those of the live
swapchains, one each, and no two of these send the same wire slot. -/
theorem channels_allocated_once (ls : List AllocLabel)
    (h : Guarded allocStep SwapchainsFirst .initial ls) :
    Always allocStep AllocatorConsistent .initial ls := by
  have hsound : Always allocStep AllocSound .initial ls :=
    always_of_guarded (fun _ _ _ hs hg ht ↦ hs.step hg ht) allocSound_initial h
  exact hsound.mono fun _ hs ↦ hs.consistent

/-- Two devices register at the same time, present and destroy. -/
def twoDevices : List AllocLabel :=
  let info : SwapchainInfo := ⟨44, 640, 480, 1, [0], none⟩
  let driver : DriverAnswers := ⟨true, some (7, 256, 0), .success, true, true, true, true, true,
    true, some (some 3), some 4⟩
  [.registerLock 0 1 info, .registerLock 1 1 info, .registerAlloc 1, .registerAlloc 0,
    .registerFill 0, .registerFill 1, .setGeometry 0, .present 0 1 0 driver, .present 1 1 0 driver,
    .send 1 true, .send 0 true, .mark 0, .mark 0, .teardownLock 0 1 fun _ ↦ true, .teardownFree 0,
    .removeDevice 0]

theorem channels_allocated_once_two_devices :
    Always allocStep AllocatorConsistent .initial twoDevices :=
  channels_allocated_once twoDevices (by decide +kernel)

end Wallpiper.Capture
