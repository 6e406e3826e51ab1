import Wallpiper.Foundations.Runs
import Wallpiper.Portal.OutputSteps

/-!
# Shared memory pools

The three numbers of an SHM message are kept as they come, and the size of the
pool is their product in 32 bits.  Every pool that the compositor is asked for
belongs to a message, and it is the buffer of the message exactly when the
numbers fit.
-/

namespace Wallpiper.Portal

open Foundations Foundations.CText Capture

variable {β : Type*}

/-- What the compositor is told is what the message says, and the rows hold four
bytes a pixel. -/
structure PoolExact (event : CaptureEvent) (poolSize width height stride : Int32) : Prop where
  pool : poolSize.toInt = event.stride.toNat * event.height.toNat
  positive : 0 < poolSize.toInt
  width : width.toInt = event.width.toNat
  height : height.toInt = event.height.toNat
  stride : stride.toInt = event.stride.toNat
  row : event.width.toNat * 4 ≤ event.stride.toNat

/-- The numbers describe a pool of a positive size in 32 signed bits. -/
def PoolFits (event : CaptureEvent) : Prop :=
  0 < event.stride.toNat * event.height.toNat ∧
    event.stride.toNat * event.height.toNat < 2 ^ 31 ∧
    event.width.toNat * 4 ≤ event.stride.toNat

instance (event : CaptureEvent) : Decidable (PoolFits event) :=
  inferInstanceAs (Decidable (_ ∧ _ ∧ _))

/-! ## The arithmetic -/

theorem toInt_toInt32 {n : UInt32} (h : n.toNat < 2 ^ 31) : n.toInt32.toInt = n.toNat := by
  have hlow : 2 * n.toBitVec.toNat < 2 ^ 32 := by
    rw [UInt32.toNat_toBitVec]
    omega
  exact BitVec.toInt_eq_toNat_of_lt hlow

theorem toInt_mul {a b : Int32} {n : ℕ} (hproduct : a.toInt * b.toInt = n) (h : n < 2 ^ 31) :
    (a * b).toInt = n := by
  rw [Int32.toInt_mul, hproduct, Int.bmod_eq_of_le (by omega) (by omega)]

theorem poolExact_iff (event : CaptureEvent) :
    PoolExact event (event.stride.toInt32 * event.height.toInt32) event.width.toInt32
        event.height.toInt32 event.stride.toInt32 ↔
      PoolFits event := by
  constructor
  · intro h
    have hpool := h.pool
    have hpositive := h.positive
    have hlt := (event.stride.toInt32 * event.height.toInt32).toInt_lt
    rw [hpool] at hpositive hlt
    exact ⟨by exact_mod_cast hpositive, by exact_mod_cast hlt, h.row⟩
  · rintro ⟨hpositive, hlt, hrow⟩
    have hstride : event.stride.toNat < 2 ^ 31 :=
      (Nat.le_mul_of_pos_right _ (Nat.pos_of_mul_pos_left hpositive)).trans_lt hlt
    have hheight : event.height.toNat < 2 ^ 31 :=
      (Nat.le_mul_of_pos_left _ (Nat.pos_of_mul_pos_right hpositive)).trans_lt hlt
    have hs := toInt_toInt32 hstride
    have hh := toInt_toInt32 hheight
    have hfactors : event.stride.toInt32.toInt * event.height.toInt32.toInt =
        (event.stride.toNat * event.height.toNat : ℕ) := by
      rw [hs, hh, Nat.cast_mul]
    have hproduct := toInt_mul hfactors hlt
    refine ⟨?_, ?_, toInt_toInt32 (by omega), hh, hs, hrow⟩
    · rw [hproduct, Nat.cast_mul]
    · rw [hproduct]
      exact_mod_cast hpositive

/-! ## Where a request comes from -/

section

variable (P : ℤ → UInt32 → UInt32 → UInt32 → Prop)

def SourceFrom : Option WlSource → Prop
  | some (.shm fd width height stride) => P fd width height stride
  | _ => True

def RequestFrom : WlEffect β → Prop
  | .attachShm _ _ fd poolSize width height stride =>
      ∃ w h s, P fd w h s ∧ poolSize = s.toInt32 * h.toInt32 ∧ width = w.toInt32 ∧
        height = h.toInt32 ∧ stride = s.toInt32
  | _ => True

/-- What the code of one output leaves and asks for. -/
def OutputFrom (result : WlOutput β × List (WlEffect β)) : Prop :=
  SourceFrom P result.1.currentSource ∧ ∀ e ∈ result.2, RequestFrom P e

/-- All SHM sources and all requests are from messages with `P`. -/
structure PortalFrom (st : WlState β) : Prop where
  sources : ∀ out ∈ st.outputs, SourceFrom P out.currentSource
  requests : ∀ e ∈ st.effects, RequestFrom P e

/-- An SHM message of the step has `P`. -/
def MessageFrom : WlLabel β → Prop
  | .capture event _ =>
      event.tag = .shm → P (event.fds.headD 0) event.width event.height event.stride
  | _ => True

end

variable {P : ℤ → UInt32 → UInt32 → UInt32 → Prop} {out : WlOutput β}

theorem requestFrom_viewportDestination (out : WlOutput β) :
    ∀ e ∈ viewportDestination out, RequestFrom P e := by
  unfold viewportDestination
  split
  · exact List.forall_mem_singleton.mpr trivial
  · exact List.forall_mem_nil _

theorem outputFrom_refresh (shm : Bool) (h : SourceFrom P out.currentSource) :
    OutputFrom P (wpWlRefreshBuffer shm out) := by
  have hnothing : OutputFrom P (out, []) := ⟨h, List.forall_mem_nil _⟩
  unfold wpWlRefreshBuffer
  split
  · exact hnothing
  · split
    · exact hnothing
    · split
      · exact hnothing
      · split
        · exact hnothing
        · exact ⟨h, List.forall_mem_cons.mpr ⟨trivial, requestFrom_viewportDestination out⟩⟩
    · rename_i fd width height stride hsource
      split
      · exact hnothing
      · rw [hsource] at h
        refine ⟨hsource ▸ h, List.forall_mem_cons.mpr ⟨?_, requestFrom_viewportDestination out⟩⟩
        exact ⟨width, height, stride, h, rfl, rfl, rfl, rfl⟩

theorem outputFrom_setCurrentSource (shm : Bool) {source : WlSource}
    (h : SourceFrom P (some source)) (out : WlOutput β) :
    OutputFrom P (wpWlSetCurrentSource shm out source) := by
  cases hrun : out.frameLoopRunning with
  | true =>
      rw [wpWlSetCurrentSource_of_running shm source hrun]
      exact ⟨h, List.forall_mem_nil _⟩
  | false =>
      rw [wpWlSetCurrentSource_of_idle shm source hrun]
      exact outputFrom_refresh shm h

theorem requestFrom_releaseSlot (out : WlOutput β) (j : Fin wpWlCaptureSlotCount) :
    ∀ e ∈ (releaseSlot out j).2, RequestFrom P e := by
  unfold releaseSlot
  split
  · exact List.forall_mem_nil _
  · exact List.forall_mem_cons.mpr ⟨trivial, List.forall_mem_singleton.mpr trivial⟩

theorem outputFrom_storeBuf (shm : Bool) (event : CaptureEvent) (fd : ℤ) (imported : Option β)
    (h : SourceFrom P out.currentSource) : OutputFrom P (storeBuf shm event fd imported out) := by
  have hreleased := @requestFrom_releaseSlot β P
    { out with boundChannel := some (channelOf event.slot) } (localIdx event.slot)
  cases imported with
  | none =>
      refine ⟨by simpa only [storeBuf, releaseSlot_fst] using h, ?_⟩
      simp only [storeBuf]
      exact List.forall_mem_append.mpr ⟨hreleased, List.forall_mem_singleton.mpr trivial⟩
  | some buffer =>
      obtain ⟨hsource, hshown⟩ := @outputFrom_setCurrentSource β P shm (.slot event.slot) trivial
        { (releaseSlot { out with boundChannel := some (channelOf event.slot) }
            (localIdx event.slot)).1 with
          slots := Function.update (releaseSlot
            { out with boundChannel := some (channelOf event.slot) } (localIdx event.slot)).1.slots
            (localIdx event.slot) (some ⟨event.slot, buffer, fd, event.width, event.height⟩) }
      exact ⟨hsource, List.forall_mem_append.mpr ⟨hreleased, hshown⟩⟩

theorem requestFrom_detachOutput (out : WlOutput β) :
    ∀ e ∈ (detachOutput out).2, RequestFrom P e := by
  intro e he
  rcases List.mem_append.mp he with he | he
  · split at he
    · exact List.mem_singleton.mp he ▸ trivial
    · exact absurd he List.not_mem_nil
  · obtain ⟨slot, -, he⟩ := List.mem_flatMap.mp he
    simp only [List.mem_cons, List.not_mem_nil, or_false] at he
    rcases he with rfl | rfl
    · trivial
    · trivial

/-! ## Steps and runs -/

theorem PortalFrom.updateOutput {st : WlState β} (h : PortalFrom P st) (i : ℕ)
    {f : WlOutput β → WlOutput β × List (WlEffect β)}
    (hf : ∀ out, SourceFrom P out.currentSource → OutputFrom P (f out)) :
    PortalFrom P (updateOutput st i f) := by
  unfold Portal.updateOutput
  split
  · exact h
  · rename_i out hout
    obtain ⟨hsource, hrequests⟩ := hf out (h.sources out (List.mem_of_getElem? hout))
    constructor
    · intro out' hout'
      rcases List.mem_or_eq_of_mem_set hout' with hout' | rfl
      · exact h.sources out' hout'
      · exact hsource
    · exact List.forall_mem_append.mpr ⟨h.requests, hrequests⟩

theorem PortalFrom.modifyOutput {st : WlState β} (h : PortalFrom P st) (i : ℕ)
    {f : WlOutput β → WlOutput β} (hf : ∀ out, (f out).currentSource = out.currentSource) :
    PortalFrom P (modifyOutput st i f) := by
  apply h.updateOutput i
  intro out hout
  exact ⟨(hf out).symm ▸ hout, List.forall_mem_nil _⟩

theorem PortalFrom.closeFds {st : WlState β} (h : PortalFrom P st) (fds : List ℤ) :
    PortalFrom P { st with effects := st.effects ++ fds.map .closeFd } := by
  refine ⟨h.sources, List.forall_mem_append.mpr ⟨h.requests, ?_⟩⟩
  exact List.forall_mem_map.mpr fun _ _ ↦ trivial

theorem PortalFrom.handleCaptureEvent {st : WlState β} (h : PortalFrom P st) {event : CaptureEvent}
    {imported : Option β} (hmessage : MessageFrom P (.capture event imported)) :
    PortalFrom P (wpWlHandleCaptureEvent st event imported) := by
  unfold wpWlHandleCaptureEvent
  split
  · have hclosed := h.closeFds (event.fds.drop 1)
    simp only [handleBuf]
    split
    · exact hclosed.closeFds [_]
    · split
      · exact hclosed.closeFds [_]
      · exact hclosed.updateOutput _ fun out ↦ outputFrom_storeBuf _ _ _ _
  · have hclosed := h.closeFds (event.fds.take 1)
    simp only [handleFrame]
    split
    · exact hclosed
    · refine hclosed.updateOutput _ fun out hout ↦ ?_
      split
      · exact @outputFrom_setCurrentSource β P _ (.slot event.slot) trivial out
      · exact ⟨hout, List.forall_mem_nil _⟩
  · rename_i htag
    unfold handleShm
    split
    · exact h.closeFds [_]
    · have hsource : SourceFrom P (some (.shm (event.fds.headD 0) event.width event.height
          event.stride)) := hmessage htag
      exact h.updateOutput 0 fun out _ ↦ outputFrom_setCurrentSource _ hsource out

theorem PortalFrom.detach {st : WlState β} (h : PortalFrom P st) :
    PortalFrom P (wpWlDetach st) := by
  constructor
  · intro out hout
    obtain ⟨out, -, rfl⟩ := List.mem_map.mp hout
    trivial
  · refine List.forall_mem_append.mpr ⟨h.requests, ?_⟩
    intro e he
    obtain ⟨out, -, he⟩ := List.mem_flatMap.mp he
    exact requestFrom_detachOutput out e he

theorem PortalFrom.step {st st' : WlState β} {l : WlLabel β} (h : PortalFrom P st)
    (hmessage : MessageFrom P l) (hstep : wlStep st l = some st') : PortalFrom P st' := by
  cases l with
  | capture event imported =>
      obtain rfl := Option.some.inj hstep
      exact h.handleCaptureEvent hmessage
  | detach =>
      obtain rfl := Option.some.inj hstep
      exact h.detach
  | frameDone i =>
      obtain ⟨-, -, -, rfl⟩ := wlStep_frameDone hstep
      exact h.updateOutput i fun out hout ↦ outputFrom_refresh _ hout
  | configure i width height =>
      obtain rfl := wlStep_configure hstep
      exact h.modifyOutput i fun _ ↦ rfl
  | addOutput =>
      obtain rfl := Option.some.inj hstep
      unfold wpWlAddOutput
      split
      · exact h
      · refine ⟨List.forall_mem_append.mpr ⟨h.sources, ?_⟩, h.requests⟩
        exact List.forall_mem_singleton.mpr trivial
  | geometry i x y =>
      obtain rfl := Option.some.inj hstep
      exact h.modifyOutput i fun _ ↦ rfl
  | mode i current width height =>
      obtain rfl := Option.some.inj hstep
      apply h.modifyOutput i
      intro out
      unfold outputMode
      split
      · rfl
      · rfl
  | done i =>
      obtain rfl := Option.some.inj hstep
      apply h.modifyOutput i
      intro out
      unfold outputDone wpWlOutputReady
      split
      · rfl
      · rfl

theorem portalFrom_run {st : WlState β} {ls : List (WlLabel β)}
    (hmessages : ∀ l ∈ ls, MessageFrom P l) {dmabuf viewporter shm : Bool}
    (hrun : exec wlStep (.initial dmabuf viewporter shm) ls = some st) : PortalFrom P st := by
  have hinitial : PortalFrom P (WlState.initial dmabuf viewporter shm : WlState β) :=
    ⟨List.forall_mem_nil _, List.forall_mem_nil _⟩
  generalize (WlState.initial dmabuf viewporter shm : WlState β) = s at hrun hinitial
  induction ls generalizing s with
  | nil => exact Option.some.inj hrun ▸ hinitial
  | cons l ls ih =>
      obtain ⟨t, hstep, hrest⟩ := exec_cons_eq_some.mp hrun
      obtain ⟨hmessage, hmessages⟩ := List.forall_mem_cons.mp hmessages
      exact ih hmessages t hrest (hinitial.step hmessage hstep)

/-- Every pool that is asked for in a run is asked for with the numbers of an SHM
message that was received, and it agrees with the message exactly when these fit. -/
theorem shmPool_exact_iff {ls : List (WlLabel β)} {st : WlState β} {dmabuf viewporter shm : Bool}
    (hreceived : ∀ event imported, .capture event imported ∈ ls →
      ∃ header fds, parseEvent header fds = some event)
    (hrun : exec wlStep (.initial dmabuf viewporter shm) ls = some st) {x y : Int32} {fd : ℤ}
    {poolSize width height stride : Int32}
    (hattach : .attachShm x y fd poolSize width height stride ∈ st.effects) :
    ∃ header fds event imported, parseEvent header fds = some event ∧
      .capture event imported ∈ ls ∧ event.tag = .shm ∧ event.fds.headD 0 = fd ∧
      event.width.toInt32 = width ∧ event.height.toInt32 = height ∧
      event.stride.toInt32 = stride ∧
      (PoolExact event poolSize width height stride ↔ PoolFits event) := by
  have hfrom := @portalFrom_run β
    (fun fd w h s ↦ ∃ event imported, .capture event imported ∈ ls ∧ event.tag = .shm ∧
      event.fds.headD 0 = fd ∧ event.width = w ∧ event.height = h ∧ event.stride = s)
    st ls ?_ dmabuf viewporter shm hrun
  · obtain ⟨_, _, _, ⟨event, imported, hmem, htag, hfd, rfl, rfl, rfl⟩, rfl, rfl, rfl, rfl⟩ :=
      hfrom.requests _ hattach
    obtain ⟨header, fds, hparse⟩ := hreceived event imported hmem
    exact ⟨header, fds, event, imported, hparse, hmem, htag, hfd, rfl, rfl, rfl,
      poolExact_iff event⟩
  · rintro (⟨event, imported⟩ | _ | _ | _ | _ | _ | _ | _) hl
    · exact fun htag ↦ ⟨event, imported, hl, htag, rfl, rfl, rfl, rfl⟩
    all_goals trivial

/-- One output is shown what a single SHM message describes. -/
def showShm (event : CaptureEvent) : List (WlLabel ℕ) :=
  [.addOutput, .done 0, .capture event none]

def shmEvent (width height stride : UInt32) : CaptureEvent :=
  { CaptureEvent.zero .shm with
    width := width, height := height, stride := stride, fds := [7] }

theorem shmPool_exact_iff_small :
    ∃ header fds event imported, parseEvent header fds = some event ∧
      .capture event imported ∈ showShm (shmEvent 640 480 2560) ∧ event.tag = .shm ∧
      event.fds.headD 0 = 7 ∧ event.width.toInt32 = 640 ∧ event.height.toInt32 = 480 ∧
      event.stride.toInt32 = 2560 ∧
      (PoolExact event 1228800 640 480 2560 ↔ PoolFits event) := by
  have hrun : (exec wlStep (.initial true true true) (showShm (shmEvent 640 480 2560))).map
      WlState.effects = some [.attachShm 0 0 7 1228800 640 480 2560, .setDestination 0 0] := by
    decide
  obtain ⟨st, hst, heffects⟩ := Option.map_eq_some_iff.mp hrun
  refine shmPool_exact_iff ?_ hst (by rw [heffects]; exact List.mem_cons_self)
  intro event imported hmem
  simp only [showShm, List.mem_cons, List.not_mem_nil, or_false, reduceCtorEq, false_or] at hmem
  obtain ⟨rfl, -⟩ := WlLabel.capture.inj hmem
  exact ⟨bytesOf "SHM 640 480 2560", [7], by decide⟩

/-- The product is the first that does not fit. -/
theorem shmPool_wraps :
    parseEvent (bytesOf "SHM 16384 32768 65536") [7] = some (shmEvent 16384 32768 65536) ∧
      (exec wlStep (.initial true true true) (showShm (shmEvent 16384 32768 65536))).map
          WlState.effects =
        some [.attachShm 0 0 7 (-2147483648) 16384 32768 65536, .setDestination 0 0] ∧
      ¬ PoolExact (shmEvent 16384 32768 65536) (-2147483648) 16384 32768 65536 := by
  refine ⟨by decide, by decide, fun h ↦ ?_⟩
  exact absurd h.positive (by decide)

end Wallpiper.Portal
