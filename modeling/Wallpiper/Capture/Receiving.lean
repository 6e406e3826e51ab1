import Wallpiper.Capture.InPlaceParsing

/-!
# What a received datagram may hold

Any process can send to the capture socket.  A header of 256 bytes leaves no
room for the terminator, and descriptors beyond those that the kind of message
keeps stay open.
-/

namespace Wallpiper.Capture

open Foundations.CText

/-- Every access of the receiver is inside its buffers exactly if the terminator
is. -/
theorem accesses_inside_iff (header buf : HeaderBuf) (dgram : Datagram) :
    (∃ receipt, wpRecvCaptureEventIn header buf dgram = .ok receipt) ↔ TerminatorFits dgram := by
  rw [wpRecvCaptureEventIn_eq]
  by_cases hfits : TerminatorFits dgram
  · rw [if_pos hfits]
    exact iff_of_true ⟨_, rfl⟩ hfits
  · rw [if_neg hfits]
    refine iff_of_false ?_ hfits
    rintro ⟨receipt, hreceipt⟩
    exact absurd hreceipt (by simp)

def zeroBuf : HeaderBuf := ⟨List.replicate 256 0, List.length_replicate⟩

/-- A datagram that fills the buffer with letters. -/
theorem terminator_outside :
    wpRecvCaptureEventIn zeroBuf zeroBuf ⟨List.replicate 256 65, []⟩ = .error ⟨256⟩ := by
  decide +kernel

/-! ## Descriptors -/

/-- The descriptors that an event hands over. -/
def eventFds (event : Option CaptureEvent) : List ℤ := event.elim [] CaptureEvent.fds

/-- Every installed descriptor is handed over or closed, once. -/
def FdsAccounted (dgram : Datagram) (result : Except OutOfBounds Receipt) : Prop :=
  ∃ receipt, result = .ok receipt ∧
    (eventFds receipt.event ++ receipt.closed).Perm (installedFds dgram)

/-- A complete FRAME or SHM message keeps one descriptor. -/
def KeepsOneFd (fields : List Bytes) : Prop :=
  match fields with
  | [] => False
  | tag :: args =>
      tag = bytesOf "FRAME" ∧ 1 ≤ args.length ∨ tag = bytesOf "SHM" ∧ 3 ≤ args.length

instance (fields : List Bytes) : Decidable (KeepsOneFd fields) := by
  unfold KeepsOneFd
  split <;> infer_instance

/-- The number of descriptors that are dealt with. -/
def fdsHandled (fields : List Bytes) : ℕ := if KeepsOneFd fields then 1 else 2

theorem bufEvent_fds {args : List Bytes} {fds : List ℤ} {event : CaptureEvent}
    (h : bufEvent args fds = some event) : event.fds = fds.take 2 := by
  unfold bufEvent at h
  split at h
  · split at h
    · exact absurd h (by simp)
    · split at h
      · exact Option.some.inj h ▸ rfl
      · exact Option.some.inj h ▸ rfl
  · exact absurd h (by simp)

/-- A handled message accounts for as many of its descriptors. -/
theorem fieldsEvent_fds (fields : List Bytes) {fds : List ℤ} (hfds : fds.length ≤ 2) :
    (fieldsEvent fields fds).elim fds CaptureEvent.fds = fds.take (fdsHandled fields) := by
  have hall : fds.take 2 = fds := List.take_of_length_le hfds
  cases fields with
  | nil => exact hall.symm
  | cons tag args =>
      have hframe : bytesOf "BUF" ≠ bytesOf "FRAME" := by decide
      have hshm : bytesOf "BUF" ≠ bytesOf "SHM" := by decide
      have hshm' : bytesOf "FRAME" ≠ bytesOf "SHM" := by decide
      rw [fieldsEvent]
      split
      · rename_i htag
        have hnot : ¬ KeepsOneFd (tag :: args) := by
          simp [KeepsOneFd, htag, hframe, hshm]
        rw [fdsHandled, if_neg hnot, hall]
        cases hevent : bufEvent args fds with
        | none => rfl
        | some event => exact (bufEvent_fds hevent).trans hall
      · split
        · rename_i htag
          cases args with
          | nil =>
              have hnot : ¬ KeepsOneFd [tag] := by simp [KeepsOneFd, htag, hshm']
              rw [fdsHandled, if_neg hnot, hall]
              rfl
          | cons slotS args =>
              have hone : KeepsOneFd (tag :: slotS :: args) := .inl ⟨htag, by simp⟩
              rw [fdsHandled, if_pos hone]
              rfl
        · split
          · rename_i hnotFrame htag
            have hfew : args.length < 3 → fds.take (fdsHandled (tag :: args)) = fds := by
              intro hlt
              have hnot : ¬ KeepsOneFd (tag :: args) := by
                simp [KeepsOneFd, htag, hshm'.symm, hlt]
              rw [fdsHandled, if_neg hnot, hall]
            rcases args with _ | ⟨widthS, _ | ⟨heightS, _ | ⟨strideS, args⟩⟩⟩
            · exact (hfew (by simp)).symm
            · exact (hfew (by simp)).symm
            · exact (hfew (by simp)).symm
            · have hone : KeepsOneFd (tag :: widthS :: heightS :: strideS :: args) :=
                .inr ⟨htag, by simp⟩
              rw [fdsHandled, if_pos hone, shmEvent]
              split
              · rename_i hnone
                obtain rfl : fds = [] := List.length_eq_zero_iff.mp (by omega)
                rfl
              · rfl
          · rename_i hframe' hshm''
            have hnot : ¬ KeepsOneFd (tag :: args) := by
              simp [KeepsOneFd, hframe', hshm'']
            rw [fdsHandled, if_neg hnot, hall]
            rfl

/-- The descriptors are accounted for exactly if the terminator is inside and no
more of them arrive than the message deals with: two, or one with a complete
FRAME or SHM message. -/
theorem fdsAccounted_iff (header buf : HeaderBuf) (dgram : Datagram) :
    FdsAccounted dgram (wpRecvCaptureEventIn header buf dgram) ↔
      TerminatorFits dgram ∧ (installedFds dgram).length ≤ fdsHandled (headerFields dgram) := by
  rw [wpRecvCaptureEventIn_eq]
  by_cases hfits : TerminatorFits dgram
  · rw [if_pos hfits, and_iff_right hfits]
    have hevent := wpRecvCaptureEvent_eq hfits
    have hhandled : fdsHandled (headerFields dgram) ≤ 2 := by
      unfold fdsHandled
      split <;> omega
    have hfds := fieldsEvent_fds (headerFields dgram)
      (List.length_take_le wpCaptureMaxFds dgram.fds)
    have htake : (dgram.fds.take wpCaptureMaxFds).take (fdsHandled (headerFields dgram)) =
        (installedFds dgram).take (fdsHandled (headerFields dgram)) := by
      rw [installedFds, List.take_take, List.take_take, wpCaptureMaxFds, cmsgMaxFds,
        Nat.min_eq_left hhandled, Nat.min_eq_left (by omega)]
    have hlist : eventFds (wpRecvCaptureEvent dgram) ++
        (if (wpRecvCaptureEvent dgram).isSome then [] else dgram.fds.take wpCaptureMaxFds) =
          (installedFds dgram).take (fdsHandled (headerFields dgram)) := by
      rw [← htake, ← hfds, hevent]
      cases fieldsEvent (headerFields dgram) (dgram.fds.take wpCaptureMaxFds) with
      | none => rfl
      | some event => exact List.append_nil _
    constructor
    · rintro ⟨receipt, hreceipt, hperm⟩
      rw [← Except.ok.inj hreceipt, hlist] at hperm
      have hlength := hperm.length_eq
      rw [List.length_take] at hlength
      omega
    · intro hlength
      refine ⟨_, rfl, ?_⟩
      rw [hlist, List.take_of_length_le hlength]
  · rw [if_neg hfits]
    refine iff_of_false ?_ fun h ↦ hfits h.1
    rintro ⟨receipt, hreceipt, _⟩
    exact absurd hreceipt (by simp)

/-- A FRAME message with two descriptors. -/
theorem second_descriptor_leaks :
    ¬ FdsAccounted ⟨bytesOf "FRAME 0", [7, 8]⟩
      (wpRecvCaptureEventIn zeroBuf zeroBuf ⟨bytesOf "FRAME 0", [7, 8]⟩) := by
  have hrun : wpRecvCaptureEventIn zeroBuf zeroBuf ⟨bytesOf "FRAME 0", [7, 8]⟩ =
      .ok { event := some { CaptureEvent.zero .frame with fds := [7] }, closed := [] } := by
    decide +kernel
  rw [hrun]
  rintro ⟨receipt, hreceipt, hperm⟩
  rw [← Except.ok.inj hreceipt] at hperm
  exact absurd hperm.length_eq (by decide)

end Wallpiper.Capture
