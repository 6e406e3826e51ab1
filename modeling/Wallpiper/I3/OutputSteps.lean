import Wallpiper.I3.Portal

/-!
# What the i3 portal's code does to its outputs

A buffer goes to the output bound to its channel, or to an unbound one when no
output is.  Apart from capture events and DETACH, the portal only redraws.
-/

namespace Wallpiper.I3

open Capture

/-! ## The output that a buffer goes to -/

theorem leftmostFree_eq_some {best : Option (ℕ × Int32)} {i k : ℕ} {outs : List I3Output}
    (h : leftmostFree best i outs = some k) :
    best.map Prod.fst = some k ∨
      ∃ j out, outs[j]? = some out ∧ k = i + j ∧ out.boundChannel = none := by
  induction outs generalizing best i with
  | nil => exact .inl h
  | cons out outs ih =>
      have hlater : (∃ j out', outs[j]? = some out' ∧ k = i + 1 + j ∧ out'.boundChannel = none) →
          ∃ j out', (out :: outs)[j]? = some out' ∧ k = i + j ∧ out'.boundChannel = none := by
        rintro ⟨j, out', hout', rfl, hfree⟩
        exact ⟨j + 1, out', hout', by omega, hfree⟩
      unfold leftmostFree at h
      split at h
      · exact (ih h).imp_right hlater
      · rename_i hfree
        rw [not_or, Option.not_isSome_iff_eq_none] at hfree
        split at h
        · refine .inr ((ih h).elim ?_ hlater)
          intro hk
          exact ⟨0, out, rfl, (Option.some.inj hk).symm, hfree.2⟩
        · exact (ih h).imp_right hlater

theorem outputForSize_eq_some {outputs : List I3Output} {width height : UInt32} {i : ℕ}
    (h : outputForSize outputs width height = some i) :
    ∃ out, outputs[i]? = some out ∧ out.boundChannel = none := by
  unfold outputForSize at h
  split at h
  · rename_i k hk
    obtain rfl := Option.some.inj h
    obtain ⟨hi, hmatch, _⟩ := List.findIdx?_eq_some_iff_getElem.mp hk
    simp only [Bool.and_eq_true, Option.isNone_iff_eq_none] at hmatch
    exact ⟨outputs[k], List.getElem?_eq_getElem hi, hmatch.1.1.2⟩
  · rcases leftmostFree_eq_some h with hbest | ⟨j, out, hout, hi, hfree⟩
    · exact absurd hbest (by simp)
    · rw [Nat.zero_add] at hi
      exact ⟨out, hi ▸ hout, hfree⟩

theorem findOutputForChannel_eq_some {outputs : List I3Output} {channel : UInt32} {i : ℕ}
    (h : findOutputForChannel outputs channel = some i) :
    ∃ out, outputs[i]? = some out ∧ out.boundChannel = some channel := by
  obtain ⟨hi, hbound, _⟩ := List.findIdx?_eq_some_iff_getElem.mp h
  exact ⟨outputs[i], List.getElem?_eq_getElem hi, eq_of_beq hbound⟩

/-- A buffer goes to the output of its channel, or to a free output if the
channel has none. -/
theorem outputForBuf_eq_some {outputs : List I3Output} {event : CaptureEvent} {i : ℕ}
    (h : outputForBuf outputs event = some i) :
    ∃ out, outputs[i]? = some out ∧
      (out.boundChannel = some (channelOf event.slot) ∨
        out.boundChannel = none ∧
          findOutputForChannel outputs (channelOf event.slot) = none) := by
  unfold outputForBuf at h
  split at h
  · rename_i k hk
    obtain rfl := Option.some.inj h
    obtain ⟨out, hout, hbound⟩ := findOutputForChannel_eq_some hk
    exact ⟨out, hout, .inl hbound⟩
  · rename_i hnone
    obtain ⟨out, hout, hfree⟩ := outputForSize_eq_some h
    exact ⟨out, hout, .inr ⟨hfree, hnone⟩⟩

/-! ## A buffer on its output -/

/-- The output of a buffer once its slot is emptied. -/
def emptiedFor (event : CaptureEvent) (out : I3Output) : I3Output × List I3Effect :=
  releaseSlot { out with boundChannel := some (channelOf event.slot) } (localIdx event.slot)

def importRequest (event : CaptureEvent) (fd : ℤ) (answers : XAnswers) (out : I3Output) :
    I3Effect :=
  .pixmapFromBuffers answers.pixmap out.window event.width.toUInt16 event.height.toUInt16
    event.stride event.modifier fd answers.imported

def filledFor (event : CaptureEvent) (answers : XAnswers) (out : I3Output) : I3Output :=
  { (emptiedFor event out).1 with
    slots := Function.update (emptiedFor event out).1.slots (localIdx event.slot)
      (some ⟨event.slot, answers.pixmap, event.width, event.height⟩) }

theorem storeBuf_of_failed (overlay : Bool) (event : CaptureEvent) (fd : ℤ) {answers : XAnswers}
    (h : answers.imported = false) (out : I3Output) :
    storeBuf overlay event fd answers out = ((emptiedFor event out).1,
      (emptiedFor event out).2 ++ [importRequest event fd answers (emptiedFor event out).1]) := by
  simp only [storeBuf, emptiedFor, importRequest, h, Bool.false_eq_true, if_false]

theorem storeBuf_of_imported (overlay : Bool) (event : CaptureEvent) (fd : ℤ)
    {answers : XAnswers} (h : answers.imported = true) (out : I3Output) :
    storeBuf overlay event fd answers out =
      ((setCurrentSource overlay (filledFor event answers out) (.slot event.slot)).1,
        (emptiedFor event out).2 ++ importRequest event fd answers (emptiedFor event out).1 ::
          (setCurrentSource overlay (filledFor event answers out) (.slot event.slot)).2) := by
  simp only [storeBuf, emptiedFor, filledFor, importRequest, h, if_true]

theorem updateOutput_effects {st : I3State} {i : ℕ} {out : I3Output}
    (hout : st.outputs[i]? = some out) (f : I3Output → I3Output × List I3Effect) :
    (updateOutput st i f).2 = (f out).2 := by
  simp only [updateOutput, hout]

/-! ## What a label does -/

def arrivingFds : I3Label → List ℤ
  | .capture event _ => event.fds
  | _ => []

/-- Nothing but a redrawn output or panel. -/
def Displays (st : I3State) (effects : List I3Effect) : Prop :=
  effects = [] ∨ ∃ out ∈ st.outputs,
    effects = drawDebugOverlay out ∨ ∃ overlay, effects = refreshBuffer overlay out

theorem displays_head {st : I3State} (f : I3Output → List I3Effect)
    (hf : ∀ out, f out = drawDebugOverlay out ∨ ∃ overlay, f out = refreshBuffer overlay out) :
    Displays st (st.outputs.head?.elim [] f) := by
  cases hout : st.outputs.head? with
  | none => exact .inl rfl
  | some out => exact .inr ⟨out, List.mem_of_head? hout, hf out⟩

theorem displays_handleExpose (st : I3State) (window count : ℕ) :
    Displays st (handleExpose st window count) := by
  unfold handleExpose
  split
  · split
    · exact .inl rfl
    · rename_i i _
      cases hout : st.outputs[i]? with
      | none => exact .inl rfl
      | some out => exact .inr ⟨out, List.mem_of_getElem? hout, .inr ⟨_, rfl⟩⟩
  · exact .inl rfl

theorem handleLabel_cases {st st' : I3State} {l : I3Label} {effects : List I3Effect}
    (h : handleLabel st l = some (st', effects)) :
    (∃ event answers, l = .capture event answers ∧
        handleCaptureEvent st event answers = (st', effects)) ∨
      (l = .detach ∧ detach st = (st', effects)) ∨
      (arrivingFds l = [] ∧ st'.outputs = st.outputs ∧ Displays st effects) := by
  cases l with
  | capture event answers => exact .inl ⟨event, answers, rfl, Option.some.inj h⟩
  | detach => exact .inr (.inl ⟨rfl, Option.some.inj h⟩)
  | debug enabled =>
      obtain ⟨rfl, rfl⟩ := Prod.mk.inj (Option.some.inj h)
      refine .inr (.inr ⟨rfl, rfl, displays_head _ ?_⟩)
      intro out
      cases enabled with
      | true => exact .inl rfl
      | false => exact .inr ⟨false, rfl⟩
  | redraw due =>
      obtain ⟨rfl, rfl⟩ := Prod.mk.inj (Option.some.inj h)
      refine .inr (.inr ⟨rfl, rfl, ?_⟩)
      split
      · exact displays_head _ fun out ↦ .inl rfl
      · exact .inl rfl
  | expose window count =>
      obtain ⟨rfl, rfl⟩ := Prod.mk.inj (Option.some.inj h)
      exact .inr (.inr ⟨rfl, rfl, displays_handleExpose st window count⟩)
  | destroyNotify window =>
      simp only [handleLabel] at h
      split at h
      · exact absurd h (by simp)
      · obtain ⟨rfl, rfl⟩ := Prod.mk.inj (Option.some.inj h)
        exact .inr (.inr ⟨rfl, rfl, .inl rfl⟩)

end Wallpiper.I3
