import Mathlib.Logic.Basic
import Mathlib.Data.Sigma.Basic

/-!
# Programs that make calls

A program returns a value, or makes a call and goes on with the reply, or is
stuck because a bound on its loops was too small.  The system answers each call
by a step relation, so a run is cut after any number of calls.  What a program
returns, and what holds whenever a call is due, is shown call by call.
-/

namespace Foundations

inductive Program (C : Type) (R : C → Type) (α : Type) where
  | ret (a : α)
  | call (c : C) (next : R c → Program C R α)
  | stuck

namespace Program

variable {C : Type} {R : C → Type} {α β : Type}

def bind : Program C R α → (α → Program C R β) → Program C R β
  | .ret a, f => f a
  | .call c next, f => .call c fun r ↦ (next r).bind f
  | .stuck, _ => .stuck

instance : Monad (Program C R) where
  pure := .ret
  bind := bind

/-- Makes one call and returns its reply. -/
def perform (c : C) : Program C R (R c) := .call c .ret

/-! ## Runs -/

variable {σ : Type} (step : σ → (c : C) → R c → σ → Prop)

/-- Some calls are answered. -/
inductive Run : Program C R α → σ → Program C R α → σ → Prop where
  | refl (p : Program C R α) (s : σ) : Run p s p s
  | step {c : C} {next : R c → Program C R α} {s t : σ} {r : R c} {p : Program C R α} {u : σ}
      (hstep : step s c r t) (hrest : Run (next r) t p u) : Run (.call c next) s p u

/-- The program ends with a value and a state as required, whatever the answers
are; there always is one, and each time a call is due `atCall` holds. -/
def Returns (atCall : σ → C → Prop) (Q : α → σ → Prop) : Program C R α → σ → Prop
  | .ret a, s => Q a s
  | .call c next, s =>
      atCall s c ∧ (∃ r t, step s c r t) ∧
        ∀ r t, step s c r t → Returns atCall Q (next r) t
  | .stuck, _ => False

variable {step} {atCall : σ → C → Prop} {Q : α → σ → Prop}

theorem Returns.mono {Q' : α → σ → Prop} (hQ : ∀ a s, Q a s → Q' a s) {p : Program C R α} {s : σ}
    (h : Returns step atCall Q p s) : Returns step atCall Q' p s := by
  induction p generalizing s with
  | ret a => exact hQ a s h
  | call c next ih => exact ⟨h.1, h.2.1, fun r t ht ↦ ih r (h.2.2 r t ht)⟩
  | stuck => exact h

theorem Returns.mono_atCall {atCall' : σ → C → Prop} (hcall : ∀ s c, atCall s c → atCall' s c)
    {p : Program C R α} {s : σ} (h : Returns step atCall Q p s) :
    Returns step atCall' Q p s := by
  induction p generalizing s with
  | ret a => exact h
  | call c next ih => exact ⟨hcall s c h.1, h.2.1, fun r t ht ↦ ih r (h.2.2 r t ht)⟩
  | stuck => exact h

theorem Returns.bind {Q' : β → σ → Prop} {f : α → Program C R β} {p : Program C R α} {s : σ}
    (h : Returns step atCall Q p s) (hf : ∀ a t, Q a t → Returns step atCall Q' (f a) t) :
    Returns step atCall Q' (p >>= f) s := by
  induction p generalizing s with
  | ret a => exact hf a s h
  | call c next ih => exact ⟨h.1, h.2.1, fun r t ht ↦ ih r (h.2.2 r t ht)⟩
  | stuck => exact h

theorem returns_perform {c : C} {Q : R c → σ → Prop} {s : σ} (hcall : atCall s c)
    (hanswer : ∃ r t, step s c r t) (h : ∀ r t, step s c r t → Q r t) :
    Returns step atCall Q (perform c) s := ⟨hcall, hanswer, h⟩

/-- What a program returns is what the rest of it returns after some answers. -/
theorem Returns.run {p p' : Program C R α} {s s' : σ} (h : Returns step atCall Q p s)
    (hrun : Run step p s p' s') : Returns step atCall Q p' s' := by
  induction hrun with
  | refl => exact h
  | step hstep _ ih => exact ih (h.2.2 _ _ hstep)

theorem Run.mono {step' : σ → (c : C) → R c → σ → Prop}
    (hstep : ∀ s c r t, step s c r t → step' s c r t) {p p' : Program C R α} {s s' : σ}
    (h : Run step p s p' s') : Run step' p s p' s' := by
  induction h with
  | refl p s => exact .refl p s
  | step ht _ ih => exact .step (hstep _ _ _ _ ht) ih

/-! ## Runs with given replies -/

def value? : Program C R α → Option α
  | .ret a => some a
  | _ => none

theorem eq_ret_of_value? {p : Program C R α} {a : α} (h : p.value? = some a) : p = .ret a := by
  cases p with
  | ret b => rw [Option.some.inj h]
  | call | stuck => exact absurd h (by simp [value?])

/-- The run in which the calls get these replies, as far as the system can give
them. -/
def replay [DecidableEq C] (answer : σ → (c : C) → R c → Option σ) :
    List (Sigma R) → Program C R α → σ → Option (Program C R α × σ)
  | [], p, s => some (p, s)
  | ⟨c', r⟩ :: replies, .call c next, s =>
      if h : c' = c then
        (answer s c (h ▸ r)).bind fun t ↦ replay answer replies (next (h ▸ r)) t
      else none
  | _ :: _, _, _ => none

theorem run_of_replay [DecidableEq C] {answer : σ → (c : C) → R c → Option σ}
    {replies : List (Sigma R)} {p p' : Program C R α} {s s' : σ}
    (h : replay answer replies p s = some (p', s')) :
    Run (fun s c r t ↦ answer s c r = some t) p s p' s' := by
  induction replies generalizing p s with
  | nil =>
      obtain ⟨rfl, rfl⟩ := Prod.mk.inj (Option.some.inj h)
      exact .refl p s
  | cons reply replies ih =>
      obtain ⟨c', r⟩ := reply
      cases p with
      | ret a => exact absurd h (by simp [replay])
      | stuck => exact absurd h (by simp [replay])
      | call c next =>
          rw [replay] at h
          split at h
          · rename_i hc
            subst hc
            obtain ⟨t, ht, hrest⟩ := Option.bind_eq_some_iff.mp h
            exact .step ht (ih hrest)
          · exact absurd h (by simp)

end Program

end Foundations
