import Mathlib.Data.List.Basic

/-!
# Events that need an earlier event

In a log some events give a key and some need one.  The log is in order when
every key is given before it is needed.
-/

namespace Foundations

variable {ε κ : Type*} (gives needs : ε → Option κ)

/-- Every event that needs a key comes after one that gives it. -/
def Preceded (log : List ε) : Prop :=
  ∀ before e after k, log = before ++ e :: after → needs e = some k →
    ∃ c ∈ before, gives c = some k

theorem preceded_nil : Preceded gives needs [] := by
  intro before e after k hsplit
  exact absurd hsplit.symm (List.append_ne_nil_of_right_ne_nil _ (List.cons_ne_nil _ _))

variable {gives needs}

theorem preceded_concat {log : List ε} {e : ε} :
    Preceded gives needs (log ++ [e]) ↔
      Preceded gives needs log ∧ ∀ k, needs e = some k → ∃ c ∈ log, gives c = some k := by
  constructor
  · intro h
    constructor
    · intro before e' after k hsplit hneeds
      apply h before e' (after ++ [e]) k _ hneeds
      rw [hsplit, List.append_assoc, List.cons_append]
    · intro k hneeds
      exact h log e [] k rfl hneeds
  · rintro ⟨hlog, hlast⟩ before e' after k hsplit hneeds
    rcases List.eq_nil_or_concat after with rfl | ⟨after', x, rfl⟩
    · obtain ⟨rfl, he⟩ := List.append_inj' hsplit rfl
      obtain rfl := List.singleton_inj.mp he
      exact hlast k hneeds
    · have hassoc : log ++ [e] = (before ++ e' :: after') ++ [x] := by
        rw [hsplit, List.concat_eq_append, List.append_assoc, List.cons_append]
      exact hlog before e' after' k (List.append_inj' hassoc rfl).1 hneeds

theorem preceded_iff_getElem? {log : List ε} :
    Preceded gives needs log ↔
      ∀ i < log.length, ∀ e ∈ log[i]?, ∀ k ∈ needs e, ∃ c ∈ log.take i, gives c = some k := by
  constructor
  · intro h i hi e he k hk
    apply h (log.take i) e (log.drop (i + 1)) k _ hk
    obtain ⟨_, rfl⟩ := List.getElem?_eq_some_iff.mp he
    rw [← List.drop_eq_getElem_cons hi, List.take_append_drop]
  · intro h before e after k hsplit hneeds
    subst hsplit
    have hgives := h before.length (by simp) e (by simp) k hneeds
    simpa using hgives

instance decidablePreceded [DecidableEq κ] (log : List ε) : Decidable (Preceded gives needs log) :=
  decidable_of_iff _ preceded_iff_getElem?.symm

end Foundations
