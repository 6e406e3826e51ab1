import Mathlib.Logic.Function.Basic

/-!
# Marks held by claimants

A resource is marked as in use as long as somebody holds a claim on it, and
nobody shares one.  A claim is acquired on an unmarked resource, handed from
one holder to another, and released together with the mark.
-/

namespace Foundations

variable {κ ι : Type*}

section

variable [DecidableEq ι] {claim : ι → Option κ} {i j : ι}

theorem update_some_cases {c c' : κ} (h : Function.update claim i (some c) j = some c') :
    j = i ∧ c' = c ∨ j ≠ i ∧ claim j = some c' := by
  by_cases hj : j = i
  · subst hj
    rw [Function.update_self] at h
    exact .inl ⟨rfl, (Option.some.inj h).symm⟩
  · rw [Function.update_of_ne hj] at h
    exact .inr ⟨hj, h⟩

theorem update_none_iff {c : κ} :
    Function.update claim i none j = some c ↔ claim j = some c ∧ j ≠ i := by
  by_cases hj : j = i
  · subst hj
    simp
  · simp [hj]

end

/-- A resource is marked exactly if it is claimed, and claims are exclusive. -/
structure Held (inUse : κ → Bool) (claim : ι → Option κ) : Prop where
  marked : ∀ c, inUse c = true ↔ ∃ i, claim i = some c
  exclusive : ∀ i j c, claim i = some c → claim j = some c → i = j

namespace Held

variable {inUse : κ → Bool} {claim : ι → Option κ}

theorem unclaimed : Held (fun _ : κ ↦ false) (fun _ : ι ↦ none) := by
  refine ⟨?_, ?_⟩
  · intro c
    simp
  · intro i j c hi
    exact absurd hi (by simp)

variable [DecidableEq κ] [DecidableEq ι]

theorem acquire (h : Held inUse claim) {c : κ} {i : ι} (hfree : inUse c = false)
    (hi : claim i = none) :
    Held (Function.update inUse c true) (Function.update claim i (some c)) := by
  have hunclaimed : ∀ j, claim j ≠ some c := by
    intro j hj
    have hmarked := (h.marked c).mpr ⟨j, hj⟩
    exact absurd (hfree.symm.trans hmarked) (by simp)
  refine ⟨?_, ?_⟩
  · intro c'
    by_cases hc : c' = c
    · subst hc
      simp only [Function.update_self, true_iff]
      exact ⟨i, Function.update_self ..⟩
    · rw [Function.update_of_ne hc, h.marked c']
      constructor
      · rintro ⟨j, hj⟩
        have hne : j ≠ i := by
          rintro rfl
          exact absurd (hi.symm.trans hj) (by simp)
        exact ⟨j, by rw [Function.update_of_ne hne, hj]⟩
      · rintro ⟨j, hj⟩
        rcases update_some_cases hj with ⟨_, heq⟩ | ⟨_, hj⟩
        · exact absurd heq hc
        · exact ⟨j, hj⟩
  · intro j k c' hj hk
    rcases update_some_cases hj with ⟨hji, rfl⟩ | ⟨_, hjold⟩
    · rcases update_some_cases hk with ⟨hki, _⟩ | ⟨_, hkold⟩
      · exact hji.trans hki.symm
      · exact absurd hkold (hunclaimed k)
    · rcases update_some_cases hk with ⟨_, rfl⟩ | ⟨_, hkold⟩
      · exact absurd hjold (hunclaimed j)
      · exact h.exclusive j k c' hjold hkold

theorem release (h : Held inUse claim) {c : κ} {i : ι} (hi : claim i = some c) :
    Held (Function.update inUse c false) (Function.update claim i none) := by
  refine ⟨?_, ?_⟩
  · intro c'
    simp only [update_none_iff]
    by_cases hc : c' = c
    · subst hc
      simp only [Function.update_self, Bool.false_eq_true, false_iff]
      rintro ⟨j, hj, hne⟩
      exact hne (h.exclusive j i c' hj hi)
    · rw [Function.update_of_ne hc, h.marked c']
      constructor
      · rintro ⟨j, hj⟩
        refine ⟨j, hj, ?_⟩
        rintro rfl
        exact hc (Option.some.inj (hj.symm.trans hi))
      · rintro ⟨j, hj, _⟩
        exact ⟨j, hj⟩
  · intro j k c' hj hk
    exact h.exclusive j k c' (update_none_iff.mp hj).1 (update_none_iff.mp hk).1

theorem handOver (h : Held inUse claim) {c : κ} {i j : ι} (hi : claim i = some c)
    (hj : claim j = none) :
    Held inUse (Function.update (Function.update claim i none) j (some c)) := by
  have hne : j ≠ i := by
    rintro rfl
    exact absurd (hj.symm.trans hi) (by simp)
  have hmoved := (h.release hi).acquire (c := c) (i := j) (Function.update_self ..)
    (by rw [Function.update_of_ne hne, hj])
  have hmark : inUse c = true := (h.marked c).mpr ⟨i, hi⟩
  rwa [Function.update_idem, ← hmark, Function.update_eq_self] at hmoved

end Held

end Foundations
