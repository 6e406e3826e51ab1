import Mathlib.Data.List.Basic

/-!
# Lists whose elements carry keys

An element may have a key, and no key is carried at two places.  Replacing one
element keeps the keys apart if the new key was its own or nobody's.
-/

namespace Foundations

variable {α κ : Type*} {key : α → Option κ} {xs : List α}

/-- No key is carried at two places. -/
def KeysApart (key : α → Option κ) (xs : List α) : Prop :=
  ∀ (i j : ℕ) (a b : α) (k : κ), xs[i]? = some a → xs[j]? = some b →
    key a = some k → key b = some k → i = j

theorem keysApart_of_none (h : ∀ a ∈ xs, key a = none) : KeysApart key xs := by
  intro i j a b k ha _ hk
  exact absurd ((h a (List.mem_of_getElem? ha)).symm.trans hk) (by simp)

theorem KeysApart.set (h : KeysApart key xs) {i : ℕ} {a a' : α} (ha : xs[i]? = some a)
    (hkey : ∀ k, key a' = some k → key a = some k ∨ ∀ b ∈ xs, key b ≠ some k) :
    KeysApart key (xs.set i a') := by
  have hold : ∀ j b k, (xs.set i a')[j]? = some b → key b = some k →
      (∃ c, xs[j]? = some c ∧ key c = some k) ∨ j = i ∧ ∀ c ∈ xs, key c ≠ some k := by
    intro j b k hb hk
    by_cases hj : j = i
    · subst hj
      obtain ⟨hlt, _⟩ := List.getElem?_eq_some_iff.mp ha
      rw [List.getElem?_set_self hlt] at hb
      obtain rfl := Option.some.inj hb
      exact (hkey k hk).imp (fun hown ↦ ⟨a, ha, hown⟩) fun hnew ↦ ⟨rfl, hnew⟩
    · rw [List.getElem?_set_ne (Ne.symm hj)] at hb
      exact .inl ⟨b, hb, hk⟩
  intro j j' b b' k hb hb' hk hk'
  rcases hold j b k hb hk with ⟨c, hc, hck⟩ | ⟨hj, hnew⟩
  · rcases hold j' b' k hb' hk' with ⟨c', hc', hck'⟩ | ⟨_, hnew⟩
    · exact h j j' c c' k hc hc' hck hck'
    · exact absurd hck (hnew c (List.mem_of_getElem? hc))
  · rcases hold j' b' k hb' hk' with ⟨c', hc', hck'⟩ | ⟨hj', _⟩
    · exact absurd hck' (hnew c' (List.mem_of_getElem? hc'))
    · exact hj.trans hj'.symm

end Foundations
