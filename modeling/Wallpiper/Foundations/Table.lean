import Mathlib.Data.Finset.Card
import Mathlib.Data.List.FinRange
import Mathlib.Logic.Function.Basic

/-!
# Tables with a fixed number of places

An array of entries that are in use or not, searched from its first place,
and places that hold claims no two of which are the same.
-/

namespace Foundations.Table

variable {n : ℕ} {α : Type*}

/-- The first entry in use that satisfies `p`, with its place. -/
def find (p : α → Bool) (t : Fin n → Option α) : Option (Fin n × α) :=
  (List.finRange n).findSome? fun i ↦ (t i).bind fun a ↦ if p a then some (i, a) else none

/-- The first place that is not in use. -/
def free (t : Fin n → Option α) : Option (Fin n) :=
  (List.finRange n).find? fun i ↦ (t i).isNone

/-- Another entry in the first free place, when there is one. -/
def put (t : Fin n → Option α) (a : α) : Fin n → Option α :=
  match free t with
  | none => t
  | some i => Function.update t i (some a)

theorem eq_none_of_free {t : Fin n → Option α} {i : Fin n} (h : free t = some i) : t i = none :=
  Option.isNone_iff_eq_none.mp (List.find?_some (p := fun i ↦ (t i).isNone) h)

theorem found_eq_some_iff {p : α → Bool} {t : Fin n → Option α} {k i : Fin n} {a : α} :
    ((t k).bind fun b ↦ if p b then some (k, b) else none) = some (i, a) ↔
      k = i ∧ t i = some a ∧ p a = true := by
  cases hk : t k with
  | none =>
      constructor
      · intro h
        exact absurd h (by simp)
      · rintro ⟨rfl, ha, _⟩
        exact absurd (hk.symm.trans ha) (by simp)
  | some b =>
      simp only [Option.bind_some]
      constructor
      · intro h
        by_cases hp : p b = true
        · rw [if_pos hp] at h
          obtain ⟨rfl, rfl⟩ := Prod.mk.inj (Option.some.inj h)
          exact ⟨rfl, hk, hp⟩
        · rw [if_neg hp] at h
          exact absurd h (by simp)
      · rintro ⟨rfl, ha, hp⟩
        obtain rfl := Option.some.inj (hk.symm.trans ha)
        rw [if_pos hp]

theorem find_eq_some {p : α → Bool} {t : Fin n → Option α} {i : Fin n} {a : α}
    (h : find p t = some (i, a)) : t i = some a ∧ p a = true := by
  obtain ⟨pre, k, post, _, hk, _⟩ := List.findSome?_eq_some_iff.mp h
  exact (found_eq_some_iff.mp hk).2

/-- The places hold the elements of a list, as far as they go. -/
def Filled (t : Fin n → Option α) (L : List α) : Prop := ∀ i : Fin n, t i = L[i.val]?

/-- Filled from the first place on, the table is searched as the list is. -/
theorem Filled.find_map {t : Fin n → Option α} {L : List α} (h : Filled t L) (p : α → Bool) :
    (find p t).map Prod.snd = (L.take n).find? p := by
  have hsearch : ∀ (n : ℕ) (L : List α),
      ((List.finRange n).findSome? fun i ↦ L[i.val]?.bind fun a ↦ if p a then some a else none) =
        (L.take n).find? p := by
    intro n
    induction n with
    | zero => exact fun L ↦ rfl
    | succ n ih =>
        intro L
        rw [List.finRange_succ, List.findSome?_cons, List.findSome?_map]
        rcases L with _ | ⟨a, L⟩
        · have hnil := ih []
          rw [List.take_nil, List.find?_nil] at hnil
          exact hnil
        · rw [List.take_succ_cons, List.find?_cons, ← ih L]
          by_cases hp : p a = true
          · simp [hp]
          · simp [hp]
            rfl
  rw [find, List.map_findSome?, ← hsearch]
  congr 1
  funext i
  rw [Function.comp_apply, h i]
  cases L[i.val]? with
  | none => rfl
  | some a => by_cases hp : p a = true <;> simp [hp]

/-- The first free place is the one behind the list, when there is one. -/
theorem Filled.free_iff {t : Fin n → Option α} {L : List α} (h : Filled t L) :
    free t = if hlt : L.length < n then some ⟨L.length, hlt⟩ else none := by
  split
  · rename_i hlt
    refine List.find?_eq_some_iff_getElem.mpr ⟨?_, L.length, by simpa using hlt, by simp, ?_⟩
    · rw [h]
      simp
    · intro j hj
      have hplace : j < n := hj.trans hlt
      rw [List.getElem_finRange, h]
      simp [hj]
  · rename_i hfull
    refine List.find?_eq_none.mpr fun i _ ↦ ?_
    have hi : i.val < L.length := by omega
    rw [h, List.getElem?_eq_getElem hi]
    simp

theorem Filled.put {t : Fin n → Option α} {L : List α} (h : Filled t L) (a : α) :
    Filled (put t a) (L ++ [a]) := by
  rw [Table.put, h.free_iff]
  intro i
  by_cases hlt : L.length < n
  · rw [dif_pos hlt]
    dsimp only
    by_cases hi : i = ⟨L.length, hlt⟩
    · subst hi
      rw [Function.update_self, List.getElem?_concat_length]
    · have hne : i.val ≠ L.length := fun heq ↦ hi (Fin.ext heq)
      rw [Function.update_of_ne hi, h, List.getElem?_append]
      split
      · rfl
      · rw [List.getElem?_eq_none (by omega), List.getElem?_eq_none (by simp; omega)]
  · have hi : i.val < L.length := by omega
    rw [dif_neg hlt, List.getElem?_append_left hi]
    exact h i

/-- What was found can be replaced by another entry that is found. -/
theorem find_update {p : α → Bool} {t : Fin n → Option α} {i : Fin n} {a b : α}
    (h : find p t = some (i, a)) (hb : p b = true) :
    find p (Function.update t i (some b)) = some (i, b) := by
  obtain ⟨pre, k, post, hsplit, hk, hpre⟩ := List.findSome?_eq_some_iff.mp h
  obtain ⟨rfl, _, _⟩ := found_eq_some_iff.mp hk
  apply List.findSome?_eq_some_iff.mpr
  refine ⟨pre, k, post, hsplit, ?_, ?_⟩
  · exact found_eq_some_iff.mpr ⟨rfl, Function.update_self .., hb⟩
  · intro x hx
    have hne : x ≠ k := by
      rintro rfl
      have hnodup := hsplit ▸ List.nodup_finRange n
      exact List.disjoint_of_nodup_append hnodup hx List.mem_cons_self
    rw [Function.update_of_ne hne]
    exact hpre x hx

/-! ## Claims -/

variable {κ : Type*}

theorem nodup_claims {L : List (Option κ)} (h : L.Pairwise fun a b ↦ a = none ∨ a ≠ b) :
    (L.filterMap id).Nodup := by
  apply List.Pairwise.filterMap id _ h
  rintro a a' hne k rfl k' rfl rfl
  rcases hne with hnone | hne
  · exact absurd hnone (by simp)
  · exact hne rfl

/-- If the places are as many as the allowed claims and one of these is not
made, some place holds no claim. -/
theorem none_mem_of_claims [DecidableEq κ] {L : List (Option κ)} {claims : Finset κ} {c : κ}
    (hdistinct : L.Pairwise fun a b ↦ a = none ∨ a ≠ b) (hallowed : ∀ k, some k ∈ L → k ∈ claims)
    (hc : c ∈ claims) (hfree : some c ∉ L) (hcard : claims.card ≤ L.length) : none ∈ L := by
  by_contra hfull
  have hsome : ∀ a ∈ L, (id a).isSome := by
    intro a ha
    apply Option.isSome_iff_ne_none.mpr
    rintro rfl
    exact hfull ha
  have hlength : (L.filterMap id).length = L.length := by
    rw [List.length_filterMap_eq_countP]
    exact List.countP_eq_length.mpr hsome
  have hmem : ∀ k, k ∈ L.filterMap id ↔ some k ∈ L := by
    intro k
    simp
  have hnot : c ∉ (L.filterMap id).toFinset := by
    rw [List.mem_toFinset, hmem]
    exact hfree
  have hsub : insert c (L.filterMap id).toFinset ⊆ claims := by
    intro k hk
    rcases Finset.mem_insert.mp hk with rfl | hk
    · exact hc
    · exact hallowed k ((hmem k).mp (List.mem_toFinset.mp hk))
  have hle := Finset.card_le_card hsub
  rw [Finset.card_insert_of_notMem hnot, List.toFinset_card_of_nodup (nodup_claims hdistinct),
    hlength] at hle
  exact absurd hcard (by omega)

end Foundations.Table
