import Wallpiper.Foundations.CText

/-!
# Substrings

Searching a block of bytes for another one.  What holds no separator lies
within one of the pieces between separators.
-/

namespace Foundations.CText

/-- Whether the block stands somewhere in the other one. -/
def memmem (haystack needle : Bytes) : Bool := haystack.tails.any needle.isPrefixOf

theorem memmem_iff (haystack needle : Bytes) :
    memmem haystack needle = true ↔ needle <:+: haystack := by
  rw [memmem, List.any_eq_true, List.infix_iff_prefix_suffix]
  constructor
  · rintro ⟨rest, hrest, hstart⟩
    exact ⟨rest, List.isPrefixOf_iff_prefix.mp hstart, (List.mem_tails _ _).mp hrest⟩
  · rintro ⟨rest, hstart, hrest⟩
    exact ⟨rest, (List.mem_tails _ _).mpr hrest, List.isPrefixOf_iff_prefix.mpr hstart⟩

variable {needle front back s : Bytes} {sep : UInt8}

theorem infix_append_cons_iff (h : sep ∉ needle) :
    needle <:+: front ++ sep :: back ↔ needle <:+: front ∨ needle <:+: back := by
  constructor
  · intro hfound
    induction front with
    | nil =>
        rcases List.infix_cons_iff.mp hfound with hstart | hback
        · exact Or.inl (@prefix_of_prefix_append_cons needle [] back sep h hstart).isInfix
        · exact Or.inr hback
    | cons c front ih =>
        rcases List.infix_cons_iff.mp hfound with hstart | hrest
        · have hfront : needle <+: c :: front :=
            @prefix_of_prefix_append_cons needle (c :: front) back sep h hstart
          exact Or.inl hfront.isInfix
        · exact (ih hrest).imp_left List.infix_cons
  · rintro (hfront | hback)
    · exact hfront.trans (List.prefix_append _ _).isInfix
    · exact hback.trans ((List.suffix_cons sep back).trans (List.suffix_append _ _)).isInfix

/-- The pieces between the separators. -/
def pieces (sep : UInt8) (s : Bytes) : List Bytes := s.splitOnP fun c ↦ c = sep

theorem pieces_of_notMem (h : sep ∉ s) : pieces sep s = [s] := by
  refine List.splitOnP_eq_singleton fun c hc ↦ ?_
  have hne : c ≠ sep := fun heq ↦ h (heq ▸ hc)
  simpa using hne

theorem pieces_append_cons (h : sep ∉ front) :
    pieces sep (front ++ sep :: back) = front :: pieces sep back := by
  refine List.splitOnP_append_cons_of_forall_mem (fun c hc ↦ ?_) sep (by simp) back
  have hne : c ≠ sep := fun heq ↦ h (heq ▸ hc)
  simpa using hne

/-- The first piece and what is behind it. -/
theorem pieces_cases (sep : UInt8) (s : Bytes) :
    (sep ∉ s ∧ pieces sep s = [s]) ∨
      ∃ front back, sep ∉ front ∧ s = front ++ sep :: back ∧
        pieces sep s = front :: pieces sep back := by
  by_cases h : sep ∈ s
  · obtain ⟨front, back, rfl, hfront⟩ := List.eq_append_cons_of_mem h
    exact Or.inr ⟨front, back, hfront, rfl, pieces_append_cons hfront⟩
  · exact Or.inl ⟨h, pieces_of_notMem h⟩

theorem infix_iff_pieces (h : sep ∉ needle) (s : Bytes) :
    needle <:+: s ↔ ∃ piece ∈ pieces sep s, needle <:+: piece := by
  induction hn : s.length using Nat.strong_induction_on generalizing s with
  | _ n ih =>
    rcases pieces_cases sep s with ⟨-, hpieces⟩ | ⟨front, back, -, rfl, hpieces⟩
    · rw [hpieces]
      simp
    · rw [List.length_append, List.length_cons] at hn
      rw [hpieces, infix_append_cons_iff h, ih back.length (by omega) back rfl]
      simp

end Foundations.CText
