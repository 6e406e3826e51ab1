import Mathlib.Data.List.Basic

/-!
# Histories read by a fold

What has happened to an object is a list of events, read from the left by a
fold.  A law says which events are allowed after what the fold has seen.
-/

namespace Foundations

variable {α μ : Type*} (read : μ → α → μ) (allowed : μ → α → Prop)

/-- Every event of the history is allowed after the events before it. -/
def Lawful (m : μ) (history : List α) : Prop :=
  ∀ before x after, history = before ++ x :: after → allowed (before.foldl read m) x

variable {read allowed}

theorem lawful_nil (m : μ) : Lawful read allowed m [] := by
  intro before x after hsplit
  exact absurd hsplit.symm (List.append_ne_nil_of_right_ne_nil _ (List.cons_ne_nil _ _))

theorem lawful_of_forall {m : μ} {xs : List α} (h : ∀ x ∈ xs, ∀ m, allowed m x) :
    Lawful read allowed m xs := by
  intro before x after hsplit
  apply h x
  rw [hsplit]
  exact List.mem_append_right before List.mem_cons_self

theorem lawful_cons {m : μ} {x : α} {xs : List α} :
    Lawful read allowed m (x :: xs) ↔ allowed m x ∧ Lawful read allowed (read m x) xs := by
  constructor
  · intro h
    refine ⟨h [] x xs rfl, ?_⟩
    intro before y after hsplit
    exact h (x :: before) y after (by rw [hsplit, List.cons_append])
  · rintro ⟨hx, hxs⟩ before y after hsplit
    cases before with
    | nil =>
        obtain ⟨rfl, _⟩ := List.cons.inj hsplit
        exact hx
    | cons z before =>
        obtain ⟨rfl, hrest⟩ := List.cons.inj hsplit
        exact hxs before y after hrest

instance decidableLawful [∀ m x, Decidable (allowed m x)] :
    ∀ m xs, Decidable (Lawful read allowed m xs)
  | m, [] => isTrue (lawful_nil m)
  | m, x :: xs =>
      have := decidableLawful (read m x) xs
      decidable_of_iff _ lawful_cons.symm

theorem lawful_append {m : μ} {xs ys : List α} :
    Lawful read allowed m (xs ++ ys) ↔
      Lawful read allowed m xs ∧ Lawful read allowed (xs.foldl read m) ys := by
  induction xs generalizing m with
  | nil =>
      constructor
      · exact fun h ↦ ⟨lawful_nil m, h⟩
      · exact fun h ↦ h.2
  | cons x xs ih => rw [List.cons_append, lawful_cons, lawful_cons, ih, List.foldl_cons, and_assoc]

end Foundations
