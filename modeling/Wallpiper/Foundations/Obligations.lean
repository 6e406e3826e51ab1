import Wallpiper.Foundations.Histories

/-!
# Journals

A journal records what happened, oldest first.  An event may need what was
recorded before it; and what an event opens must be held until a later event
closes it.
-/

namespace Foundations

section Allowed

variable {α μ : Type*} {read : μ → α → μ} {allowed : μ → α → Prop}

/-- Events that stay allowed are allowed one after the other. -/
theorem lawful_of_mono (hmono : ∀ m x y, allowed m y → allowed (read m x) y) {m : μ} {xs : List α}
    (h : ∀ x ∈ xs, allowed m x) : Lawful read allowed m xs := by
  induction xs generalizing m with
  | nil => exact lawful_nil m
  | cons x xs ih =>
      rw [List.forall_mem_cons] at h
      exact lawful_cons.mpr ⟨h.1, ih fun y hy ↦ hmono m x y (h.2 y hy)⟩

/-- A reader that remembers everything remembers the journal. -/
theorem foldl_remember (seen xs : List α) :
    xs.foldl (fun seen x ↦ seen ++ [x]) seen = seen ++ xs := by
  induction xs generalizing seen with
  | nil => simp
  | cons x xs ih => rw [List.foldl_cons, ih, List.append_assoc, List.singleton_append]

end Allowed

section Settled

variable {α κ : Type*} (opens closes : κ → α → Prop)

/-- What was opened is held, or was closed later. -/
def Settled (held : κ → Prop) (journal : List α) : Prop :=
  ∀ before e after k, journal = before ++ e :: after → opens k e →
    held k ∨ ∃ e' ∈ after, closes k e'

variable {opens closes}

theorem settled_of_no_opens {held : κ → Prop} {journal : List α}
    (h : ∀ e ∈ journal, ∀ k, ¬ opens k e) : Settled opens closes held journal := by
  intro before e after k hsplit hopens
  exact absurd hopens (h e (by simp [hsplit]) k)

/-- What happens next keeps what is held or closes it. -/
theorem Settled.append {held held' : κ → Prop} {xs ys : List α} (hx : Settled opens closes held xs)
    (hkeep : ∀ k, held k → held' k ∨ ∃ e ∈ ys, closes k e) (hy : Settled opens closes held' ys) :
    Settled opens closes held' (xs ++ ys) := by
  intro before e after k hsplit hopens
  rcases List.append_eq_append_iff.mp hsplit with ⟨mid, rfl, hys⟩ | ⟨mid, rfl, hafter⟩
  · exact hy mid e after k hys hopens
  · cases mid with
    | nil => exact hy [] e after k (by simpa using hafter.symm) hopens
    | cons e' mid =>
        obtain ⟨rfl, rfl⟩ := List.cons.inj hafter
        rcases hx before e mid k rfl hopens with hheld | ⟨e', he', hcloses⟩
        · rcases hkeep k hheld with hheld' | ⟨e', he', hcloses⟩
          · exact .inl hheld'
          · exact .inr ⟨e', List.mem_append_right _ he', hcloses⟩
        · exact .inr ⟨e', List.mem_append_left _ he', hcloses⟩

end Settled

end Foundations
