import Mathlib.Data.List.Basic
import Mathlib.Order.Nat

/-!
# Texts put together from parts

Two lists of parts give the same text although the parts differ only when what
one part lacks comes back in a later one.  Here a marked character shows that
it does not: no part has its first mark later than the part it stands for, and
a part that comes short before any mark makes up for nothing.
-/

namespace Foundations.TextParts

variable {α : Type*}

/-- A place inside both, where they differ. -/
def Clash (a b : List α) : Prop := ∃ (i : ℕ) (x y : α), a[i]? = some x ∧ b[i]? = some y ∧ x ≠ y

theorem Clash.append_ne {a b : List α} (h : Clash a b) (s t : List α) : a ++ s ≠ b ++ t := by
  obtain ⟨i, x, y, hx, hy, hne⟩ := h
  obtain ⟨hi, -⟩ := List.getElem?_eq_some_iff.mp hx
  obtain ⟨hj, -⟩ := List.getElem?_eq_some_iff.mp hy
  intro heq
  have hget := congrArg (fun l ↦ l[i]?) heq
  simp only [List.getElem?_append_left hi, List.getElem?_append_left hj, hx, hy] at hget
  exact hne (Option.some.inj hget)

/-- What a run of equal characters has before it ends. -/
theorem clash_replicate {c d : α} (hne : d ≠ c) {m n : ℕ} (hlt : m < n) (front : List α)
    {s t : List α} :
    Clash (front ++ (List.replicate m c ++ d :: s)) (front ++ (List.replicate n c ++ t)) := by
  refine ⟨front.length + m, d, c, ?_, ?_, hne⟩
  · rw [List.getElem?_append_right (by omega), Nat.add_sub_cancel_left,
      List.getElem?_append_right (by rw [List.length_replicate]), List.length_replicate,
      Nat.sub_self, List.getElem?_cons_zero]
  · rw [List.getElem?_append_right (by omega), Nat.add_sub_cancel_left,
      List.getElem?_append_left (by rwa [List.length_replicate]), List.getElem?_replicate,
      if_pos hlt]

theorem Clash.symm {a b : List α} (h : Clash a b) : Clash b a := by
  obtain ⟨i, x, y, hx, hy, hne⟩ := h
  exact ⟨i, y, x, hy, hx, hne.symm⟩

variable [DecidableEq α]

/-- The part `a` stands for `b`; where the two differ, it clashes or is short. -/
structure Lags (mark : α) (a b : List α) : Prop where
  marked : mark ∈ a → mark ∈ b ∧ a.idxOf mark ≤ b.idxOf mark
  plain : mark ∉ a → mark ∉ b ∧ a.length ≤ b.length
  differ : a ≠ b → Clash a b ∨ a <+: b ∧ mark ∉ b

variable {mark : α}

theorem Lags.refl (a : List α) : Lags mark a a :=
  ⟨fun h ↦ ⟨h, le_rfl⟩, fun h ↦ ⟨h, le_rfl⟩, fun h ↦ absurd rfl h⟩

theorem idxOf_flatMap_le {L : List (List α × List α)} (h : ∀ q ∈ L, Lags mark q.1 q.2) :
    (L.flatMap Prod.fst).idxOf mark ≤ (L.flatMap Prod.snd).idxOf mark := by
  induction L with
  | nil => exact le_rfl
  | cons q L ih =>
      have hq := h q List.mem_cons_self
      have htail := ih fun r hr ↦ h r (List.mem_cons_of_mem q hr)
      rw [List.flatMap_cons, List.flatMap_cons, List.idxOf_append, List.idxOf_append]
      by_cases hmark : mark ∈ q.1
      · obtain ⟨hmark', hle⟩ := hq.marked hmark
        rwa [if_pos hmark, if_pos hmark']
      · obtain ⟨hmark', hle⟩ := hq.plain hmark
        rw [if_neg hmark, if_neg hmark']
        omega

/-- Parts that lag and give the same text are the parts that they stand for. -/
theorem eq_of_flatMap_eq {L : List (List α × List α)} (h : ∀ q ∈ L, Lags mark q.1 q.2)
    (heq : L.flatMap Prod.fst = L.flatMap Prod.snd) : ∀ q ∈ L, q.1 = q.2 := by
  induction L with
  | nil => exact List.forall_mem_nil _
  | cons q L ih =>
      have htail : ∀ r ∈ L, Lags mark r.1 r.2 := fun r hr ↦ h r (List.mem_cons_of_mem q hr)
      rw [List.flatMap_cons, List.flatMap_cons] at heq
      by_cases hq : q.1 = q.2
      · rw [hq] at heq
        exact List.forall_mem_cons.mpr ⟨hq, ih htail (List.append_cancel_left heq)⟩
      · rcases (h q List.mem_cons_self).differ hq with hclash | ⟨⟨rest, hrest⟩, hmark⟩
        · exact absurd heq (hclash.append_ne _ _)
        · -- the missing rest has no mark, so the marks behind it all come too early
          have hne : rest ≠ [] := by
            rintro rfl
            exact hq (by rw [← hrest, List.append_nil])
          have hmark' : mark ∉ rest := fun hm ↦ hmark (hrest ▸ List.mem_append_right _ hm)
          rw [← hrest, List.append_assoc] at heq
          have hcut : L.flatMap Prod.fst = rest ++ L.flatMap Prod.snd :=
            List.append_cancel_left heq
          have hle := idxOf_flatMap_le htail
          have hpos : 0 < rest.length := List.length_pos_iff.mpr hne
          rw [hcut, List.idxOf_append, if_neg hmark'] at hle
          omega

end Foundations.TextParts
