import Mathlib.Data.List.Lex
import Mathlib.Tactic.Ring

/-!
# Comparison functions

A C comparison function returns a number whose sign orders its two arguments.
It is a total preorder when it orders them as their keys in a linear order
are, and then a sorted array begins with a least element.
-/

namespace Foundations

variable {α κ : Type*}

/-- The sign of a number orders two keys. -/
structure Compares [LinearOrder κ] (z : ℤ) (x y : κ) : Prop where
  neg : z < 0 ↔ x < y
  zero : z = 0 ↔ x = y

namespace Compares

variable [LinearOrder κ] {z : ℤ} {x y : κ} {xs ys : List κ}

theorem pos (h : Compares z x y) : 0 < z ↔ y < x := by
  rw [← not_le, le_iff_lt_or_eq, h.neg, h.zero, ← le_iff_lt_or_eq, not_le]

theorem of_lt (hz : z < 0) (hxy : x < y) : Compares z x y :=
  ⟨iff_of_true hz hxy, iff_of_false hz.ne hxy.ne⟩

theorem of_gt (hz : 0 < z) (hxy : y < x) : Compares z x y :=
  ⟨iff_of_false hz.not_gt hxy.not_gt, iff_of_false hz.ne' hxy.ne'⟩

theorem refl (x : κ) : Compares 0 x x :=
  ⟨iff_of_false (lt_irrefl 0) (lt_irrefl x), iff_of_true rfl rfl⟩

/-- Lists with different first elements are ordered by these. -/
theorem cons_of_ne (h : Compares z x y) (hne : z ≠ 0) : Compares z (x :: xs) (y :: ys) := by
  rcases lt_or_gt_of_ne hne with hz | hz
  · exact of_lt hz (List.cons_lt_cons_iff.mpr (Or.inl (h.neg.mp hz)))
  · exact of_gt hz (List.cons_lt_cons_iff.mpr (Or.inl (h.pos.mp hz)))

theorem cons_of_eq (x : κ) (h : Compares z xs ys) : Compares z (x :: xs) (x :: ys) where
  neg := by rw [h.neg, List.cons_lt_cons_iff]; simp
  zero := by rw [h.zero, List.cons.injEq]; simp

end Compares

/-! ## Total preorders -/

structure TotalPreorder (compare : α → α → ℤ) : Prop where
  swap : ∀ a b, (compare a b).sign = -(compare b a).sign
  trans : ∀ a b c, compare a b ≤ 0 → compare b c ≤ 0 → compare a c ≤ 0

namespace TotalPreorder

variable {compare : α → α → ℤ}

theorem of_key [LinearOrder κ] (key : α → κ)
    (h : ∀ a b, Compares (compare a b) (key a) (key b)) : TotalPreorder compare where
  swap a b := by
    rcases lt_trichotomy (key a) (key b) with hlt | heq | hgt
    · rw [Int.sign_eq_neg_one_of_neg ((h a b).neg.mpr hlt),
        Int.sign_eq_one_of_pos ((h b a).pos.mpr hlt)]
    · rw [(h a b).zero.mpr heq, (h b a).zero.mpr heq.symm]
      rfl
    · rw [Int.sign_eq_one_of_pos ((h a b).pos.mpr hgt),
        Int.sign_eq_neg_one_of_neg ((h b a).neg.mpr hgt), neg_neg]
  trans a b c hab hbc := by
    have hle : ∀ x y, compare x y ≤ 0 ↔ key x ≤ key y := by
      intro x y
      rw [← not_lt, (h x y).pos, not_lt]
    rw [hle] at hab hbc ⊢
    exact hab.trans hbc

theorem nonpos_swap (h : TotalPreorder compare) {a b : α} (hab : compare a b ≤ 0) :
    0 ≤ compare b a := by
  have hsign := h.swap a b
  rcases lt_or_ge (compare b a) 0 with hlt | hge
  · rw [Int.sign_eq_neg_one_of_neg hlt, neg_neg, Int.sign_eq_one_iff_pos] at hsign
    omega
  · exact hge

theorem flip (h : TotalPreorder compare) : TotalPreorder fun a b ↦ compare b a where
  swap a b := h.swap b a
  trans a b c hba hcb := h.trans c b a hcb hba

end TotalPreorder

/-! ## Sorting -/

/-- `qsort`, which sorts when it is given a total preorder. -/
structure QSort (compare : α → α → ℤ) where
  sort : List α → List α
  perm : ∀ xs, (sort xs).Perm xs
  sorted : TotalPreorder compare → ∀ xs, (sort xs).Pairwise fun a b ↦ compare a b ≤ 0

/-- The sorted list begins with an element of the list that is least. -/
theorem QSort.head_least {compare : α → α → ℤ} (qsort : QSort compare)
    (h : TotalPreorder compare) {xs : List α} (hne : xs ≠ []) :
    ∃ x rest, qsort.sort xs = x :: rest ∧ x ∈ xs ∧ ∀ y ∈ xs, compare x y ≤ 0 := by
  have hperm := qsort.perm xs
  have hsorted := qsort.sorted h xs
  cases hs : qsort.sort xs with
  | nil =>
      rw [hs] at hperm
      exact absurd hperm.symm.eq_nil hne
  | cons x rest =>
      rw [hs] at hperm hsorted
      refine ⟨x, rest, rfl, hperm.mem_iff.mp List.mem_cons_self, fun y hy ↦ ?_⟩
      rcases List.mem_cons.mp (hperm.mem_iff.mpr hy) with rfl | hy
      · have hswap := h.swap y y
        have hzero : (compare y y).sign = 0 := by omega
        exact (Int.sign_eq_zero_iff_zero.mp hzero).le
      · exact List.rel_of_pairwise_cons hsorted hy

def QSort.mergeSort (compare : α → α → ℤ) : QSort compare where
  sort xs := xs.mergeSort fun a b ↦ compare a b ≤ 0
  perm xs := List.mergeSort_perm xs _
  sorted h xs := by
    have htrans : ∀ a b c, decide (compare a b ≤ 0) = true → decide (compare b c ≤ 0) = true →
        decide (compare a c ≤ 0) = true := by
      simpa using h.trans
    have htotal : ∀ a b, (decide (compare a b ≤ 0) || decide (compare b a ≤ 0)) = true := by
      intro a b
      rcases le_or_gt (compare a b) 0 with hle | hgt
      · simp [hle]
      · have hsign := h.swap a b
        rw [Int.sign_eq_one_of_pos hgt] at hsign
        have hneg : compare b a < 0 := Int.sign_eq_neg_one_iff_neg.mp (by omega)
        simp [hneg.le]
    simpa using List.pairwise_mergeSort htrans htotal xs

end Foundations
