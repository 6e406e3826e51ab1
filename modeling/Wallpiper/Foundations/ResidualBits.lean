import Wallpiper.Foundations.Doubles

/-!
# Residual bits

A mantissa is shifted to the right together with two bits for what falls off: the
first says whether that is one half or more, the second whether anything else is
left.  So the number is rounded to the nearest mantissa, and to the even one in
the middle between two, however many shifts it went through.
-/

namespace Foundations.DoubleRounding

open Float.Model Float.Model.UnpackedFloat

/-- The mantissa is the integer part of the number, and the two residual bits
compare what is left of it to one half. -/
structure Reads (em : ExtendedMantissa) (x : ℚ) : Prop where
  mantissa_le : em.mantissa ≤ x
  lt_mantissa : x < em.mantissa + 1
  roundBit_iff : em.roundBit = true ↔ em.mantissa + 1 / 2 ≤ x
  stickyBit_iff : em.stickyBit = true ↔ x ≠ em.mantissa ∧ x ≠ em.mantissa + 1 / 2

namespace Reads

variable {em : ExtendedMantissa} {x : ℚ}

theorem residue_iff (h : Reads em x) :
    (em.roundBit || em.stickyBit) = true ↔ x ≠ em.mantissa := by
  rw [Bool.or_eq_true, h.roundBit_iff, h.stickyBit_iff]
  constructor
  · rintro (hround | ⟨hne, _⟩)
    · exact (show (em.mantissa : ℚ) < x by linarith).ne'
    · exact hne
  · intro hne
    rcases le_or_gt ((em.mantissa : ℚ) + 1 / 2) x with hle | hlt
    · exact .inl hle
    · exact .inr ⟨hne, hlt.ne⟩

theorem shiftRightOne (h : Reads em x) : Reads em.shiftRightOne (x / 2) := by
  have hle := h.mantissa_le
  have hlt := h.lt_mantissa
  have hresidue := h.residue_iff
  obtain ⟨k, heven | hodd⟩ := em.mantissa.even_or_odd'
  · have hhalf : em.shiftRightOne.mantissa = k := by
      change em.mantissa / 2 = k
      omega
    have hround : em.shiftRightOne.roundBit = false := by
      change (em.mantissa % 2 != 0) = false
      rw [heven]
      simp
    have hcast : (em.mantissa : ℚ) = 2 * k := by rw [heven]; push_cast; rfl
    rw [hcast] at hle hlt hresidue
    refine ⟨by rw [hhalf]; linarith, by rw [hhalf]; linarith, ?_, ?_⟩
    · rw [hhalf, hround]
      exact ⟨fun hfalse ↦ absurd hfalse (by simp), fun hle ↦ by linarith⟩
    · rw [hhalf]
      refine hresidue.trans ⟨fun hne ↦ ⟨fun heq ↦ hne (by linarith), fun heq ↦ ?_⟩,
        fun hne heq ↦ hne.1 (by linarith)⟩
      linarith
  · have hhalf : em.shiftRightOne.mantissa = k := by
      change em.mantissa / 2 = k
      omega
    have hround : em.shiftRightOne.roundBit = true := by
      change (em.mantissa % 2 != 0) = true
      rw [hodd]
      simp [Nat.add_mod]
    have hcast : (em.mantissa : ℚ) = 2 * k + 1 := by rw [hodd]; push_cast; rfl
    rw [hcast] at hle hlt hresidue
    refine ⟨by rw [hhalf]; linarith, by rw [hhalf]; linarith, ?_, ?_⟩
    · rw [hhalf, hround]
      exact ⟨fun _ ↦ by linarith, fun _ ↦ rfl⟩
    · rw [hhalf]
      refine hresidue.trans ⟨fun hne ↦ ⟨fun heq ↦ ?_, fun heq ↦ hne (by linarith)⟩,
        fun hne heq ↦ hne.2 (by linarith)⟩
      linarith

theorem shiftRight (h : Reads em x) (n : ℕ) : Reads (em >>> n) (x / 2 ^ n) := by
  induction n with
  | zero =>
      rw [pow_zero, div_one]
      exact h
  | succ n ih =>
      have hstep := ih.shiftRightOne
      rw [div_div, ← pow_succ] at hstep
      exact hstep

theorem of_exact (m : ℕ) : Reads (ExtendedMantissa.ofMantissaAndAccuracy m .exact) m where
  mantissa_le := le_refl _
  lt_mantissa := lt_add_one _
  roundBit_iff := ⟨fun h ↦ absurd h (by simp [ExtendedMantissa.ofMantissaAndAccuracy]), fun h ↦ by
    change (m : ℚ) + 1 / 2 ≤ m at h
    linarith⟩
  stickyBit_iff := ⟨fun h ↦ absurd h (by simp [ExtendedMantissa.ofMantissaAndAccuracy]),
    fun h ↦ absurd rfl h.1⟩

section

variable {m : ℕ} {f : ℚ}

theorem inexact_lt (hpos : 0 < f) (hlt : f < 1 / 2) :
    Reads (ExtendedMantissa.ofMantissaAndAccuracy m (.inexact .lt)) (m + f) where
  mantissa_le := by
    change (m : ℚ) ≤ m + f
    linarith
  lt_mantissa := by
    change (m + f : ℚ) < m + 1
    linarith
  roundBit_iff := ⟨fun h ↦ absurd h Bool.false_ne_true, fun h ↦ by
    change (m : ℚ) + 1 / 2 ≤ m + f at h
    linarith⟩
  stickyBit_iff := by
    have hne : (m + f : ℚ) ≠ m ∧ (m + f : ℚ) ≠ m + 1 / 2 :=
      ⟨fun h ↦ by linarith, fun h ↦ by linarith⟩
    exact ⟨fun _ ↦ hne, fun _ ↦ rfl⟩

theorem inexact_eq (heq : f = 1 / 2) :
    Reads (ExtendedMantissa.ofMantissaAndAccuracy m (.inexact .eq)) (m + f) where
  mantissa_le := by
    change (m : ℚ) ≤ m + f
    linarith
  lt_mantissa := by
    change (m + f : ℚ) < m + 1
    linarith
  roundBit_iff := by
    have hle : (m : ℚ) + 1 / 2 ≤ m + f := by linarith
    exact ⟨fun _ ↦ hle, fun _ ↦ rfl⟩
  stickyBit_iff := by
    have hhalf : (m + f : ℚ) = m + 1 / 2 := by rw [heq]
    exact ⟨fun h ↦ absurd h Bool.false_ne_true, fun h ↦ absurd hhalf h.2⟩

theorem inexact_gt (hgt : 1 / 2 < f) (hone : f < 1) :
    Reads (ExtendedMantissa.ofMantissaAndAccuracy m (.inexact .gt)) (m + f) where
  mantissa_le := by
    change (m : ℚ) ≤ m + f
    linarith
  lt_mantissa := by
    change (m + f : ℚ) < m + 1
    linarith
  roundBit_iff := by
    have hle : (m : ℚ) + 1 / 2 ≤ m + f := by linarith
    exact ⟨fun _ ↦ hle, fun _ ↦ rfl⟩
  stickyBit_iff := by
    have hne : (m + f : ℚ) ≠ m ∧ (m + f : ℚ) ≠ m + 1 / 2 :=
      ⟨fun h ↦ by linarith, fun h ↦ by linarith⟩
    exact ⟨fun _ ↦ hne, fun _ ↦ rfl⟩

end

/-- The remainder of a division decides about its residual bits. -/
theorem of_fraction (a : ℕ) {b : ℕ} (hb : 0 < b) :
    Reads (ExtendedMantissa.ofMantissaAndAccuracy (a / b) (accuracyOfFraction (a % b) b))
      (a / b) := by
  have hmod : a % b < b := Nat.mod_lt a hb
  have hbq : (0 : ℚ) < b := by exact_mod_cast hb
  have hvalue : (a : ℚ) / b = (a / b : ℕ) + (a % b : ℕ) / (b : ℚ) := by
    have hsplit : ((b * (a / b) + a % b : ℕ) : ℚ) = a := by rw [Nat.div_add_mod]
    push_cast at hsplit
    field_simp
    linarith
  rw [hvalue, accuracyOfFraction]
  by_cases hzero : a % b = 0
  · rw [if_pos hzero, hzero, Nat.cast_zero, zero_div, add_zero]
    exact of_exact _
  · rw [if_neg hzero]
    rcases lt_trichotomy (2 * (a % b)) b with hlt | heq | hgt
    · have hcast : 2 * ((a % b : ℕ) : ℚ) < b := by exact_mod_cast hlt
      have hr : (0 : ℚ) < (a % b : ℕ) := by exact_mod_cast Nat.pos_of_ne_zero hzero
      rw [Nat.compare_eq_lt.mpr hlt]
      refine inexact_lt (div_pos hr hbq) ?_
      rw [div_lt_div_iff₀ hbq two_pos]
      linarith
    · have hcast : 2 * ((a % b : ℕ) : ℚ) = b := by exact_mod_cast heq
      rw [Nat.compare_eq_eq.mpr heq]
      apply inexact_eq
      rw [div_eq_div_iff hbq.ne' two_ne_zero]
      linarith
    · have hcast : (b : ℚ) < 2 * ((a % b : ℕ) : ℚ) := by exact_mod_cast hgt
      have hone : ((a % b : ℕ) : ℚ) / b < 1 := by
        rw [div_lt_one hbq]
        exact_mod_cast hmod
      rw [Nat.compare_eq_gt.mpr hgt]
      refine inexact_gt ?_ hone
      rw [div_lt_div_iff₀ two_pos hbq]
      linarith

/-- Rounding goes by what is left behind the mantissa. -/
theorem roundedMantissa_cases (h : Reads em x) :
    (em.roundedMantissa = em.mantissa ∧ x < em.mantissa + 1 / 2) ∨
      (em.roundedMantissa = em.mantissa + em.mantissa % 2 ∧ x = em.mantissa + 1 / 2) ∨
      (em.roundedMantissa = em.mantissa + 1 ∧ em.mantissa + 1 / 2 < x) := by
  obtain ⟨m, roundBit, stickyBit⟩ := em
  have hround := h.roundBit_iff
  have hsticky := h.stickyBit_iff
  simp only at hround hsticky
  cases roundBit with
  | false =>
      have hlt : x < m + 1 / 2 := lt_of_not_ge fun hle ↦ absurd (hround.mpr hle) (by simp)
      refine .inl ⟨?_, hlt⟩
      cases stickyBit with
      | false => rfl
      | true => rfl
  | true =>
      have hle : (m : ℚ) + 1 / 2 ≤ x := hround.mp rfl
      cases stickyBit with
      | false =>
          refine .inr (.inl ⟨rfl, ?_⟩)
          by_contra hne
          exact absurd (hsticky.mpr ⟨(show (m : ℚ) < x by linarith).ne', hne⟩) (by simp)
      | true => exact .inr (.inr ⟨rfl, lt_of_le_of_ne hle (hsticky.mp rfl).2.symm⟩)

theorem roundedMantissa_le (h : Reads em x) : (em.roundedMantissa : ℚ) ≤ x + 1 / 2 := by
  have hle := h.mantissa_le
  rcases h.roundedMantissa_cases with ⟨hrounded, _⟩ | ⟨hrounded, heq⟩ | ⟨hrounded, hgt⟩
  · rw [hrounded]
    linarith
  · have hmod : ((em.mantissa % 2 : ℕ) : ℚ) ≤ 1 := by
      exact_mod_cast Nat.lt_succ_iff.mp (Nat.mod_lt em.mantissa two_pos)
    rw [hrounded]
    push_cast
    linarith
  · rw [hrounded]
    push_cast
    linarith

/-- An even number is reached from the middle below it on, where the tie goes up. -/
theorem le_roundedMantissa_iff (h : Reads em x) {k : ℕ} (hk : 2 ∣ k) :
    k ≤ em.roundedMantissa ↔ (k : ℚ) ≤ x + 1 / 2 := by
  refine ⟨fun hle ↦ ?_, fun hle ↦ ?_⟩
  · have hcast : (k : ℚ) ≤ em.roundedMantissa := by exact_mod_cast hle
    exact hcast.trans h.roundedMantissa_le
  · have hlt := h.lt_mantissa
    rcases h.roundedMantissa_cases with ⟨hrounded, hbelow⟩ | ⟨hrounded, heq⟩ | ⟨hrounded, _⟩
    · have hnat : k < em.mantissa + 1 := by
        have hcast : (k : ℚ) < em.mantissa + 1 := by linarith
        exact_mod_cast hcast
      omega
    · have hnat : k ≤ em.mantissa + 1 := by
        have hcast : (k : ℚ) ≤ em.mantissa + 1 := by linarith
        exact_mod_cast hcast
      omega
    · have hnat : k < em.mantissa + 2 := by
        have hcast : (k : ℚ) < em.mantissa + 2 := by linarith
        exact_mod_cast hcast
      omega

end Reads

end Foundations.DoubleRounding
