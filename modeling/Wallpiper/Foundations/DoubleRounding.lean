import Wallpiper.Foundations.ResidualBits

/-!
# The integer part of a rounded double

A number is rounded to the nearest double, so the integer part of the double is
that of the number and half the distance of the doubles around it.  This is so
for numbers in decimal and in hexadecimal digits, as long as the doubles around
the number are closer to each other than integers.
-/

namespace Foundations.DoubleRounding

open Doubles Float.Model Float.Model.UnpackedFloat

/-! ## Stored doubles -/

/-- The finite forms that a double holds as they are. -/
def Stored : UnpackedFloat → Prop
  | .zero _ => True
  | .finite _ m e _ => m < 2 ^ 53 ∧ -1074 ≤ e ∧ e ≤ 971 ∧ (2 ^ 52 ≤ m ∨ e = -1074)
  | _ => False

/-- Below the normal mantissas the exponent is the least one. -/
theorem unpack_pack_subnormal (sign : Sign) {m : ℕ} (hpos : 0 < m) (hm : m < 2 ^ 52) :
    (Float.Model.pack (.finite sign m (-1074) hpos)).unpack = .finite sign m (-1074) hpos := by
  have hlog : m.log2 < 52 := (Nat.log2_lt hpos.ne').mpr hm
  have hpack : UnpackedFloat.pack Format.binary64 (.finite sign m (-1074) hpos) =
      packComponents Format.binary64 sign 0#_ (BitVec.ofNat _ m) := by
    have hexponent : ((-1074 : ℤ) + Format.binary64.exponentBias +
        Format.binary64.mantissaBitsWithoutImplicit).toNat = 1 := rfl
    have hbits : ¬ m.log2 + 1 = Format.binary64.mantissaBits := by
      change ¬ m.log2 + 1 = 53
      omega
    rw [UnpackedFloat.pack, hexponent]
    simp only [if_neg hbits]
    exact if_neg (by decide)
  have hmantissa : (BitVec.ofNat 52 m).toNat = m := by
    rw [BitVec.toNat_ofNat]
    exact Nat.mod_eq_of_lt hm
  have hne : BitVec.ofNat 52 m ≠ 0#52 := by
    intro heq
    have hzero := congrArg BitVec.toNat heq
    rw [hmantissa, BitVec.toNat_ofNat] at hzero
    omega
  change UnpackedFloat.unpack Format.binary64 (UnpackedFloat.pack Format.binary64 _) = _
  rw [hpack, UnpackedFloat.unpack]
  simp only [unpackMantissa_packComponents, unpackExponent_packComponents,
    unpackSign_packComponents, Sign.ofBitVec_toBitVec]
  rw [if_neg (by decide), if_pos trivial, dif_neg hne]
  simp only [hmantissa]
  rfl

theorem unpack_pack_of_stored {u : UnpackedFloat} (h : Stored u) :
    (Float.Model.pack u).unpack = u := by
  cases u with
  | notANumber => exact h.elim
  | infinity sign => exact h.elim
  | zero sign =>
      cases sign with
      | positive => rfl
      | negative => rfl
  | finite sign m e hpos =>
      obtain ⟨hhigh, helow, hehigh, hnormal⟩ := h
      rcases le_or_gt (2 ^ 52) m with hlow | hlow
      · exact unpack_pack_normal sign hlow hhigh ⟨helow, hehigh⟩ hpos
      · obtain rfl : e = -1074 := hnormal.resolve_left (by omega)
        exact unpack_pack_subnormal sign hpos hlow

theorem Stored.neg {u : UnpackedFloat} (h : Stored u) : Stored u.neg := by
  cases u with
  | notANumber => exact h
  | infinity sign => exact h
  | zero sign => exact h
  | finite sign m e hpos => exact h

/-! ## Integer parts -/

/-- What is left of a finite double without its fraction. -/
def integerOf : UnpackedFloat → Option ℤ
  | .zero _ => some 0
  | .finite sign m e _ => some (roundToInt sign m e)
  | _ => none

/-- The value of the double truncated toward zero; infinities have none. -/
def integerPart (d : Double) : Option ℤ := integerOf d.unpack

theorem roundToInt_eq (sign : Sign) (m : ℕ) {e : ℤ} (he : e ≤ 0) :
    roundToInt sign m e = sign.apply (m / 2 ^ (-e).toNat : ℕ) := by
  have hdecrease : (e - 0).toNat = 0 := by omega
  have hamount : (0 - (e - (0 : ℕ))).toNat = (-e).toNat := by omega
  have hreads := ((Reads.of_exact m).shiftRight (-e).toNat)
  have hmantissa : (ExtendedMantissa.ofMantissaAndAccuracy m .exact >>> (-e).toNat).mantissa =
      m / 2 ^ (-e).toNat := by
    have hfloor : ⌊(m / 2 ^ (-e).toNat : ℚ)⌋₊ =
        (ExtendedMantissa.ofMantissaAndAccuracy m .exact >>> (-e).toNat).mantissa :=
      (Nat.floor_eq_iff (by positivity)).mpr ⟨hreads.mantissa_le, hreads.lt_mantissa⟩
    rw [← hfloor, ← Nat.floor_div_eq_div (K := ℚ)]
    push_cast
    rfl
  rw [roundToInt, decreaseExponent, hdecrease, Nat.shiftLeft_zero]
  simp only [shiftToExponent, hamount, hmantissa]

theorem integerOf_neg (u : UnpackedFloat) : integerOf u.neg = (integerOf u).map Neg.neg := by
  cases u with
  | notANumber => rfl
  | infinity sign => rfl
  | zero sign => rfl
  | finite sign m e hpos =>
      cases sign with
      | positive => rfl
      | negative =>
          have hsign : ∀ z : ℤ, z = - -z := fun z ↦ (neg_neg z).symm
          exact congrArg some (hsign _)

/-! ## The rounded mantissa -/

/-- A full mantissa carries into the exponent. -/
def ofRounded (sign : Sign) (r : ℕ) (t : ℤ) : UnpackedFloat :=
  if h : r = 0 then .zero sign
  else if r < 2 ^ 53 then .finite sign r t (Nat.pos_of_ne_zero h)
  else .finite sign (2 ^ 52) (t + 1) (by decide)

section

variable {r : ℕ} {t : ℤ}

theorem shiftToTargetExponent_small (hr : r < 2 ^ 53) (ht : -1074 ≤ t) :
    shiftToTargetExponent Format.binary64 r t .exact = (⟨r, false, false⟩, t) := by
  have hlog : r.log2 ≤ 52 := by
    rcases Nat.eq_zero_or_pos r with rfl | hpos
    · decide
    · have hlt := (Nat.log2_lt hpos.ne').mpr hr
      omega
  have hamount : (Format.binary64.targetExponent (totalExponent r t) - t).toNat = 0 := by
    simp only [Format.targetExponent, totalExponent, Format.minExponent, Format.mantissaBits]
    omega
  rw [shiftToTargetExponent, shiftToExponent, hamount]
  exact Prod.ext rfl (add_zero t)

theorem shiftToTargetExponent_full (ht : -1074 ≤ t) :
    shiftToTargetExponent Format.binary64 (2 ^ 53) t .exact =
      (⟨2 ^ 52, false, false⟩, t + 1) := by
  have hamount : (Format.binary64.targetExponent (totalExponent (2 ^ 53) t) - t).toNat = 1 := by
    simp only [Format.targetExponent, totalExponent, Format.minExponent, Format.mantissaBits,
      Nat.log2_two_pow]
    omega
  rw [shiftToTargetExponent, shiftToExponent, hamount]
  rfl

theorem roundWithAccuracy_eq_ofRounded (sign : Sign) {m : ℕ} {e : ℤ} {acc : Accuracy}
    {em : ExtendedMantissa}
    (hshift : shiftToTargetExponent Format.binary64 m e acc = (em, t))
    (hem : em.roundedMantissa = r) (hr : r ≤ 2 ^ 53) (ht : -1074 ≤ t) :
    roundWithAccuracy Format.binary64 sign m e acc = ofRounded sign r t := by
  rw [roundWithAccuracy, hshift]
  simp only [hem]
  rcases hr.lt_or_eq with hlt | rfl
  · simp only [shiftToTargetExponent_small hlt ht, ofRounded, if_pos hlt]
  · simp only [shiftToTargetExponent_full ht]
    rfl

theorem stored_ofRounded (sign : Sign) (hnormal : 2 ^ 52 ≤ r ∨ t = -1074)
    (ht : -1074 ≤ t ∧ t ≤ 970) : Stored (ofRounded sign r t) := by
  rw [ofRounded]
  split
  · trivial
  · split
    · rename_i hlt
      exact ⟨hlt, ht.1, by omega, hnormal⟩
    · exact ⟨by decide, by omega, by omega, .inl (by decide)⟩

theorem integerOf_ofRounded (sign : Sign) (hr : r ≤ 2 ^ 53) (ht : t < 0) :
    integerOf (ofRounded sign r t) = some (sign.apply (r / 2 ^ (-t).toNat : ℕ)) := by
  rw [ofRounded]
  split
  · rename_i hzero
    rw [hzero, Nat.zero_div]
    cases sign with
    | positive => rfl
    | negative => rfl
  · split
    · exact congrArg some (roundToInt_eq sign r ht.le)
    · obtain rfl : r = 2 ^ 53 := by omega
      have hamount : (-t).toNat = (-(t + 1)).toNat + 1 := by omega
      have hcarry : 2 ^ 53 / 2 ^ (-t).toNat = 2 ^ 52 / 2 ^ (-(t + 1)).toNat := by
        rw [hamount, pow_succ 2 (-(t + 1)).toNat, pow_succ 2 52]
        exact Nat.mul_div_mul_right _ _ two_pos
      rw [hcarry]
      exact congrArg some (roundToInt_eq sign (2 ^ 52) (by omega))

end

/-! ## The distance of the doubles -/

/-- The exponent of the last bit of the doubles around a positive number. -/
def unitExponent (q : ℚ) : ℤ := max (Int.log 2 q) (-1022) - 52

def halfStep (q : ℚ) : ℚ := 2 ^ (unitExponent q - 1)

/-- The form holds the number, rounded to the nearest double. -/
structure Rounds (sign : Sign) (q : ℚ) (u : UnpackedFloat) : Prop where
  stored : Stored u
  integerOf_eq : integerOf u = some (sign.apply ⌊q + halfStep q⌋₊)

theorem halfStep_pos (q : ℚ) : 0 < halfStep q := zpow_pos two_pos _

section

variable {m : ℕ} {e : ℤ} {acc : Accuracy} {q : ℚ}

theorem mantissa_ofMantissaAndAccuracy (m : ℕ) (acc : Accuracy) :
    (ExtendedMantissa.ofMantissaAndAccuracy m acc).mantissa = m := by
  cases acc with
  | exact => rfl
  | inexact order => cases order <;> rfl

/-- The leading bit of the mantissa is that of the number. -/
theorem log_eq_of_bounds (hpos : 0 < m) (hle : m * 2 ^ e ≤ q) (hlt : q < (m + 1) * 2 ^ e) :
    Int.log 2 q = m.log2 + e := by
  have hpow : (0 : ℚ) < 2 ^ e := zpow_pos two_pos e
  have hq : 0 < q := by
    have hm : (0 : ℚ) < m := by exact_mod_cast hpos
    exact lt_of_lt_of_le (mul_pos hm hpow) hle
  have hlow : m.log2 + e ≤ Int.log 2 q := by
    refine (Int.zpow_le_iff_le_log (by decide) hq).mp (le_trans ?_ hle)
    have hbits : ((2 ^ m.log2 : ℕ) : ℚ) ≤ m := by exact_mod_cast Nat.log2_self_le hpos.ne'
    push_cast at hbits
    push_cast
    rw [zpow_add₀ two_ne_zero, zpow_natCast]
    exact mul_le_mul_of_nonneg_right hbits hpow.le
  have hhigh : Int.log 2 q < (m.log2 + 1 : ℕ) + e := by
    refine (Int.lt_zpow_iff_log_lt (by decide) hq).mp (lt_of_lt_of_le hlt ?_)
    have hbits : ((m + 1 : ℕ) : ℚ) ≤ (2 ^ (m.log2 + 1) : ℕ) := by exact_mod_cast Nat.lt_log2_self
    push_cast at hbits
    rw [Nat.cast_ofNat, zpow_add₀ two_ne_zero, zpow_natCast]
    exact mul_le_mul_of_nonneg_right hbits hpow.le
  omega

/-- The shift goes to the last bit of the doubles around the number. -/
theorem targetExponent_eq (hq : 0 < q)
    (hreads : Reads (ExtendedMantissa.ofMantissaAndAccuracy m acc) (q / 2 ^ e))
    (he : e ≤ unitExponent q) :
    Format.binary64.targetExponent (totalExponent m e) = unitExponent q := by
  have hpow : (0 : ℚ) < 2 ^ e := zpow_pos two_pos e
  have hle := hreads.mantissa_le
  have hlt := hreads.lt_mantissa
  rw [mantissa_ofMantissaAndAccuracy] at hle hlt
  rw [le_div_iff₀ hpow] at hle
  rw [div_lt_iff₀ hpow] at hlt
  rw [unitExponent] at he
  change max (m.log2 + 1 + e - 53) (-1074) = max (Int.log 2 q) (-1022) - 52
  rcases Nat.eq_zero_or_pos m with rfl | hpos
  · have hlog : Int.log 2 q < e := by
      rw [Nat.cast_zero, zero_add, one_mul] at hlt
      exact (Int.lt_zpow_iff_log_lt (by decide) hq).mp hlt
    rw [Nat.log2_zero]
    omega
  · have hlog := log_eq_of_bounds hpos hle hlt
    omega

/-- In units of the last bit there are at most 53 bits. -/
theorem roundedMantissa_le_full {em : ExtendedMantissa}
    (hscaled : Reads em (q / 2 ^ unitExponent q)) : em.roundedMantissa ≤ 2 ^ 53 := by
  have hscale : q / 2 ^ unitExponent q < 2 ^ 53 := by
    rw [div_lt_iff₀ (zpow_pos two_pos _)]
    calc
      q < 2 ^ (Int.log 2 q + 1) := Int.lt_zpow_succ_log_self (by decide) q
      _ ≤ 2 ^ ((53 : ℕ) + unitExponent q) := by
        refine zpow_le_zpow_right₀ one_le_two ?_
        rw [unitExponent]
        omega
      _ = 2 ^ 53 * 2 ^ unitExponent q := by rw [zpow_add₀ two_ne_zero, zpow_natCast]
  have hrounded := hscaled.roundedMantissa_le
  have hcast : (em.roundedMantissa : ℚ) < 2 ^ 53 + 1 := by linarith
  have hnat : em.roundedMantissa < 2 ^ 53 + 1 := by exact_mod_cast hcast
  omega

/-- There are fewer bits only where the exponent cannot be less. -/
theorem roundedMantissa_normal {em : ExtendedMantissa} (hq : 0 < q)
    (hscaled : Reads em (q / 2 ^ unitExponent q)) :
    2 ^ 52 ≤ em.roundedMantissa ∨ unitExponent q = -1074 := by
  rcases le_or_gt (-1022) (Int.log 2 q) with hlow | hlow
  · left
    have hunit : ((52 : ℕ) : ℤ) + unitExponent q = Int.log 2 q := by
      rw [unitExponent]
      omega
    have hscale : (2 : ℚ) ^ 52 ≤ q / 2 ^ unitExponent q := by
      rw [le_div_iff₀ (zpow_pos two_pos _)]
      calc
        (2 : ℚ) ^ 52 * 2 ^ unitExponent q = 2 ^ (((52 : ℕ) : ℤ) + unitExponent q) := by
          rw [zpow_add₀ two_ne_zero, zpow_natCast]
        _ = 2 ^ Int.log 2 q := by rw [hunit]
        _ ≤ q := Int.zpow_log_le_self (by decide) hq
    rw [hscaled.le_roundedMantissa_iff (by decide)]
    push_cast
    linarith
  · right
    rw [unitExponent]
    omega

/-- An integer is even in units of the last bit, so it is reached half a step below it. -/
theorem roundedMantissa_div {em : ExtendedMantissa} (hq : 0 < q) (hunit : unitExponent q < 0)
    (hscaled : Reads em (q / 2 ^ unitExponent q)) :
    em.roundedMantissa / 2 ^ (-unitExponent q).toNat = ⌊q + halfStep q⌋₊ := by
  have hpow : (0 : ℚ) < 2 ^ unitExponent q := zpow_pos two_pos _
  have hhalf : halfStep q = 1 / 2 * 2 ^ unitExponent q := by
    rw [halfStep, zpow_sub₀ two_ne_zero, zpow_one, one_div_mul_eq_div]
  have hone : (2 : ℚ) ^ (-unitExponent q).toNat * 2 ^ unitExponent q = 1 := by
    have hzero : ((-unitExponent q).toNat : ℤ) + unitExponent q = 0 := by omega
    rw [← zpow_natCast, ← zpow_add₀ two_ne_zero, hzero, zpow_zero]
  refine eq_of_forall_le_iff fun k ↦ ?_
  have heven : 2 ∣ k * 2 ^ (-unitExponent q).toNat :=
    Dvd.dvd.mul_left (dvd_pow_self 2 (by omega)) k
  rw [Nat.le_div_iff_mul_le (Nat.two_pow_pos _), hscaled.le_roundedMantissa_iff heven,
    Nat.le_floor_iff (by linarith [halfStep_pos q]), hhalf]
  push_cast
  rw [← mul_le_mul_iff_of_pos_right hpow, mul_assoc, hone, mul_one, add_mul,
    div_mul_cancel₀ q hpow.ne']

/-- The integer part of the rounded number. -/
theorem rounds_roundWithAccuracy (sign : Sign) (hq : 0 < q) (hsmall : q < 2 ^ 52)
    (hreads : Reads (ExtendedMantissa.ofMantissaAndAccuracy m acc) (q / 2 ^ e))
    (he : e ≤ unitExponent q) :
    Rounds sign q (roundWithAccuracy Format.binary64 sign m e acc) := by
  have hbounds : -1074 ≤ unitExponent q ∧ unitExponent q < 0 := by
    have hlog : Int.log 2 q < 52 :=
      (Int.lt_zpow_iff_log_lt (by decide) hq).mp (by exact_mod_cast hsmall)
    rw [unitExponent]
    omega
  obtain ⟨em, hem⟩ : ∃ em, em = ExtendedMantissa.ofMantissaAndAccuracy m acc >>>
      (unitExponent q - e).toNat := ⟨_, rfl⟩
  have hshift : shiftToTargetExponent Format.binary64 m e acc = (em, unitExponent q) := by
    have hexponent : e + ((unitExponent q - e).toNat : ℤ) = unitExponent q := by omega
    rw [shiftToTargetExponent, targetExponent_eq hq hreads he, shiftToExponent, hem]
    exact Prod.ext rfl hexponent
  have hscaled : Reads em (q / 2 ^ unitExponent q) := by
    have hexponent : e + ((unitExponent q - e).toNat : ℤ) = unitExponent q := by omega
    have hsplit : (2 : ℚ) ^ unitExponent q = 2 ^ e * 2 ^ (unitExponent q - e).toNat := by
      rw [← zpow_natCast, ← zpow_add₀ two_ne_zero, hexponent]
    rw [hem, hsplit, ← div_div]
    exact hreads.shiftRight _
  have hfull := roundedMantissa_le_full hscaled
  rw [roundWithAccuracy_eq_ofRounded sign hshift rfl hfull hbounds.1]
  have hstored := stored_ofRounded sign (roundedMantissa_normal hq hscaled) ⟨hbounds.1, by omega⟩
  refine ⟨hstored, ?_⟩
  rw [integerOf_ofRounded sign hfull hbounds.2, roundedMantissa_div hq hbounds.2 hscaled]

end

/-! ## Decimal and hexadecimal digits -/

theorem rounds_zero (sign : Sign) : Rounds sign 0 (.zero sign) where
  stored := trivial
  integerOf_eq := by
    have hlog : unitExponent 0 = -52 := by rw [unitExponent, Int.log_zero_right]; rfl
    have hfloor : ⌊(0 : ℚ) + halfStep 0⌋₊ = 0 := by
      rw [Nat.floor_eq_zero, halfStep, hlog]
      norm_num
    rw [hfloor]
    cases sign with
    | positive => rfl
    | negative => rfl

/-- Below one quarter nothing is rounded up to one. -/
theorem rounds_tiny {q : ℚ} (hq : 0 < q) (hsmall : q < 1 / 4) :
    Rounds .positive q (.zero .positive) where
  stored := trivial
  integerOf_eq := by
    have hlog : Int.log 2 q < -2 := by
      refine (Int.lt_zpow_iff_log_lt (by decide) hq).mp ?_
      norm_num
      linarith
    have hstep : halfStep q ≤ 1 / 4 := by
      calc
        halfStep q ≤ 2 ^ (-2 : ℤ) := by
          refine zpow_le_zpow_right₀ one_le_two ?_
          rw [unitExponent]
          omega
        _ = 1 / 4 := by norm_num
    have hfloor : ⌊q + halfStep q⌋₊ = 0 := by
      rw [Nat.floor_eq_zero]
      linarith
    rw [hfloor]
    rfl

section

variable {m : ℕ} {e : ℤ} {q : ℚ}

theorem rounds_exact (sign : Sign) (hq : 0 < q) (hsmall : q < 2 ^ 52) (hvalue : q = m * 2 ^ e)
    (he : e ≤ unitExponent q) :
    Rounds sign q (roundWithAccuracy Format.binary64 sign m e .exact) := by
  refine rounds_roundWithAccuracy sign hq hsmall ?_ he
  have hscaled : q / 2 ^ e = m := by
    rw [hvalue]
    exact mul_div_cancel_right₀ _ (zpow_pos two_pos e).ne'
  rw [hscaled]
  exact Reads.of_exact m

/-- A hexadecimal number is a mantissa and a power of two. -/
theorem rounds_normalize (hsmall : q < 2 ^ 52) (hvalue : q = m * 2 ^ e) :
    Rounds .positive q (UnpackedFloat.normalize Format.binary64 m e .positive) := by
  rcases Nat.eq_zero_or_pos m with rfl | hpos
  · obtain rfl : q = 0 := by rw [hvalue, Nat.cast_zero, zero_mul]
    exact rounds_zero .positive
  · have hpow : (0 : ℚ) < 2 ^ e := zpow_pos two_pos e
    have hq : 0 < q := by
      have hm : (0 : ℚ) < m := by exact_mod_cast hpos
      rw [hvalue]
      exact mul_pos hm hpow
    have htarget : Format.binary64.targetExponent (totalExponent m e) = unitExponent q := by
      have hlog : Int.log 2 q = m.log2 + e := by
        refine log_eq_of_bounds hpos hvalue.ge ?_
        rw [hvalue, add_mul, one_mul]
        exact lt_add_of_pos_right _ hpow
      change max (m.log2 + 1 + e - 53) (-1074) = max (Int.log 2 q) (-1022) - 52
      omega
    have hcompare : compare (m : ℤ) 0 = .gt := Int.compare_eq_gt.mpr (by exact_mod_cast hpos)
    rw [UnpackedFloat.normalize, hcompare]
    simp only [Int.toNat_natCast, UnpackedFloat.round, htarget, decreaseExponent]
    refine rounds_exact .positive hq hsmall ?_ (by omega)
    rw [hvalue, Nat.shiftLeft_eq]
    push_cast
    rw [mul_assoc, ← zpow_natCast, ← zpow_add₀ two_ne_zero]
    congr 2
    omega

/-- A power of ten is multiplied to the digits. -/
theorem rounds_mul {k : ℕ} (hpos : 0 < m) (hsmall : q < 2 ^ 52) (hvalue : q = m * 10 ^ k) :
    Rounds .positive q
      (roundWithAccuracy Format.binary64 .positive (m <<< 53 * 10 ^ k) (-53 + 0) .exact) := by
  have hone : 1 ≤ q := by
    have hnat : ((1 : ℕ) : ℚ) ≤ (m * 10 ^ k : ℕ) := by
      exact_mod_cast Nat.mul_pos hpos (Nat.pow_pos (by decide))
    push_cast at hnat
    linarith
  have hq : 0 < q := by linarith
  refine rounds_exact .positive hq hsmall ?_ ?_
  · have hunit : (2 : ℚ) ^ 53 * 2 ^ (-53 : ℤ) = 1 := by norm_num
    rw [Nat.shiftLeft_eq]
    push_cast
    calc
      q = m * 10 ^ k * (2 ^ 53 * 2 ^ (-53 : ℤ)) := by rw [hunit, mul_one, hvalue]
      _ = m * 2 ^ 53 * 10 ^ k * 2 ^ (-53 : ℤ) := by ring
  · have hlog : 0 ≤ Int.log 2 q := by
      refine (Int.zpow_le_iff_le_log (by decide) hq).mp ?_
      rw [zpow_zero]
      exact hone
    rw [unitExponent]
    omega

/-- The digits are shifted far enough before they are divided by a power of ten. -/
theorem rounds_divCore {d : ℕ} (hpos : 0 < m) (hd : 0 < d) (hsmall : q < 2 ^ 52)
    (hvalue : q = m / d) :
    Rounds .positive q (roundWithAccuracy Format.binary64 .positive
      (divCore Format.binary64 m 0 d 0).1 (divCore Format.binary64 m 0 d 0).2.1
      (divCore Format.binary64 m 0 d 0).2.2) := by
  have hm : (0 : ℚ) < m := by exact_mod_cast hpos
  have hdq : (0 : ℚ) < d := by exact_mod_cast hd
  have hq : 0 < q := by
    rw [hvalue]
    exact div_pos hm hdq
  obtain ⟨t, ht⟩ : ∃ t : ℤ, t = min 0 (max ((m.log2 : ℤ) - d.log2 - 53) (-1074)) :=
    ⟨_, rfl⟩
  have htarget : (divCore Format.binary64 m 0 d 0).2.1 = t := by
    have htotal : totalExponent m 0 - totalExponent d 0 = (m.log2 : ℤ) - d.log2 := by
      rw [totalExponent, totalExponent]
      omega
    rw [ht, divCore, htotal]
    rfl
  have hamount : (divCore Format.binary64 m 0 d 0).1 = m <<< (-t).toNat / d ∧
      (divCore Format.binary64 m 0 d 0).2.2 =
        accuracyOfFraction (m <<< (-t).toNat % d) d := by
    have hshift : ((0 : ℤ) - 0 - (divCore Format.binary64 m 0 d 0).2.1).toNat = (-t).toNat := by
      rw [htarget]
      omega
    rw [← hshift]
    exact ⟨rfl, rfl⟩
  rw [htarget, hamount.1, hamount.2]
  refine rounds_roundWithAccuracy .positive hq hsmall ?_ ?_
  · have hscaled : q / 2 ^ t = (m <<< (-t).toNat : ℕ) / (d : ℚ) := by
      have hpow : (2 : ℚ) ^ t = (2 ^ (-t).toNat)⁻¹ := by
        rw [← zpow_natCast, ← zpow_neg]
        congr 1
        omega
      rw [Nat.shiftLeft_eq, hvalue, hpow]
      push_cast
      rw [div_inv_eq_mul, div_mul_eq_mul_div]
    rw [hscaled]
    exact Reads.of_fraction _ hd
  · have hlog : (m.log2 : ℤ) - (d.log2 + 1 : ℕ) ≤ Int.log 2 q := by
      refine (Int.zpow_le_iff_le_log (by decide) hq).mp ?_
      have hbits : ((2 ^ m.log2 : ℕ) : ℚ) ≤ m := by exact_mod_cast Nat.log2_self_le hpos.ne'
      have hdbits : (d : ℚ) ≤ (2 ^ (d.log2 + 1) : ℕ) := by exact_mod_cast Nat.lt_log2_self.le
      push_cast at hbits hdbits
      rw [Nat.cast_ofNat, zpow_sub₀ two_ne_zero, zpow_natCast, zpow_natCast, hvalue]
      exact div_le_div₀ hm.le hbits hdq hdbits
    rw [unitExponent]
    omega

theorem large_of_exponent {k : ℤ} (hpos : 0 < m) (hk : 16 ≤ k) : (2 : ℚ) ^ 52 < m * 10 ^ k := by
  have hm : (1 : ℚ) ≤ m := by exact_mod_cast hpos
  have hten : (0 : ℚ) < 10 ^ k := zpow_pos (by norm_num) k
  calc
    (2 : ℚ) ^ 52 < 10 ^ (16 : ℤ) := by norm_num
    _ ≤ 10 ^ k := zpow_le_zpow_right₀ (by norm_num) hk
    _ ≤ m * 10 ^ k := le_mul_of_one_le_left hten.le hm

theorem tiny_of_exponent {k : ℤ} (hk : k ≤ -((m.log2 + 3 : ℕ) : ℤ)) : (m * 10 ^ k : ℚ) < 1 / 4 := by
  have hbits : (m : ℚ) ≤ (2 ^ (m.log2 + 1) : ℕ) := by exact_mod_cast Nat.lt_log2_self.le
  have hten : (0 : ℚ) < 10 ^ k := zpow_pos (by norm_num) k
  push_cast at hbits
  calc
    (m * 10 ^ k : ℚ) ≤ 2 ^ (m.log2 + 1) * 10 ^ (-((m.log2 + 3 : ℕ) : ℤ)) :=
      mul_le_mul hbits (zpow_le_zpow_right₀ (by norm_num) hk) hten.le (by positivity)
    _ < 2 ^ (m.log2 + 1) * 2 ^ (-((m.log2 + 3 : ℕ) : ℤ)) := by
      refine mul_lt_mul_of_pos_left ?_ (by positivity)
      rw [zpow_neg, zpow_neg, zpow_natCast, zpow_natCast]
      exact inv_strictAnti₀ (by positivity)
        (pow_lt_pow_left₀ (by norm_num) (by norm_num) (by omega))
    _ = 1 / 4 := by
      rw [zpow_neg, zpow_natCast, pow_add _ m.log2 3, pow_add _ m.log2 1]
      field_simp
      norm_num

/-- The limits on the exponent only spare work: nothing that large is below `2 ^ 52`, and
nothing that small is half an integer. -/
theorem rounds_ofScientific {k : ℤ} (hsmall : q < 2 ^ 52) (hvalue : q = m * 10 ^ k) :
    Rounds .positive q (UnpackedFloat.ofScientific Format.binary64 m k) := by
  rcases Nat.eq_zero_or_pos m with rfl | hpos
  · obtain rfl : q = 0 := by rw [hvalue, Nat.cast_zero, zero_mul]
    exact rounds_zero .positive
  · have hlarge : ¬ k > 2 ^ 11 := by
      intro hgt
      have hbig := large_of_exponent hpos (show 16 ≤ k by norm_num at hgt; omega)
      rw [← hvalue] at hbig
      exact absurd hbig hsmall.not_gt
    rw [UnpackedFloat.ofScientific, dif_neg hpos.ne', if_neg hlarge]
    split
    · rename_i hless
      have hq : 0 < q := by
        have hm : (0 : ℚ) < m := by exact_mod_cast hpos
        rw [hvalue]
        exact mul_pos hm (zpow_pos (by norm_num) k)
      have htiny := tiny_of_exponent (show k ≤ -((m.log2 + 3 : ℕ) : ℤ) by norm_num at hless; omega)
      rw [← hvalue] at htiny
      exact rounds_tiny hq htiny
    · split
      · rename_i hnonneg
        have hk : k = (k.toNat : ℤ) := by omega
        refine rounds_mul hpos hsmall ?_
        rw [hvalue, hk, zpow_natCast, Int.toNat_natCast]
      · have hk : k = -((-k).toNat : ℤ) := by omega
        refine rounds_divCore hpos (Nat.pow_pos (by decide)) hsmall ?_
        rw [hvalue, hk, zpow_neg, zpow_natCast, Int.neg_neg, Int.toNat_natCast]
        push_cast
        exact (div_eq_mul_inv _ _).symm

end

/-! ## Conversions to integers -/

theorem integerPart_pack {sign : Sign} {q : ℚ} {u : UnpackedFloat} (h : Rounds sign q u) :
    integerPart (Float.Model.pack u) = some (sign.apply ⌊q + halfStep q⌋₊) := by
  rw [integerPart, unpack_pack_of_stored h.stored]
  exact h.integerOf_eq

theorem integerPart_neg_pack {sign : Sign} {q : ℚ} {u : UnpackedFloat} (h : Rounds sign q u) :
    integerPart (Float.Model.pack u).neg = some (-sign.apply ⌊q + halfStep q⌋₊) := by
  rw [integerPart, Float.Model.neg, unpack_pack_of_stored h.stored,
    unpack_pack_of_stored h.stored.neg, integerOf_neg, h.integerOf_eq, Option.map_some]

section

variable {d : Double} {z : ℤ} (h : integerPart d = some z)
include h

theorem toInt_of_integerPart (low high : ℤ) : d.unpack.toInt low high = z := by
  rw [integerPart] at h
  cases hunpack : d.unpack with
  | notANumber =>
      rw [hunpack] at h
      exact absurd h (Option.some_ne_none z).symm
  | infinity sign =>
      rw [hunpack] at h
      exact absurd h (Option.some_ne_none z).symm
  | zero sign =>
      rw [hunpack] at h
      exact Option.some.inj h
  | finite sign m e hpos =>
      rw [hunpack] at h
      exact Option.some.inj h

theorem toInt32_of_integerPart (hlow : -2 ^ 31 ≤ z) (hhigh : z < 2 ^ 31) :
    d.toInt32.toInt = z := by
  rw [Float.Model.toInt32, UnpackedFloat.toInt32, toInt_of_integerPart h]
  exact Int32.toInt_ofIntClamp (by simpa using hlow) (by
    have hmax : Int32.maxValue.toInt = 2147483647 := rfl
    omega)

theorem toUInt32_of_integerPart (hlow : 0 ≤ z) (hhigh : z < 2 ^ 32) :
    (d.toUInt32.toNat : ℤ) = z := by
  have hnat : z.toNat < 2 ^ 32 := by omega
  rw [Float.Model.toUInt32, UnpackedFloat.toUInt32, toInt_of_integerPart h,
    UInt32.ofNatClamp_eq_ofNat _ hnat, UInt32.toNat_ofNat_of_lt' hnat]
  exact Int.toNat_of_nonneg hlow

end

end Foundations.DoubleRounding
