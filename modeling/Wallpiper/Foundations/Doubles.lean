import Mathlib

/-!
# Doubles that hold integers

A `double` of C is the binary64 model of the core library.  An integer below
`2 ^ 32` is held exactly, with either sign, and comes back when the double is
converted.  A finite double is a mantissa below `2 ^ 53` times a power of two
between `2 ^ -1074` and `2 ^ 971`.
-/

namespace Foundations.Doubles

open Float.Model Float.Model.UnpackedFloat

abbrev Double := Float.Model

instance : Repr Double := ⟨fun d _ ↦ repr d.toBits⟩

/-! ## Packed doubles -/

/-- The leading bit of a normal mantissa is not stored. -/
theorem toNat_implicit_append (b : BitVec 52) : (1#1 ++ b).toNat = 2 ^ 52 + b.toNat := by
  rw [BitVec.toNat_append, ← Nat.shiftLeft_add_eq_or_of_lt b.isLt, Nat.shiftLeft_eq]
  rfl

theorem unpack_pack_normal (sign : Sign) {m : ℕ} {e : ℤ} (hlow : 2 ^ 52 ≤ m) (hhigh : m < 2 ^ 53)
    (he : -1074 ≤ e ∧ e ≤ 971) (hpos : 0 < m) :
    (Float.Model.pack (.finite sign m e hpos)).unpack = .finite sign m e hpos := by
  have hlog : m.log2 = 52 := by
    rw [Nat.log2_eq_iff (by omega)]
    omega
  obtain ⟨biased, hbiased⟩ : ∃ biased : ℕ, (biased : ℤ) = e + 1075 := ⟨(e + 1075).toNat, by omega⟩
  have hpack : UnpackedFloat.pack Format.binary64 (.finite sign m e hpos) =
      packComponents Format.binary64 sign (BitVec.ofNat _ biased) (BitVec.ofNat _ m) := by
    have hexponent : (e + Format.binary64.exponentBias +
        Format.binary64.mantissaBitsWithoutImplicit).toNat = biased := by
      simp only [Format.exponentBias]
      omega
    rw [UnpackedFloat.pack, hexponent]
    simp only [hlog]
    have hfits : ¬ 2 ^ Format.binary64.exponentBits ≤ biased + 1 := by
      simp only [not_le]
      omega
    rw [if_neg hfits, if_pos (show 52 + 1 = Format.binary64.mantissaBits from rfl)]
  have hbits : ∀ k, k ≠ biased → k < 2048 → BitVec.ofNat 11 biased ≠ BitVec.ofNat 11 k := by
    intro k hk hlt heq
    have hnat := congrArg BitVec.toNat heq
    rw [BitVec.toNat_ofNat, BitVec.toNat_ofNat] at hnat
    omega
  have hmantissa : (1#1 ++ BitVec.ofNat 52 m).toNat = m := by
    rw [toNat_implicit_append, BitVec.toNat_ofNat]
    omega
  have hexponent : ((BitVec.ofNat 11 biased).toNat : ℤ) -
      (Format.binary64.exponentBias + Format.binary64.mantissaBitsWithoutImplicit) = e := by
    rw [BitVec.toNat_ofNat]
    simp only [Format.exponentBias]
    omega
  change UnpackedFloat.unpack Format.binary64 (UnpackedFloat.pack Format.binary64 _) = _
  rw [hpack, UnpackedFloat.unpack]
  simp only [unpackMantissa_packComponents, unpackExponent_packComponents,
    unpackSign_packComponents, Sign.ofBitVec_toBitVec]
  have hfinite : BitVec.ofNat 11 biased ≠ -1#11 := hbits 2047 (by omega) (by omega)
  rw [if_neg hfinite, if_neg (hbits 0 (by omega) (by omega))]
  simp only [hmantissa, hexponent]

/-- The range of a finite double. -/
theorem bounds_of_unpack {d : Double} {sign : Sign} {m : ℕ} {e : ℤ} {hpos : 0 < m}
    (h : d.unpack = .finite sign m e hpos) : m < 2 ^ 53 ∧ -1074 ≤ e ∧ e ≤ 971 := by
  rw [Float.Model.unpack, UnpackedFloat.unpack] at h
  have hbias : (Format.binary64.exponentBias : ℤ) +
      Format.binary64.mantissaBitsWithoutImplicit = 1075 := rfl
  have hmantissa : (@unpackMantissa Format.binary64 d.toBits.toBitVec).toNat < 2 ^ 52 :=
    BitVec.isLt _
  have hexponent : (@unpackExponent Format.binary64 d.toBits.toBitVec).toNat < 2 ^ 11 :=
    BitVec.isLt _
  simp only [hbias] at h
  split at h
  · split at h
    · exact absurd h (by simp)
    · exact absurd h (by simp)
  · rename_i hfinite
    split at h
    · rename_i hzero
      split at h
      · exact absurd h (by simp)
      · injection h with _ hm he
        rw [hzero] at he
        change (0 : ℤ) - 1075 + 1 = e at he
        omega
    · rename_i hzero
      injection h with _ hm he
      have hlast : (@unpackExponent Format.binary64 d.toBits.toBitVec).toNat ≠ 2047 :=
        fun heq ↦ hfinite (BitVec.eq_of_toNat_eq heq)
      have hfirst : (@unpackExponent Format.binary64 d.toBits.toBitVec).toNat ≠ 0 :=
        fun heq ↦ hzero (BitVec.eq_of_toNat_eq heq)
      have himplicit := toNat_implicit_append (@unpackMantissa Format.binary64 d.toBits.toBitVec)
      omega

/-! ## Integers -/

theorem shiftRight_exact (m s : ℕ) :
    (ExtendedMantissa.mk (m * 2 ^ s) false false) >>> s = ⟨m, false, false⟩ := by
  induction s generalizing m with
  | zero => simp [HShiftRight.hShiftRight, Nat.repeat]
  | succ s ih =>
      have hsplit : m * 2 ^ (s + 1) = m * 2 * 2 ^ s := by ring
      rw [hsplit]
      change ExtendedMantissa.shiftRightOne
        ((ExtendedMantissa.mk (m * 2 * 2 ^ s) false false) >>> s) = _
      rw [ih]
      simp [ExtendedMantissa.shiftRightOne]

theorem log2_mul_two_pow {n : ℕ} (hpos : 0 < n) (k : ℕ) : (n * 2 ^ k).log2 = n.log2 + k := by
  have hlow : 2 ^ n.log2 ≤ n := Nat.log2_self_le (by omega)
  have hhigh : n < 2 ^ (n.log2 + 1) := Nat.lt_log2_self
  have hk : 0 < 2 ^ k := Nat.two_pow_pos k
  rw [Nat.log2_eq_iff (Nat.mul_pos hpos hk).ne', Nat.pow_add, Nat.add_right_comm, Nat.pow_add]
  exact ⟨Nat.mul_le_mul_right _ hlow, Nat.mul_lt_mul_of_pos_right hhigh hk⟩

/-- The mantissa of an integer is shifted until its leading bit is in place. -/
theorem mantissa_bounds {n : ℕ} (hpos : 0 < n) (hlog : n.log2 ≤ 52) :
    2 ^ 52 ≤ n * 2 ^ (52 - n.log2) ∧ n * 2 ^ (52 - n.log2) < 2 ^ 53 := by
  have hne : n * 2 ^ (52 - n.log2) ≠ 0 := (Nat.mul_pos hpos (Nat.two_pow_pos _)).ne'
  have hlog2 := log2_mul_two_pow hpos (52 - n.log2)
  exact (Nat.log2_eq_iff hne).mp (by omega)

theorem shiftToTargetExponent_exact {m s : ℕ} {e : ℤ} (hpos : 0 < m) (hlog : m.log2 = 52)
    (he : -1074 ≤ e) :
    shiftToTargetExponent Format.binary64 (m * 2 ^ s) (e - s) .exact = (⟨m, false, false⟩, e) := by
  have htarget : Format.binary64.targetExponent (totalExponent (m * 2 ^ s) (e - s)) = e := by
    rw [totalExponent, log2_mul_two_pow hpos, hlog, Format.targetExponent]
    simp only [Format.minExponent, Format.mantissaBits]
    omega
  have hamount : (e - (e - s)).toNat = s := by omega
  rw [shiftToTargetExponent, htarget, shiftToExponent, hamount,
    ExtendedMantissa.ofMantissaAndAccuracy, shiftRight_exact]
  simp

theorem roundWithAccuracy_exact (sign : Sign) {m s : ℕ} {e : ℤ} (hpos : 0 < m)
    (hlog : m.log2 = 52) (he : -1074 ≤ e) :
    roundWithAccuracy Format.binary64 sign (m * 2 ^ s) (e - s) .exact = .finite sign m e hpos := by
  have hsecond := @shiftToTargetExponent_exact m 0 e hpos hlog he
  rw [Nat.pow_zero, Nat.mul_one, Nat.cast_zero, sub_zero] at hsecond
  rw [roundWithAccuracy, shiftToTargetExponent_exact hpos hlog he]
  have hrounded : (ExtendedMantissa.mk m false false).roundedMantissa = m := rfl
  simp only [hrounded, hsecond]
  rw [dif_neg hpos.ne']

theorem ofScientific_eq {n : ℕ} (hpos : 0 < n) (hlog : n.log2 ≤ 52)
    (hm : 0 < n * 2 ^ (52 - n.log2)) :
    UnpackedFloat.ofScientific Format.binary64 n 0 =
      .finite .positive (n * 2 ^ (52 - n.log2)) (n.log2 - 52) hm := by
  have hmantissa : (n * 2 ^ (52 - n.log2)).log2 = 52 := by
    rw [log2_mul_two_pow hpos]
    omega
  have hround := @roundWithAccuracy_exact .positive _ (n.log2 + 1) (n.log2 - 52) hm hmantissa
    (by omega)
  have hshift : n * 2 ^ (52 - n.log2) * 2 ^ (n.log2 + 1) = n <<< 53 * 10 ^ 0 := by
    rw [Nat.mul_assoc, ← Nat.pow_add, Nat.shiftLeft_eq, Nat.pow_zero, Nat.mul_one]
    congr 2
    omega
  have hexponent : (n.log2 : ℤ) - 52 - (n.log2 + 1 : ℕ) = -53 + 0 := by omega
  rw [hshift, hexponent] at hround
  rw [UnpackedFloat.ofScientific, dif_neg hpos.ne', if_neg (by decide), if_neg (by simp),
    if_pos (by decide)]
  exact hround

theorem roundToInt_exact (sign : Sign) {n : ℕ} (hlog : n.log2 ≤ 52) :
    roundToInt sign (n * 2 ^ (52 - n.log2)) (n.log2 - 52) = sign.apply n := by
  have hdecrease : ((n.log2 : ℤ) - 52 - 0).toNat = 0 := by omega
  have hamount : (0 - ((n.log2 : ℤ) - 52 - (0 : ℕ))).toNat = 52 - n.log2 := by omega
  rw [roundToInt, decreaseExponent, hdecrease, Nat.shiftLeft_zero]
  simp only [shiftToExponent, hamount, ExtendedMantissa.ofMantissaAndAccuracy, shiftRight_exact]

/-- An integer with its sign, as text gives them. -/
def ofSigned (neg : Bool) (n : ℕ) : Double :=
  if neg then (Float.Model.ofScientific n 0).neg else Float.Model.ofScientific n 0

theorem toInt_ofSigned {neg : Bool} {n : ℕ} (h : n < 2 ^ 32) (low high : ℤ) :
    (ofSigned neg n).unpack.toInt low high = if neg then -(n : ℤ) else n := by
  rcases Nat.eq_zero_or_pos n with rfl | hpos
  · cases neg with
    | true => rfl
    | false => rfl
  · have hlog : n.log2 ≤ 52 := by
      have hlt : n.log2 < 32 := (Nat.log2_lt hpos.ne').mpr h
      omega
    obtain ⟨hlow, hhigh⟩ := mantissa_bounds hpos hlog
    have hm : 0 < n * 2 ^ (52 - n.log2) := by omega
    have hunpack : ∀ sign : Sign,
        (Float.Model.pack (.finite sign (n * 2 ^ (52 - n.log2)) (n.log2 - 52) hm)).unpack =
          .finite sign (n * 2 ^ (52 - n.log2)) (n.log2 - 52) hm :=
      fun sign ↦ unpack_pack_normal sign hlow hhigh (by omega) hm
    have hplain : (Float.Model.ofScientific n 0).unpack =
        .finite .positive (n * 2 ^ (52 - n.log2)) (n.log2 - 52) hm := by
      rw [Float.Model.ofScientific, ofScientific_eq hpos hlog hm, hunpack]
    cases neg with
    | false =>
        rw [ofSigned, if_neg Bool.false_ne_true, hplain]
        exact roundToInt_exact .positive hlog
    | true =>
        rw [ofSigned, if_pos rfl, Float.Model.neg, hplain, UnpackedFloat.neg, hunpack]
        exact roundToInt_exact .negative hlog

theorem toUInt32_ofSigned (n : UInt32) : (ofSigned false n.toNat).toUInt32 = n := by
  rw [Float.Model.toUInt32, UnpackedFloat.toUInt32, toInt_ofSigned n.toNat_lt,
    if_neg Bool.false_ne_true, Int.toNat_natCast, UInt32.ofNatClamp_eq_ofNat _ n.toNat_lt]
  exact UInt32.ofNat_toNat

theorem toInt32_ofSigned (z : Int32) :
    (ofSigned (decide (z.toInt < 0)) z.toInt.natAbs).toInt32 = z := by
  have hlow := z.minValue_le_toInt
  have hhigh := z.toInt_le
  have hmin : Int32.minValue.toInt = -2147483648 := rfl
  have hmax : Int32.maxValue.toInt = 2147483647 := rfl
  have hvalue : (if decide (z.toInt < 0) = true then -(z.toInt.natAbs : ℤ)
      else (z.toInt.natAbs : ℤ)) = z.toInt := by
    by_cases hneg : z.toInt < 0
    · rw [if_pos (decide_eq_true hneg)]
      omega
    · rw [if_neg (by simpa using hneg)]
      omega
  rw [Float.Model.toInt32, UnpackedFloat.toInt32, toInt_ofSigned (by omega), hvalue]
  apply Int32.toInt.inj
  exact Int32.toInt_ofIntClamp (by omega) (by omega)

end Foundations.Doubles
