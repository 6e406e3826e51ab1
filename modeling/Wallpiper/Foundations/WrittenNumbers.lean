import Wallpiper.Foundations.DoubleText
import Wallpiper.Foundations.DoubleRounding

/-!
# Numbers as they are written

`strtod` reads a number in decimal or hexadecimal digits, or a word for what is
no finite number, and returns the nearest double.  The integer part survives
unless an integer is within half the distance of the doubles above the number.
-/

namespace Foundations.WrittenNumbers

open CText Doubles DoubleText DoubleRounding Float.Model

/-- What a text says before any rounding. -/
inductive Written where
  | word
  | number (q : ℚ)
  deriving DecidableEq

def Written.neg : Written → Written
  | .word => .word
  | .number q => .number (-q)

/-- A number without its sign. -/
def magnitudeWritten (s : Bytes) : Option Written :=
  if StartsWith (bytesOf "inf") s then some .word
  else if StartsWith (bytesOf "nan") s then some .word
  else
    match if StartsWith (bytesOf "0x") s then scanReal 16 112 (s.drop 2) else none with
    | some (digits, places, exponent) => some (.number (digits * 2 ^ (exponent - 4 * places)))
    | none =>
        (scanReal 10 101 s).map fun (digits, places, exponent) ↦
          .number (digits * 10 ^ (exponent - places))

def written (s : Bytes) : Option Written :=
  let signed := scanSign (s.dropWhile isSpace)
  (magnitudeWritten signed.2).map fun w ↦ if signed.1 then w.neg else w

/-- Toward zero. -/
def truncate (q : ℚ) : ℤ := if q < 0 then ⌈q⌉ else ⌊q⌋

/-- No integer is so near above the magnitude that rounding to a double reaches it. -/
def Clear (q : ℚ) : Prop := |q| + halfStep |q| < ⌊|q|⌋₊ + 1

/-! ## Truncation -/

theorem truncate_of_nonneg {q : ℚ} (h : 0 ≤ q) : truncate q = ⌊q⌋₊ := by
  rw [truncate, if_neg (not_lt.mpr h)]
  exact (Int.natCast_floor_eq_floor h).symm

theorem truncate_neg (q : ℚ) : truncate (-q) = -truncate q := by
  rcases lt_trichotomy q 0 with hneg | rfl | hpos
  · rw [truncate, truncate, if_pos hneg, if_neg (by linarith), Int.floor_neg]
  · rw [neg_zero, truncate, if_neg (lt_irrefl 0), Int.floor_zero, neg_zero]
  · rw [truncate, truncate, if_pos (by linarith), if_neg (by linarith), Int.ceil_neg]

theorem abs_lt_of_truncate_mem {q : ℚ} {b : ℕ} (hlow : -(b : ℤ) ≤ truncate q)
    (hhigh : truncate q ≤ b) : |q| < b + 1 := by
  rcases le_or_gt 0 q with hnonneg | hneg
  · rw [truncate_of_nonneg hnonneg] at hhigh
    have hcast : (⌊q⌋₊ : ℚ) ≤ b := by exact_mod_cast hhigh
    rw [abs_of_nonneg hnonneg]
    linarith [Nat.lt_floor_add_one q]
  · have htruncate : truncate q = -(⌊-q⌋₊ : ℤ) := by
      rw [← truncate_of_nonneg (by linarith : 0 ≤ -q), truncate_neg, neg_neg]
    have hle : (⌊-q⌋₊ : ℤ) ≤ b := by omega
    have hcast : (⌊-q⌋₊ : ℚ) ≤ b := by exact_mod_cast hle
    rw [abs_of_neg hneg]
    linarith [Nat.lt_floor_add_one (-q)]

theorem clear_neg_iff (q : ℚ) : Clear (-q) ↔ Clear q := by
  rw [Clear, Clear, abs_neg]

theorem clear_iff {q : ℚ} (h : 0 ≤ q) : Clear q ↔ ⌊q + halfStep q⌋₊ = ⌊q⌋₊ := by
  have hstep := halfStep_pos q
  have hle := Nat.floor_le h
  rw [Clear, abs_of_nonneg h, Nat.floor_eq_iff (by linarith)]
  exact ⟨fun hlt ↦ ⟨by linarith, hlt⟩, fun hbounds ↦ hbounds.2⟩

/-! ## Reading -/

section

variable {s : Bytes} {q : ℚ}

theorem isSome_magnitudeWritten (s : Bytes) :
    (magnitudeWritten s).isSome = (scanMagnitude s).isSome := by
  rw [magnitudeWritten, scanMagnitude]
  split
  · rfl
  · split
    · rfl
    · cases if StartsWith (bytesOf "0x") s then scanReal 16 112 (s.drop 2) else none with
      | some scanned => rfl
      | none => exact (Option.isSome_map).trans (Option.isSome_map).symm

theorem isSome_written (s : Bytes) : (written s).isSome = (strtod s).isSome := by
  rw [written, strtod, Option.isSome_map, Option.isSome_map]
  exact isSome_magnitudeWritten _

/-- What is read is the number that is written, rounded to the nearest double. -/
theorem scanMagnitude_rounds (h : magnitudeWritten s = some (.number q)) (hsmall : q < 2 ^ 52) :
    0 ≤ q ∧ ∃ u, scanMagnitude s = some (Float.Model.pack u) ∧ Rounds .positive q u := by
  rw [magnitudeWritten] at h
  rw [scanMagnitude]
  by_cases hinf : StartsWith (bytesOf "inf") s
  · rw [if_pos hinf] at h
    exact absurd (Option.some.inj h) (by simp)
  · by_cases hnan : StartsWith (bytesOf "nan") s
    · rw [if_neg hinf, if_pos hnan] at h
      exact absurd (Option.some.inj h) (by simp)
    · rw [if_neg hinf, if_neg hnan] at h
      rw [if_neg hinf, if_neg hnan]
      revert h
      cases if StartsWith (bytesOf "0x") s then scanReal 16 112 (s.drop 2) else none with
      | some scanned =>
          intro h
          have hvalue := (Written.number.inj (Option.some.inj h)).symm
          refine ⟨?_, _, rfl, rounds_normalize hsmall hvalue⟩
          rw [hvalue]
          positivity
      | none =>
          intro h
          obtain ⟨scanned, hscan, hwritten⟩ := Option.map_eq_some_iff.mp h
          have hvalue := (Written.number.inj hwritten).symm
          refine ⟨?_, _, ?_, rounds_ofScientific hsmall hvalue⟩
          · rw [hvalue]
            positivity
          · rw [hscan]
            rfl

/-- Reading keeps the integer part of the numbers that are clear of the next integer, and
of no others. -/
theorem integerPart_strtod_iff (h : written s = some (.number q)) (hsmall : |q| < 2 ^ 52) :
    ∃ d, strtod s = some d ∧ (integerPart d = some (truncate q) ↔ Clear q) := by
  obtain ⟨w, hw, hsigned⟩ := Option.map_eq_some_iff.mp h
  rw [strtod]
  cases hneg : (scanSign (s.dropWhile isSpace)).1 with
  | false =>
      obtain rfl : w = .number q := by simpa [hneg] using hsigned
      obtain ⟨hnonneg, u, hscan, hrounds⟩ :=
        scanMagnitude_rounds hw (lt_of_le_of_lt (le_abs_self q) hsmall)
      refine ⟨Float.Model.pack u, by simp [hscan], ?_⟩
      rw [integerPart_pack hrounds, truncate_of_nonneg hnonneg, clear_iff hnonneg]
      exact ⟨fun heq ↦ Int.ofNat_inj.mp (Option.some.inj heq), fun heq ↦ by rw [heq]; rfl⟩
  | true =>
      obtain ⟨p, rfl, rfl⟩ : ∃ p, w = .number p ∧ q = -p := by
        cases w with
        | word => simp [hneg, Written.neg] at hsigned
        | number p => exact ⟨p, rfl, by simpa [hneg, Written.neg, eq_comm] using hsigned⟩
      rw [abs_neg] at hsmall
      obtain ⟨hnonneg, u, hscan, hrounds⟩ :=
        scanMagnitude_rounds hw (lt_of_le_of_lt (le_abs_self p) hsmall)
      refine ⟨(Float.Model.pack u).neg, by simp [hscan], ?_⟩
      rw [integerPart_neg_pack hrounds, truncate_neg, truncate_of_nonneg hnonneg, clear_neg_iff,
        clear_iff hnonneg]
      refine ⟨fun heq ↦ ?_, fun heq ↦ by rw [heq]; rfl⟩
      exact Int.ofNat_inj.mp (neg_injective (Option.some.inj heq))

end

end Foundations.WrittenNumbers
