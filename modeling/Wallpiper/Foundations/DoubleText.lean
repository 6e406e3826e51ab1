import Mathlib.Data.Int.Log
import Mathlib.Algebra.Order.Floor.Ring
import Mathlib.Data.Rat.Floor
import Wallpiper.Foundations.CText
import Wallpiper.Foundations.Doubles

/-!
# Doubles as text

`%.6g` prints a double with six significant digits, and `strtod` reads the
number at the head of a text, both in the C locale.  What `strtod` reads ends at
a comma or a closing brace, so a number in a JSON object is read as if it stood
alone.
-/

namespace Foundations.DoubleText

open CText Doubles Float.Model

/-! ## Printing -/

/-- To the nearest integer, and to an even one in the middle between two. -/
def roundHalfEven (q : ℚ) : ℕ :=
  let below := ⌊q⌋₊
  let rest := q - below
  if rest < 1 / 2 then below
  else if 1 / 2 < rest then below + 1
  else below + below % 2

/-- Six significant digits of a positive number, and the exponent of the first. -/
def sixDigits (q : ℚ) : ℕ × ℤ :=
  let exponent := Int.log 10 q
  let digits := roundHalfEven (q / 10 ^ (exponent - 5))
  if digits = 10 ^ 6 then (10 ^ 5, exponent + 1) else (digits, exponent)

/-- The digits behind the point, which is left out with the last zeros. -/
def fractionText (digits : Bytes) : Bytes :=
  match digits.rdropWhile fun c ↦ c == 48 with
  | [] => []
  | kept => 46 :: kept

/-- At least two digits. -/
def exponentText (exponent : ℤ) : Bytes :=
  let digits := decimal exponent.natAbs
  (if exponent < 0 then 45 else 43) :: (if digits.length < 2 then 48 :: digits else digits)

/-- The exponent decides between the two styles. -/
def significantText (digits : Bytes) (exponent : ℤ) : Bytes :=
  if exponent < -4 ∨ 6 ≤ exponent then
    digits.take 1 ++ fractionText (digits.drop 1) ++ 101 :: exponentText exponent
  else if 0 ≤ exponent then
    digits.take (exponent.toNat + 1) ++ fractionText (digits.drop (exponent.toNat + 1))
  else 48 :: fractionText (List.replicate (-exponent - 1).toNat 48 ++ digits)

def signText : UnpackedFloat.Sign → Bytes
  | .negative => [45]
  | .positive => []

/-- `%.6g`. -/
def formatG6 (d : Double) : Bytes :=
  match d.unpack with
  | .infinity sign => signText sign ++ bytesOf "inf"
  | .notANumber => bytesOf "nan"
  | .zero sign => signText sign ++ [48]
  | .finite sign mantissa exponent _ =>
      let digits := sixDigits (mantissa * 2 ^ exponent)
      signText sign ++ significantText (decimal digits.1) digits.2

/-! ## Reading -/

def toLower (c : UInt8) : UInt8 := if 65 ≤ c ∧ c ≤ 90 then c + 32 else c

/-- The text starts with the word, in capitals or not. -/
def StartsWith (word s : Bytes) : Prop := word <+: s.map toLower

instance (word s : Bytes) : Decidable (StartsWith word s) := inferInstanceAs (Decidable (_ <+: _))

/-- The digits behind a point, and the rest. -/
def scanFraction (b : ℕ) : Bytes → List ℕ × Bytes
  | 46 :: cs => (scanDigits b cs, cs.drop (scanDigits b cs).length)
  | cs => ([], cs)

/-- The exponent behind its letter. -/
def scanExponent (marker : UInt8) : Bytes → ℤ
  | [] => 0
  | c :: cs =>
      if toLower c = marker then
        let signed := scanSign cs
        let value := digitsValue 10 (scanDigits 10 signed.2)
        if signed.1 then -(value : ℤ) else value
      else 0

/-- All digits as one number, how many of them are behind the point, and the
exponent. -/
def scanReal (b : ℕ) (marker : UInt8) (s : Bytes) : Option (ℕ × ℕ × ℤ) :=
  let whole := scanDigits b s
  let fraction := scanFraction b (s.drop whole.length)
  if whole ++ fraction.1 = [] then none
  else some (digitsValue b (whole ++ fraction.1), fraction.1.length, scanExponent marker fraction.2)

/-- A number without its sign. -/
def scanMagnitude (s : Bytes) : Option Double :=
  if StartsWith (bytesOf "inf") s then some (Float.Model.pack (.infinity .positive))
  else if StartsWith (bytesOf "nan") s then some (Float.Model.pack .notANumber)
  else
    match if StartsWith (bytesOf "0x") s then scanReal 16 112 (s.drop 2) else none with
    | some (digits, places, exponent) =>
        some (Float.Model.pack
          (.normalize Format.binary64 digits (exponent - 4 * places) .positive))
    | none =>
        (scanReal 10 101 s).map fun (digits, places, exponent) ↦
          Float.Model.ofScientific digits (exponent - places)

/-- `strtod`; `none` when no conversion is performed. -/
def strtod (s : Bytes) : Option Double :=
  let signed := scanSign (s.dropWhile isSpace)
  (scanMagnitude signed.2).map fun d ↦ if signed.1 then d.neg else d

/-! ## Where reading ends -/

theorem length_scanDigits_le (b : ℕ) (s : Bytes) : (scanDigits b s).length ≤ s.length := by
  induction s with
  | nil => simp [scanDigits]
  | cons d s ih =>
      simp only [scanDigits]
      cases digitValue b d with
      | none => simp
      | some v => simpa using ih

theorem drop_scanDigits_append (b : ℕ) (t rest : Bytes) :
    (t ++ rest).drop (scanDigits b t).length = t.drop (scanDigits b t).length ++ rest :=
  List.drop_append_of_le_length (length_scanDigits_le b t)

theorem length_le_of_startsWith {word s : Bytes} (h : StartsWith word s) :
    word.length ≤ s.length := by
  have hlength := List.IsPrefix.length_le h
  rwa [List.length_map] at hlength

section

variable {c : UInt8} (hc : c = 44 ∨ c = 125) (t rest : Bytes)
include hc

theorem dropWhile_isSpace_append :
    (t ++ c :: rest).dropWhile isSpace = t.dropWhile isSpace ++ c :: rest := by
  have hspace : isSpace c = false := by rcases hc with rfl | rfl <;> decide
  induction t with
  | nil => rw [List.nil_append, List.dropWhile_cons_of_neg (by simp [hspace])]; rfl
  | cons b t ih =>
      by_cases hb : isSpace b = true
      · rw [List.cons_append, List.dropWhile_cons_of_pos hb, List.dropWhile_cons_of_pos hb, ih]
      · rw [List.cons_append, List.dropWhile_cons_of_neg hb, List.dropWhile_cons_of_neg hb,
          List.cons_append]

theorem scanSign_append :
    scanSign (t ++ c :: rest) = ((scanSign t).1, (scanSign t).2 ++ c :: rest) := by
  cases t with
  | nil => rcases hc with rfl | rfl <;> rfl
  | cons b t =>
      rw [List.cons_append]
      unfold scanSign
      split <;> simp_all

theorem scanDigits_append (b : ℕ) : scanDigits b (t ++ c :: rest) = scanDigits b t := by
  have hdigit : digitValue b c = none := by rcases hc with rfl | rfl <;> simp [digitValue]
  induction t with
  | nil => simp only [List.nil_append, scanDigits, hdigit]
  | cons d t ih =>
      simp only [List.cons_append, scanDigits]
      cases digitValue b d with
      | none => rfl
      | some v => simp only [ih]

theorem startsWith_append {word : Bytes} (hword : c ∉ word) :
    StartsWith word (t ++ c :: rest) ↔ StartsWith word t := by
  have hlower : toLower c = c := by rcases hc with rfl | rfl <;> rfl
  rw [StartsWith, StartsWith, List.map_append, List.map_cons, hlower]
  exact ⟨prefix_of_prefix_append_cons hword, fun h ↦ h.trans (List.prefix_append _ _)⟩

theorem scanFraction_append (b : ℕ) :
    scanFraction b (t ++ c :: rest) =
      ((scanFraction b t).1, (scanFraction b t).2 ++ c :: rest) := by
  cases t with
  | nil => rcases hc with rfl | rfl <;> rfl
  | cons d t =>
      by_cases hd : d = 46
      · subst hd
        rw [List.cons_append]
        simp only [scanFraction, scanDigits_append hc, drop_scanDigits_append]
      · rw [List.cons_append]
        unfold scanFraction
        split <;> simp_all

theorem scanExponent_append {marker : UInt8} (hmarker : marker ≠ c) :
    scanExponent marker (t ++ c :: rest) = scanExponent marker t := by
  cases t with
  | nil =>
      have hlower : toLower c = c := by rcases hc with rfl | rfl <;> rfl
      rw [List.nil_append, scanExponent, scanExponent, hlower, if_neg (Ne.symm hmarker)]
  | cons d t =>
      rw [List.cons_append]
      simp only [scanExponent, scanSign_append hc, scanDigits_append hc]

theorem scanReal_append (b : ℕ) {marker : UInt8} (hmarker : marker ≠ c) :
    scanReal b marker (t ++ c :: rest) = scanReal b marker t := by
  simp only [scanReal, scanDigits_append hc, drop_scanDigits_append, scanFraction_append hc,
    scanExponent_append hc _ _ hmarker]

theorem scanMagnitude_append : scanMagnitude (t ++ c :: rest) = scanMagnitude t := by
  have hword : ∀ word ∈ [bytesOf "inf", bytesOf "nan", bytesOf "0x"], c ∉ word := by
    rcases hc with rfl | rfl <;> decide
  have hletter : ∀ marker ∈ [(101 : UInt8), 112], marker ≠ c := by
    rcases hc with rfl | rfl <;> decide +kernel
  have hhex : (if StartsWith (bytesOf "0x") t then scanReal 16 112 ((t ++ c :: rest).drop 2)
      else none) = if StartsWith (bytesOf "0x") t then scanReal 16 112 (t.drop 2) else none := by
    split
    · rename_i hstarts
      have hlength : 2 ≤ t.length := length_le_of_startsWith hstarts
      rw [List.drop_append_of_le_length hlength, scanReal_append hc _ _ _ (hletter 112 (by simp))]
    · rfl
  simp only [scanMagnitude, startsWith_append hc t rest (hword _ List.mem_cons_self),
    startsWith_append hc t rest (hword (bytesOf "nan") (by simp)),
    startsWith_append hc t rest (hword (bytesOf "0x") (by simp)), hhex,
    scanReal_append hc t rest 10 (hletter 101 (by simp))]

theorem strtod_append : strtod (t ++ c :: rest) = strtod t := by
  simp only [strtod, dropWhile_isSpace_append hc, scanSign_append hc, scanMagnitude_append hc]

end

/-! ## Integers -/

/-- A number starts with a digit, so it is neither a word nor hexadecimal. -/
theorem scanMagnitude_decimal (n : ℕ) :
    scanMagnitude (decimal n) = some (Float.Model.ofScientific n 0) := by
  have hletter : ∀ b ∈ (decimal n).map toLower, b ≠ 110 ∧ b ≠ 120 := by
    have key : ∀ d : Fin 10, toLower (digitByte d.1) ≠ 110 ∧ toLower (digitByte d.1) ≠ 120 := by
      decide
    intro b hb
    rw [decimal, numeral_eq_map, List.map_map] at hb
    obtain ⟨d, hd, rfl⟩ := List.mem_map.mp hb
    exact key ⟨d, lt_of_mem_numeralDigits (by omega) hd⟩
  have hword : ∀ word ∈ [bytesOf "inf", bytesOf "nan", bytesOf "0x"],
      ¬ StartsWith word (decimal n) := by
    intro word hmem hstarts
    have hsubset : ∀ b ∈ word, b ≠ 110 ∧ b ≠ 120 := fun b hb ↦ hletter b (hstarts.subset hb)
    have key : ∀ word ∈ [bytesOf "inf", bytesOf "nan", bytesOf "0x"], 110 ∈ word ∨ 120 ∈ word := by
      decide
    rcases key word hmem with hn | hx
    · exact (hsubset 110 hn).1 rfl
    · exact (hsubset 120 hx).2 rfl
  have hdigits : scanDigits 10 (decimal n) = numeralDigits 10 n :=
    scanDigits_numeral (by omega) (by omega) n
  have hreal : scanReal 10 101 (decimal n) = some (n, 0, 0) := by
    have hdrop : (decimal n).drop (numeralDigits 10 n).length = [] := by
      rw [decimal, numeral_eq_map, List.drop_eq_nil_iff, List.length_map]
    simp only [scanReal, hdigits, hdrop, scanFraction, List.append_nil,
      digitsValue_numeralDigits, if_neg numeralDigits_ne_nil, scanExponent, List.length_nil]
  rw [scanMagnitude, if_neg (hword _ List.mem_cons_self), if_neg (hword (bytesOf "nan") (by simp)),
    if_neg (hword (bytesOf "0x") (by simp)), hreal]
  rfl

theorem strtod_decimalInt (z : ℤ) :
    strtod (decimalInt z) = some (ofSigned (decide (z < 0)) z.natAbs) := by
  have hsign := scanSign_decimalInt_append z []
  simp only [List.append_nil] at hsign
  rw [strtod, hsign, scanMagnitude_decimal]
  rfl

/-! ## The text of six digits -/

theorem roundHalfEven_le {q : ℚ} {n : ℕ} (hn : n ≠ 0) (h : q < n) : roundHalfEven q ≤ n := by
  have hfloor : ⌊q⌋₊ < n := (Nat.floor_lt' hn).mpr h
  simp only [roundHalfEven]
  split
  · omega
  · split
    · omega
    · omega

theorem sixDigits_fst_lt (q : ℚ) : (sixDigits q).1 < 10 ^ 6 := by
  have hpow : (0 : ℚ) < 10 ^ (Int.log 10 q - 5) := zpow_pos (by norm_num) _
  have hlt : q / 10 ^ (Int.log 10 q - 5) < (10 ^ 6 : ℕ) := by
    rw [div_lt_iff₀ hpow]
    calc
      q < ((10 : ℕ) : ℚ) ^ (Int.log 10 q + 1) := Int.lt_zpow_succ_log_self (by omega) q
      _ = (10 ^ 6 : ℕ) * 10 ^ (Int.log 10 q - 5) := by
        have hexponent : Int.log 10 q + 1 = (6 : ℕ) + (Int.log 10 q - 5) := by omega
        rw [hexponent, zpow_add₀ (by norm_num), zpow_natCast]
        norm_num
  have hle := roundHalfEven_le (by norm_num) hlt
  simp only [sixDigits]
  split
  · norm_num
  · rename_i hne
    exact lt_of_le_of_ne hle hne

theorem sixDigits_snd_bounds {q : ℚ} (hlow : (10 : ℚ) ^ (-998 : ℤ) ≤ q)
    (hhigh : q < 10 ^ (998 : ℤ)) : (sixDigits q).2.natAbs < 10 ^ 3 := by
  have hpos : 0 < q := lt_of_lt_of_le (zpow_pos (by norm_num) _) hlow
  have hlogLow : -998 ≤ Int.log 10 q := (Int.zpow_le_iff_le_log (by omega) hpos).mp hlow
  have hlogHigh : Int.log 10 q < 998 := (Int.lt_zpow_iff_log_lt (by omega) hpos).mp hhigh
  simp only [sixDigits]
  split
  · show (Int.log 10 q + 1).natAbs < 10 ^ 3
    omega
  · show (Int.log 10 q).natAbs < 10 ^ 3
    omega

/-- A finite double is far inside the range of three digits for the exponent. -/
theorem finite_bounds {m : ℕ} {e : ℤ} (hpos : 0 < m) (hm : m < 2 ^ 53) (he : -1074 ≤ e ∧ e ≤ 971) :
    (10 : ℚ) ^ (-998 : ℤ) ≤ m * 2 ^ e ∧ (m * 2 ^ e : ℚ) < 10 ^ (998 : ℤ) := by
  have hm₁ : (1 : ℚ) ≤ m := by exact_mod_cast hpos
  have hm₂ : (m : ℚ) < 2 ^ 53 := by exact_mod_cast hm
  have hlow : (2 : ℚ) ^ (-1074 : ℤ) ≤ 2 ^ e := zpow_le_zpow_right₀ (by norm_num) he.1
  have hhigh : (2 : ℚ) ^ e ≤ 2 ^ (971 : ℤ) := zpow_le_zpow_right₀ (by norm_num) he.2
  have hpow : (0 : ℚ) < 2 ^ e := zpow_pos (by norm_num) e
  have hbase : (2 : ℚ) ^ 2994 ≤ 10 ^ 998 := by
    calc
      (2 : ℚ) ^ 2994 = (2 ^ 3) ^ 998 := pow_mul 2 3 998
      _ ≤ 10 ^ 998 := pow_le_pow_left₀ (by norm_num) (by norm_num) 998
  have hsmall : (2 : ℚ) ^ 1074 ≤ 2 ^ 2994 := pow_le_pow_right₀ (by norm_num) (by omega)
  constructor
  · calc
      (10 : ℚ) ^ (-998 : ℤ) = (10 ^ 998)⁻¹ := by rw [zpow_neg]; rfl
      _ ≤ (2 ^ 1074)⁻¹ := inv_anti₀ (by positivity) (hsmall.trans hbase)
      _ = 1 * 2 ^ (-1074 : ℤ) := by rw [zpow_neg, one_mul]; rfl
      _ ≤ m * 2 ^ e := mul_le_mul hm₁ hlow (zpow_pos (by norm_num) _).le (by linarith)
  · calc
      (m * 2 ^ e : ℚ) < 2 ^ 53 * 2 ^ e := mul_lt_mul_of_pos_right hm₂ hpow
      _ ≤ 2 ^ 53 * 2 ^ (971 : ℤ) := mul_le_mul_of_nonneg_left hhigh (by positivity)
      _ = 2 ^ (53 + 971) := by rw [pow_add]; rfl
      _ ≤ 2 ^ 2994 := pow_le_pow_right₀ (by norm_num) (by omega)
      _ ≤ 10 ^ (998 : ℤ) := hbase

/-- The bytes of printed doubles. -/
def isRealByte (c : UInt8) : Bool := isNumeralByte c || c == 46 || c == 43

theorem fractionText_cases (digits : Bytes) :
    fractionText digits = [] ∨ ∃ kept, kept <+: digits ∧ fractionText digits = 46 :: kept := by
  have hprefix : (digits.rdropWhile fun c ↦ c == 48) <+: digits := List.rdropWhile_prefix _ digits
  simp only [fractionText]
  split
  · exact .inl rfl
  · exact .inr ⟨_, hprefix, rfl⟩

theorem length_fractionText_le (digits : Bytes) :
    (fractionText digits).length ≤ digits.length + 1 := by
  rcases fractionText_cases digits with hnil | ⟨kept, hkept, htext⟩
  · rw [hnil]
    simp
  · rw [htext, List.length_cons]
    have hlength := hkept.length_le
    omega

theorem isRealByte_of_mem_fractionText {digits : Bytes} (h : ∀ c ∈ digits, isRealByte c = true) :
    ∀ c ∈ fractionText digits, isRealByte c = true := by
  rcases fractionText_cases digits with hnil | ⟨kept, hkept, htext⟩
  · rw [hnil]
    simp
  · rw [htext]
    exact List.forall_mem_cons.mpr ⟨rfl, fun c hc ↦ h c (hkept.subset hc)⟩

theorem isRealByte_of_mem_decimal {n : ℕ} {c : UInt8} (hc : c ∈ decimal n) :
    isRealByte c = true := by
  rw [isRealByte, isNumeralByte_of_mem_numeral (by omega) (by omega) hc]
  rfl

theorem isRealByte_of_mem_exponentText {x : ℤ} : ∀ c ∈ exponentText x, isRealByte c = true := by
  have hsign : isRealByte (if x < 0 then 45 else 43) = true := by split <;> rfl
  refine List.forall_mem_cons.mpr ⟨hsign, ?_⟩
  split
  · exact List.forall_mem_cons.mpr ⟨rfl, fun c hc ↦ isRealByte_of_mem_decimal hc⟩
  · exact fun c hc ↦ isRealByte_of_mem_decimal hc

theorem length_exponentText_le {x : ℤ} (h : x.natAbs < 10 ^ 3) : (exponentText x).length ≤ 4 := by
  have hdigits : (decimal x.natAbs).length ≤ 3 := numeral_length_le (by omega) (by omega) h
  simp only [exponentText, List.length_cons]
  split
  · rw [List.length_cons]
    omega
  · omega

section

variable {digits : Bytes} {x : ℤ}

theorem isRealByte_of_mem_significantText (h : ∀ c ∈ digits, isRealByte c = true) :
    ∀ c ∈ significantText digits x, isRealByte c = true := by
  have htake : ∀ k, ∀ c ∈ digits.take k, isRealByte c = true :=
    fun k c hc ↦ h c (List.mem_of_mem_take hc)
  have hdrop : ∀ k, ∀ c ∈ fractionText (digits.drop k), isRealByte c = true :=
    fun k ↦ isRealByte_of_mem_fractionText fun c hc ↦ h c (List.mem_of_mem_drop hc)
  have hexponent : ∀ c ∈ 101 :: exponentText x, isRealByte c = true :=
    List.forall_mem_cons.mpr ⟨rfl, isRealByte_of_mem_exponentText⟩
  rw [significantText]
  split
  · intro c hc
    rcases List.mem_append.mp hc with hc | hc
    · rcases List.mem_append.mp hc with hc | hc
      · exact htake 1 c hc
      · exact hdrop 1 c hc
    · exact hexponent c hc
  · split
    · intro c hc
      rcases List.mem_append.mp hc with hc | hc
      · exact htake _ c hc
      · exact hdrop _ c hc
    · refine List.forall_mem_cons.mpr ⟨rfl, isRealByte_of_mem_fractionText fun c hc ↦ ?_⟩
      rcases List.mem_append.mp hc with hc | hc
      · rw [(List.mem_replicate.mp hc).2]
        rfl
      · exact h c hc

theorem length_significantText_le (h : digits.length ≤ 6) (hx : x.natAbs < 10 ^ 3) :
    (significantText digits x).length ≤ 12 := by
  have hfraction : ∀ k, (digits.take k ++ fractionText (digits.drop k)).length ≤ 7 := by
    intro k
    have hlength := length_fractionText_le (digits.drop k)
    have hsplit := congrArg List.length (List.take_append_drop k digits)
    rw [List.length_append] at hsplit
    rw [List.length_append]
    omega
  rw [significantText]
  split
  · have htake := hfraction 1
    have hexponent := length_exponentText_le hx
    rw [List.length_append, List.length_cons]
    omega
  · split
    · have htake := hfraction (x.toNat + 1)
      omega
    · have hlength := length_fractionText_le (List.replicate (-x - 1).toNat 48 ++ digits)
      rw [List.length_append, List.length_replicate] at hlength
      rw [List.length_cons]
      omega

/-- The text starts with a digit. -/
theorem significantText_head (n : ℕ) (x : ℤ) :
    ∃ d, d < 10 ∧ ∃ tail, significantText (decimal n) x = digitByte d :: tail := by
  obtain ⟨d, hd, tail, htail⟩ := @numeral_head 10 (by omega) n
  rw [significantText, decimal, htail]
  split
  · exact ⟨d, hd, _, rfl⟩
  · split
    · exact ⟨d, hd, _, rfl⟩
    · exact ⟨0, by omega, _, rfl⟩

end

/-- The forms of a printed double: a sign, and a word or digits. -/
theorem formatG6_cases (d : Double) :
    formatG6 d = bytesOf "nan" ∨ ∃ sign, formatG6 d = signText sign ++ bytesOf "inf" ∨
      ∃ n x, n < 10 ^ 6 ∧ x.natAbs < 10 ^ 3 ∧
        formatG6 d = signText sign ++ significantText (decimal n) x := by
  rw [formatG6]
  cases hunpack : d.unpack with
  | notANumber => exact .inl rfl
  | infinity sign => exact .inr ⟨sign, .inl rfl⟩
  | zero sign => exact .inr ⟨sign, .inr ⟨0, 0, by omega, by omega, rfl⟩⟩
  | finite sign m e hpos =>
      obtain ⟨hm, he⟩ := bounds_of_unpack hunpack
      obtain ⟨hlow, hhigh⟩ := finite_bounds hpos hm he
      exact .inr ⟨sign, .inr ⟨_, _, sixDigits_fst_lt _, sixDigits_snd_bounds hlow hhigh, rfl⟩⟩

theorem isRealByte_of_mem_formatG6 (d : Double) : ∀ c ∈ formatG6 d, isRealByte c = true := by
  have hsign : ∀ sign, ∀ c ∈ signText sign, isRealByte c = true := by
    intro sign
    cases sign with
    | negative => decide +kernel
    | positive => decide +kernel
  rcases formatG6_cases d with hnan | ⟨sign, hinf | ⟨n, x, _, _, hdigits⟩⟩
  · rw [hnan]
    decide +kernel
  · rw [hinf]
    intro c hc
    rcases List.mem_append.mp hc with hc | hc
    · exact hsign sign c hc
    · have key : ∀ c ∈ bytesOf "inf", isRealByte c = true := by decide +kernel
      exact key c hc
  · rw [hdigits]
    intro c hc
    rcases List.mem_append.mp hc with hc | hc
    · exact hsign sign c hc
    · exact isRealByte_of_mem_significantText (fun c hc ↦ isRealByte_of_mem_decimal hc) c hc

theorem length_formatG6_le (d : Double) : (formatG6 d).length ≤ 13 := by
  have hsign : ∀ sign, (signText sign).length ≤ 1 := by
    intro sign
    cases sign with
    | negative => decide
    | positive => decide
  rcases formatG6_cases d with hnan | ⟨sign, hinf | ⟨n, x, hn, hx, hdigits⟩⟩
  · rw [hnan]
    decide
  · have hword : (bytesOf "inf").length = 3 := rfl
    have hlength := hsign sign
    rw [hinf, List.length_append]
    omega
  · have htext := length_significantText_le (numeral_length_le (by omega) (by omega) hn) hx
    have hlength := hsign sign
    rw [hdigits, List.length_append]
    exact Nat.add_le_add hlength htext |>.trans (by omega)

theorem scanMagnitude_digit_isSome {d : ℕ} (hd : d < 10) (s : Bytes) :
    (scanMagnitude (digitByte d :: s)).isSome := by
  have hreal : (scanReal 10 101 (digitByte d :: s)).isSome := by
    have hdigit := digitValue_digitByte (show 10 ≤ 36 by omega) hd
    simp only [scanReal, scanDigits, hdigit]
    rw [if_neg (by simp)]
    rfl
  rw [scanMagnitude]
  split
  · rfl
  · split
    · rfl
    · split
      · rfl
      · rwa [Option.isSome_map]

/-- Behind a sign, a word or a digit is enough for a number. -/
theorem strtod_signText_isSome {sign : UnpackedFloat.Sign} {c : UInt8} {s : Bytes}
    (hspace : isSpace c = false) (hminus : c ≠ 45) (hplus : c ≠ 43)
    (h : (scanMagnitude (c :: s)).isSome) : (strtod (signText sign ++ c :: s)).isSome := by
  have hscan : ∃ neg, scanSign ((signText sign ++ c :: s).dropWhile isSpace) = (neg, c :: s) := by
    cases sign with
    | negative => exact ⟨true, rfl⟩
    | positive =>
        refine ⟨false, ?_⟩
        rw [signText, List.nil_append, List.dropWhile_cons_of_neg (by simp [hspace])]
        unfold scanSign
        split
        · rename_i heq
          exact absurd (List.cons.inj heq).1 hminus
        · rename_i heq
          exact absurd (List.cons.inj heq).1 hplus
        · rfl
  obtain ⟨neg, hneg⟩ := hscan
  rw [strtod, hneg, Option.isSome_map]
  exact h

/-- Whatever follows, the printed text is read as a number. -/
theorem strtod_formatG6_isSome (d : Double) (t : Bytes) : (strtod (formatG6 d ++ t)).isSome := by
  have hinfinite : (scanMagnitude (bytesOf "inf" ++ t)).isSome := by
    have hstarts : StartsWith (bytesOf "inf") (bytesOf "inf" ++ t) := ⟨t.map toLower, by simp; rfl⟩
    rw [scanMagnitude, if_pos hstarts]
    rfl
  rcases formatG6_cases d with hnan | ⟨sign, hinf | ⟨n, x, _, _, hdigits⟩⟩
  · have hstarts : StartsWith (bytesOf "nan") (bytesOf "nan" ++ t) := ⟨t.map toLower, by simp; rfl⟩
    have hmagnitude : (scanMagnitude (bytesOf "nan" ++ t)).isSome := by
      rw [scanMagnitude, if_pos hstarts]
      split
      · rfl
      · rfl
    rw [hnan]
    exact @strtod_signText_isSome .positive 110 _ (by decide) (by decide) (by decide) hmagnitude
  · rw [hinf, List.append_assoc]
    exact @strtod_signText_isSome sign 105 _ (by decide) (by decide) (by decide) hinfinite
  · obtain ⟨c, hc, tail, htail⟩ := significantText_head n x
    obtain ⟨hminus, hplus⟩ := digitByte_ne_sign (show c < 36 by omega)
    rw [hdigits, htail, List.append_assoc, List.cons_append]
    exact strtod_signText_isSome (isSpace_digitByte (by omega)) hminus hplus
      (scanMagnitude_digit_isSome hc (tail ++ t))

end Foundations.DoubleText
