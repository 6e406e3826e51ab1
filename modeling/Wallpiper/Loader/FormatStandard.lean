import Wallpiper.Foundations.TextParts
import Wallpiper.Loader.FormatTruncation

/-!
# The formatter and the C standard

What the standard prescribes for the conversions that the loader uses, next to
what its formatter does.  A negative number gets its sign before the padding,
and the padding is counted for the digits alone, so it is right only where there
is nothing to pad.  A width is read into an `int`.
-/

namespace Wallpiper.Loader

open Foundations Foundations.CText Foundations.FormatStrings Foundations.TextParts

/-! ## The standard -/

/-- A number in its field, filled up with zeros behind the sign or with spaces
before it. -/
def field (width : ℕ) (zero : Bool) (sign digits : Bytes) : Bytes :=
  let room := width - (sign.length + digits.length)
  if zero then sign ++ (List.replicate room 48 ++ digits)
  else List.replicate room 32 ++ (sign ++ digits)

/-- `%X`. -/
def hexUpper (n : ℕ) : Bytes := (hexLower n).map fun c ↦ if 97 ≤ c then c - 32 else c

def standardNumber (c : UInt8) (zero : Bool) (width : ℕ) (signed : ℤ) (unsigned : ℕ) : Bytes :=
  if c = 100 then field width zero (if signed < 0 then [45] else []) (decimal signed.natAbs)
  else if c = 117 then field width zero [] (decimal unsigned)
  else if c = 120 then field width zero [] (hexLower unsigned)
  else field width zero [] (hexUpper unsigned)

def standardText : Piece × Option VaArg → Bytes
  | (.literal c, _) => [c]
  | (.conversion zero width _ c, some (.word v)) =>
      standardNumber c zero width v.toInt32.toInt v.toNat
  | (.conversion zero width _ c, some (.size v)) =>
      standardNumber c zero width v.toInt64.toInt v.toNat
  -- for a null pointer there is nothing prescribed
  | (.conversion _ _ _ _, some (.string s)) => cString (s.getD [])
  | (.conversion _ _ _ _, some (.pointer v)) => [48, 120] ++ hexLower v.toNat
  | (.conversion _ _ _ _, none) => [37]

/-- Literal text, `%s`, `%p`, `%%`, and `%d`, `%u`, `%x`, `%X` with a flag, a
width and a `z`. -/
def Listed : Piece → Prop
  | .literal c => c ≠ 37
  | .conversion zero width size c =>
      (c = 115 ∨ c = 112 ∨ c = 37) ∧ zero = false ∧ width = 0 ∧ size = false ∨
        c = 100 ∨ c = 117 ∨ c = 120 ∨ c = 88

/-- The characters of the text go to `append_char`, in this order and no others. -/
def Produces (fmt : Bytes) (args : List VaArg) (text : Bytes) : Prop :=
  ∀ (σ : Type) (append : σ → UInt8 → σ) (s : σ),
    formatText append s fmt args = .ok (text.foldl append s)

structure AgreesWithC (fmt : Bytes) (args : List VaArg) : Prop where
  inside : ∀ cap buf, vsnprintf cap buf fmt args ≠ .error .pastEnd
  standard : ∀ ps, (∀ p ∈ ps, Listed p) → fmt = spell ps → .string none ∉ args →
    Produces fmt args ((assigned ps args).flatMap standardText)

/-! ## When they agree -/

/-- The width is an `int`, and a negative number has nothing to pad. -/
def FieldFits (c : UInt8) (width : ℕ) (signed : ℤ) : Prop :=
  width < 2 ^ 31 ∧ (c = 100 → signed < 0 → width ≤ (decimal signed.natAbs).length)

def NumberFits : Piece × Option VaArg → Prop
  | (.conversion _ width _ c, some (.word v)) => FieldFits c width v.toInt32.toInt
  | (.conversion _ width _ c, some (.size v)) => FieldFits c width v.toInt64.toInt
  | _ => True

structure FormatFits (fmt : Bytes) (args : List VaArg) : Prop where
  finished : ¬Unfinished fmt
  numbers : ∀ ps, (∀ p ∈ ps, Listed p) → fmt = spell ps → .string none ∉ args →
    ∀ q ∈ assigned ps args, NumberFits q

/-! ## Digits -/

theorem digitLoop_eq (tab : Bytes) {base : UInt64} (hbase : 1 < base.toNat) (room : ℕ)
    {v : UInt64} (hv : v.toNat < base.toNat ^ room) :
    digitLoop tab base room v = (Nat.digits base.toNat v.toNat).map fun d ↦ tab.getD d 0 := by
  induction room generalizing v with
  | zero =>
      have hzero : v.toNat = 0 := by simpa using hv
      rw [digitLoop, hzero, Nat.digits_zero, List.map_nil]
  | succ room ih =>
      by_cases hpos : 0 < v
      · have hpos' : 0 < v.toNat := UInt64.lt_iff_toNat_lt.mp hpos
        have hdiv : (v / base).toNat < base.toNat ^ room := by
          rw [UInt64.toNat_div]
          apply Nat.div_lt_of_lt_mul
          rwa [← Nat.pow_succ']
        rw [digitLoop, if_pos hpos, ih hdiv, Nat.digits_def' hbase hpos', List.map_cons,
          UInt64.toNat_mod, UInt64.toNat_div]
      · have hzero : v.toNat = 0 := by
          have h := mt UInt64.lt_iff_toNat_lt.mpr hpos
          rw [UInt64.toNat_zero] at h
          omega
        rw [digitLoop, if_neg hpos, hzero, Nat.digits_zero, List.map_nil]

theorem uintDigits_reverse {base : UInt64} (hbase : 1 < base.toNat)
    (hroom : 2 ^ 64 ≤ base.toNat ^ 32) (v : UInt64) (upper : Bool) {digit : ℕ → UInt8}
    (hdigit : ∀ d < base.toNat,
      (if upper then upperDigits else lowerDigits).getD d 0 = digit d) :
    (uintDigits v base upper).reverse =
      if v.toNat = 0 then [48] else ((Nat.digits base.toNat v.toNat).map digit).reverse := by
  by_cases hv : v = 0
  · subst hv
    rfl
  · have hv' : v.toNat ≠ 0 := fun h ↦ hv (UInt64.toNat_inj.mp (h.trans UInt64.toNat_zero.symm))
    have hlt : v.toNat < base.toNat ^ 32 := v.toNat_lt.trans_le hroom
    rw [uintDigits, if_neg hv, if_neg hv', digitLoop_eq _ hbase 32 hlt]
    congr 1
    exact List.map_congr_left fun d hd ↦ hdigit d (Nat.digits_lt_base hbase hd)

theorem uintDigits_decimal (v : UInt64) : (uintDigits v 10 false).reverse = decimal v.toNat :=
  uintDigits_reverse (by decide) (by decide) v false (by decide)

theorem uintDigits_hexLower (v : UInt64) : (uintDigits v 16 false).reverse = hexLower v.toNat :=
  uintDigits_reverse (by decide) (by decide) v false (by decide)

theorem uintDigits_hexUpper (v : UInt64) : (uintDigits v 16 true).reverse = hexUpper v.toNat := by
  have hdigit : ∀ d < 16, upperDigits.getD d 0 =
      (fun c : UInt8 ↦ if 97 ≤ c then c - 32 else c) (digitByte d) := by decide
  have h := @uintDigits_reverse 16 (by decide) (by decide) v true _ hdigit
  rw [h, hexUpper, hexLower, numeral]
  split
  · rfl
  · rw [List.map_reverse, List.map_map]
    rfl

/-- The digits of a number: no sign, no space, and no zero before another. -/
structure Numeral (digits : Bytes) : Prop where
  unsigned : 45 ∉ digits
  split : ∃ d rest, digits = d :: rest ∧ d ≠ 32 ∧ (d = 48 → rest = [])
  short : digits.length + 1 < 2 ^ 31

theorem numeral_isNumeral {b n : ℕ} (hb₁ : 1 < b) (hb : b ≤ 36) (hn : n < b ^ 20) :
    Numeral (numeral b n) := by
  have hbyte : ∀ d : Fin 36, digitByte d.1 ≠ 45 ∧ digitByte d.1 ≠ 32 := by decide
  have hmem : ∀ c ∈ numeral b n, c ≠ 45 ∧ c ≠ 32 := by
    intro c hc
    rw [numeral_eq_map] at hc
    obtain ⟨d, hd, rfl⟩ := List.mem_map.mp hc
    exact hbyte ⟨d, (lt_of_mem_numeralDigits hb₁ hd).trans_le hb⟩
  refine ⟨fun h ↦ (hmem 45 h).1 rfl, ?_, ?_⟩
  · by_cases hzero : n = 0
    · subst hzero
      exact ⟨48, [], rfl, by decide, fun _ ↦ rfl⟩
    · obtain ⟨c, cs, hsplit, hc⟩ := numeral_head_ne_zero hb₁ hb hzero
      refine ⟨c, cs, hsplit, (hmem c ?_).2, fun h ↦ absurd h hc⟩
      rw [hsplit]
      exact List.mem_cons_self
  · have hlen := numeral_length_le hb₁ (by omega) hn
    omega

theorem Numeral.map {digits : Bytes} (h : Numeral digits) {f : UInt8 → UInt8}
    (hzero : ∀ c, f c = 48 → c = 48) (hspace : ∀ c, f c = 32 → c = 32)
    (hsign : ∀ c, f c = 45 → c = 45) : Numeral (digits.map f) := by
  obtain ⟨d, rest, hsplit, hd, hrest⟩ := h.split
  refine ⟨?_, ⟨f d, rest.map f, ?_, fun hf ↦ hd (hspace d hf), ?_⟩, ?_⟩
  · intro hmem
    obtain ⟨c, hc, hf⟩ := List.mem_map.mp hmem
    exact h.unsigned (hsign c hf ▸ hc)
  · rw [hsplit, List.map_cons]
  · intro hf
    rw [hrest (hzero d hf), List.map_nil]
  · rw [List.length_map]
    exact h.short

theorem decimal_isNumeral {n : ℕ} (hn : n < 2 ^ 64) : Numeral (decimal n) :=
  numeral_isNumeral (by omega) (by omega) (by omega)

theorem hexLower_isNumeral {n : ℕ} (hn : n < 2 ^ 64) : Numeral (hexLower n) :=
  numeral_isNumeral (by omega) (by omega) (by omega)

theorem hexUpper_isNumeral {n : ℕ} (hn : n < 2 ^ 64) : Numeral (hexUpper n) := by
  have key : ∀ c : Fin 256, ∀ d ∈ ([48, 32, 45] : List UInt8),
      (if 97 ≤ UInt8.ofFin c then UInt8.ofFin c - 32 else UInt8.ofFin c) = d →
        UInt8.ofFin c = d := by decide +kernel
  exact (hexLower_isNumeral hn).map (fun c ↦ key c.toFin 48 (by simp))
    (fun c ↦ key c.toFin 32 (by simp)) fun c ↦ key c.toFin 45 (by simp)

/-! ## Fields -/

/-- A width is read modulo 2^32. -/
theorem width_toInt (width : ℕ) :
    (width < 2 ^ 31 → (Int32.ofNat width).toInt = width) ∧
      (2 ^ 31 ≤ width → (Int32.ofNat width).toInt ≤ width - 2 ^ 32) := by
  refine ⟨fun h ↦ Int32.toInt_ofNat_of_lt h, fun h ↦ ?_⟩
  have hsize : ((Int32.size : ℕ) : ℤ) = 2 ^ 32 := rfl
  rw [Int32.toInt_ofNat', Int.bmod_def, hsize]
  split <;> omega

/-- The padding that the formatter counts, and the room in an unsigned field. -/
theorem pads_unsigned (width : ℕ) {n : ℕ} (hn : n + 1 < 2 ^ 31) :
    ((Int32.ofNat width).toInt - n).toNat ≤ width - n ∧
      (((Int32.ofNat width).toInt - n).toNat = width - n ↔ width < 2 ^ 31) := by
  obtain ⟨hsmall, hlarge⟩ := width_toInt width
  by_cases hw : width < 2 ^ 31
  · have h := hsmall hw
    omega
  · have h := hlarge (by omega)
    omega

/-- The room of a field with a sign is one less, where there is any. -/
theorem pads_negative (width : ℕ) {n : ℕ} (hn : n + 1 < 2 ^ 31) :
    ((Int32.ofNat width).toInt - n).toNat = width - (1 + n) ↔ width ≤ n := by
  obtain ⟨hsmall, hlarge⟩ := width_toInt width
  by_cases hw : width < 2 ^ 31
  · have h := hsmall hw
    omega
  · have h := hlarge (by omega)
    omega

theorem fill_ne_sign (zero : Bool) : (if zero then (48 : UInt8) else 32) ≠ 45 := by
  cases zero <;> decide

theorem not_mem_filled {digits : Bytes} (h : 45 ∉ digits) (pads : ℕ) (zero : Bool) :
    45 ∉ List.replicate pads (if zero then 48 else 32) ++ digits := by
  intro hmem
  rcases List.mem_append.mp hmem with hmem | hmem
  · exact fill_ne_sign zero (List.eq_of_mem_replicate hmem).symm
  · exact h hmem

theorem field_unsigned (width : ℕ) (zero : Bool) (digits : Bytes) :
    field width zero [] digits =
      List.replicate (width - digits.length) (if zero then 48 else 32) ++ digits := by
  cases zero <;> simp [field]

/-- Digits with less padding than their field has. -/
theorem lags_unsigned {digits : Bytes} (h : Numeral digits) (zero : Bool) {pads room : ℕ}
    (hle : pads ≤ room) :
    Lags 45 (List.replicate pads (if zero then 48 else 32) ++ digits)
      (List.replicate room (if zero then 48 else 32) ++ digits) := by
  have hmark := not_mem_filled h.unsigned pads zero
  have hmark' := not_mem_filled h.unsigned room zero
  refine ⟨fun hmem ↦ absurd hmem hmark, fun _ ↦ ⟨hmark', ?_⟩, fun hne ↦ ?_⟩
  · rw [List.length_append, List.length_append, List.length_replicate, List.length_replicate]
    omega
  · have hlt : pads < room := by
      refine lt_of_le_of_ne hle fun heq ↦ hne ?_
      rw [heq]
    obtain ⟨d, rest, hsplit, hspace, hzero⟩ := h.split
    by_cases hd : d = if zero then 48 else 32
    · -- a field that is all zeros
      have hd48 : d = 48 := by
        cases zero with
        | true => exact hd
        | false => exact absurd hd hspace
      have hdigits : digits = List.replicate 1 (if zero then 48 else 32) := by
        rw [hsplit, hzero hd48, ← hd, List.replicate_one]
      right
      refine ⟨⟨List.replicate (room - pads) (if zero then 48 else 32), ?_⟩, hmark'⟩
      rw [hdigits, List.replicate_append_replicate, List.replicate_append_replicate,
        List.replicate_append_replicate]
      congr 1
      omega
    · left
      rw [hsplit]
      exact clash_replicate hd hlt []

/-- A negative number with any padding behind its sign. -/
theorem lags_negative {digits : Bytes} (h : Numeral digits) (hzero : digits ≠ [48])
    (zero : Bool) (pads width : ℕ) :
    Lags 45 (45 :: (List.replicate pads (if zero then 48 else 32) ++ digits))
      (field width zero [45] digits) := by
  obtain ⟨d, rest, hsplit, hspace, hd⟩ := h.split
  have hd48 : d ≠ 48 := by
    intro h48
    apply hzero
    rw [hsplit, h48, hd h48]
  have hmark : 45 ∈ field width zero [45] digits := by
    cases zero <;> simp [field]
  refine ⟨fun _ ↦ ⟨hmark, ?_⟩, fun hmem ↦ absurd List.mem_cons_self hmem, fun hne ↦ Or.inl ?_⟩
  · rw [List.idxOf_cons_self]
    exact Nat.zero_le _
  · cases zero with
    | true =>
        simp only [field, if_true, List.singleton_append] at hne ⊢
        rcases Nat.lt_trichotomy pads (width - (1 + digits.length)) with hlt | heq | hlt
        · rw [hsplit] at hlt ⊢
          exact clash_replicate hd48 hlt [45]
        · exact absurd (by rw [heq, List.length_singleton]) hne
        · rw [hsplit] at hlt ⊢
          exact (clash_replicate hd48 hlt [45]).symm
    | false =>
        simp only [field, Bool.false_eq_true, if_false, List.singleton_append,
          List.length_singleton] at hne ⊢
        cases hroom : width - (1 + digits.length) with
        | zero =>
            rw [hroom] at hne
            have hpads : 0 < pads := by
              refine Nat.pos_of_ne_zero fun h0 ↦ hne ?_
              rw [h0]
              rfl
            rw [hsplit]
            exact (clash_replicate hspace hpads [45]).symm
        | succ room =>
            have hsign : (45 : UInt8) ≠ 32 := by decide
            exact clash_replicate hsign (Nat.succ_pos room) []

/-! ## Numbers -/

theorem uintText_lags {v base : UInt64} {upper : Bool} {digits : Bytes}
    (hdigits : (uintDigits v base upper).reverse = digits) (h : Numeral digits) (width : ℕ)
    (zero : Bool) :
    Lags 45 (uintText v base upper (Int32.ofNat width) zero) (field width zero [] digits) ∧
      (uintText v base upper (Int32.ofNat width) zero = field width zero [] digits ↔
        width < 2 ^ 31) := by
  obtain ⟨hle, hiff⟩ := pads_unsigned width h.short
  have hlen : (uintDigits v base upper).length = digits.length := by
    rw [← hdigits, List.length_reverse]
  rw [uintText, hdigits, hlen, field_unsigned]
  have hlags := lags_unsigned h zero hle
  refine ⟨hlags, fun heq ↦ ?_, fun hw ↦ ?_⟩
  · have hlength := congrArg List.length heq
    simp only [List.length_append, List.length_replicate] at hlength
    exact hiff.mp (by omega)
  · rw [hiff.mpr hw]

theorem negativeText_lags {v : UInt64} {digits : Bytes}
    (hdigits : (uintDigits v 10 false).reverse = digits) (h : Numeral digits)
    (hzero : digits ≠ [48]) (width : ℕ) (zero : Bool) :
    Lags 45 (45 :: uintText v 10 false (Int32.ofNat width) zero)
        (field width zero [45] digits) ∧
      (45 :: uintText v 10 false (Int32.ofNat width) zero = field width zero [45] digits ↔
        width ≤ digits.length) := by
  have hiff := pads_negative width h.short
  have hlen : (uintDigits v 10 false).length = digits.length := by
    rw [← hdigits, List.length_reverse]
  rw [uintText, hdigits, hlen]
  have hlags := lags_negative h hzero zero ((Int32.ofNat width).toInt - digits.length).toNat width
  refine ⟨hlags, fun heq ↦ ?_, fun hw ↦ ?_⟩
  · have hlength := congrArg List.length heq
    have hfield : (field width zero [45] digits).length =
        width - (1 + digits.length) + 1 + digits.length := by
      cases zero <;> simp [field] <;> omega
    rw [hfield] at hlength
    simp only [List.length_cons, List.length_append, List.length_replicate] at hlength
    exact hiff.mp (by omega)
  · have hroom : width - (1 + digits.length) = 0 := by omega
    rw [hiff.mpr hw, hroom]
    cases zero <;> simp [field, hroom]

theorem toNat_toUInt64 {v : Int64} (h : ¬v < 0) : v.toUInt64.toNat = v.toInt.natAbs := by
  have hle : 0 ≤ v := Int64.not_lt.mp h
  have hcast := Int64.cast_toNatClampNeg v hle
  rw [Int64.toNat_toUInt64_of_le hle]
  omega

theorem toNat_neg_toUInt64 {v : Int64} (h : v < 0) : (-v).toUInt64.toNat = v.toInt.natAbs := by
  have hneg : v.toInt < 0 := by
    have hlt := Int64.lt_iff_toInt_lt.mp h
    rwa [Int64.toInt_zero] at hlt
  have hint : v.toInt = if 2 * v.toBitVec.toNat < 2 ^ 64 then (v.toBitVec.toNat : ℤ)
      else (v.toBitVec.toNat : ℤ) - (2 ^ 64 : ℕ) := BitVec.toInt_eq_toNat_cond _
  have hnat : (-v).toUInt64.toNat = (2 ^ 64 - v.toBitVec.toNat) % 2 ^ 64 := BitVec.toNat_neg _
  have hlt := v.toBitVec.isLt
  rw [hnat]
  split at hint <;> omega

/-- `%d`. -/
theorem intText_lags (v : Int64) (width : ℕ) (zero : Bool) :
    Lags 45 (intText v (Int32.ofNat width) zero)
        (field width zero (if v.toInt < 0 then [45] else []) (decimal v.toInt.natAbs)) ∧
      (intText v (Int32.ofNat width) zero =
          field width zero (if v.toInt < 0 then [45] else []) (decimal v.toInt.natAbs) ↔
        FieldFits 100 width v.toInt) := by
  have hle := v.le_toInt
  have hlt := v.toInt_lt
  have hnum : Numeral (decimal v.toInt.natAbs) := decimal_isNumeral (by omega)
  have hsign : v < 0 ↔ v.toInt < 0 := by
    rw [Int64.lt_iff_toInt_lt, Int64.toInt_zero]
  by_cases hneg : v < 0
  · have hdigits : (uintDigits (-v).toUInt64 10 false).reverse = decimal v.toInt.natAbs := by
      rw [uintDigits_decimal, toNat_neg_toUInt64 hneg]
    have hzero : decimal v.toInt.natAbs ≠ [48] := by
      obtain ⟨c, cs, hsplit, hc⟩ := numeral_head_ne_zero (b := 10) (n := v.toInt.natAbs)
        (by omega) (by omega) (by have := hsign.mp hneg; omega)
      rw [decimal, hsplit]
      exact fun heq ↦ hc (List.cons.inj heq).1
    obtain ⟨hlags, hiff⟩ := negativeText_lags hdigits hnum hzero width zero
    rw [intText, if_pos hneg, if_pos (hsign.mp hneg)]
    refine ⟨hlags, hiff.trans ⟨fun hw ↦ ⟨?_, fun _ _ ↦ hw⟩, fun hf ↦ hf.2 rfl (hsign.mp hneg)⟩⟩
    have hshort := hnum.short
    omega
  · have hdigits : (uintDigits v.toUInt64 10 false).reverse = decimal v.toInt.natAbs := by
      rw [uintDigits_decimal, toNat_toUInt64 hneg]
    have hneg' : ¬v.toInt < 0 := fun h ↦ hneg (hsign.mpr h)
    obtain ⟨hlags, hiff⟩ := uintText_lags hdigits hnum width zero
    rw [intText, if_neg hneg, if_neg hneg']
    exact ⟨hlags, hiff.trans ⟨fun hw ↦ ⟨hw, fun _ h ↦ absurd h hneg'⟩, fun hf ↦ hf.1⟩⟩

theorem numberText_lags {c : UInt8} (hc : c = 100 ∨ c = 117 ∨ c = 120 ∨ c = 88) (zero : Bool)
    (width : ℕ) (signed : Int64) (unsigned : UInt64) :
    Lags 45 (numberText c signed unsigned (Int32.ofNat width) zero)
        (standardNumber c zero width signed.toInt unsigned.toNat) ∧
      (numberText c signed unsigned (Int32.ofNat width) zero =
          standardNumber c zero width signed.toInt unsigned.toNat ↔
        FieldFits c width signed.toInt) := by
  have hlt := unsigned.toNat_lt
  have hfits : ∀ {c : UInt8}, c ≠ 100 →
      (width < 2 ^ 31 ↔ FieldFits c width signed.toInt) :=
    fun hne ↦ ⟨fun hw ↦ ⟨hw, fun h ↦ absurd h hne⟩, fun hf ↦ hf.1⟩
  rcases hc with rfl | rfl | rfl | rfl
  · exact intText_lags signed width zero
  · obtain ⟨hlags, hiff⟩ := uintText_lags (uintDigits_decimal unsigned)
      (decimal_isNumeral hlt) width zero
    exact ⟨hlags, hiff.trans (hfits (by decide))⟩
  · obtain ⟨hlags, hiff⟩ := uintText_lags (uintDigits_hexLower unsigned)
      (hexLower_isNumeral hlt) width zero
    exact ⟨hlags, hiff.trans (hfits (by decide))⟩
  · obtain ⟨hlags, hiff⟩ := uintText_lags (uintDigits_hexUpper unsigned)
      (hexUpper_isNumeral hlt) width zero
    exact ⟨hlags, hiff.trans (hfits (by decide))⟩

/-! ## Pieces -/

theorem mem_assigned {ps : List Piece} {args : List VaArg}
    (hargs : args.map VaArg.type = ps.filterMap argType) :
    ∀ q ∈ assigned ps args,
      q.1 ∈ ps ∧ argType q.1 = q.2.map VaArg.type ∧ ∀ a ∈ q.2, a ∈ args := by
  induction ps generalizing args with
  | nil => exact List.forall_mem_nil _
  | cons p ps ih =>
      cases htype : argType p with
      | none =>
          rw [List.filterMap_cons_none htype] at hargs
          rw [assigned_plain htype]
          refine List.forall_mem_cons.mpr ⟨⟨List.mem_cons_self, htype, by simp⟩, ?_⟩
          intro q hq
          obtain ⟨hmem, htypes, hsome⟩ := ih hargs q hq
          exact ⟨List.mem_cons_of_mem p hmem, htypes, hsome⟩
      | some t =>
          rw [List.filterMap_cons_some htype] at hargs
          cases args with
          | nil => cases hargs
          | cons a args =>
              obtain ⟨ha, hrest⟩ := List.cons.inj hargs
              rw [assigned_arg htype]
              refine List.forall_mem_cons.mpr ⟨⟨List.mem_cons_self, ?_, by simp⟩, ?_⟩
              · rw [htype, ← ha, Option.map_some]
              · intro q hq
                obtain ⟨hmem, htypes, hsome⟩ := ih hrest q hq
                exact ⟨List.mem_cons_of_mem p hmem, htypes,
                  fun b hb ↦ List.mem_cons_of_mem a (hsome b hb)⟩

theorem Listed.spelled {p : Piece} (h : Listed p) : p.Spelled := by
  cases p with
  | literal c => exact h
  | conversion zero width size c =>
      right
      rcases h with ⟨rfl | rfl | rfl, -⟩ | rfl | rfl | rfl | rfl <;> decide

theorem lags_of_eq {a b : Bytes} {fits : Prop} (h : a = b) (hfits : fits) :
    Lags 45 a b ∧ (a = b ↔ fits) :=
  ⟨h ▸ Lags.refl a, fun _ ↦ hfits, fun _ ↦ h⟩

/-- A number takes a word or a size. -/
theorem argType_number {c : UInt8} (hc : c = 100 ∨ c = 117 ∨ c = 120 ∨ c = 88) (zero : Bool)
    (width : ℕ) (size : Bool) :
    argType (.conversion zero width size c) = some (if size then .size else .word) := by
  rcases hc with rfl | rfl | rfl | rfl <;> rfl

theorem pieceText_lags {q : Piece × Option VaArg} (hlisted : Listed q.1)
    (htype : argType q.1 = q.2.map VaArg.type) (hnull : q.2 ≠ some (.string none)) :
    Lags 45 (pieceText q) (standardText q) ∧ (pieceText q = standardText q ↔ NumberFits q) := by
  obtain ⟨p, arg⟩ := q
  cases p with
  | literal c => exact lags_of_eq rfl trivial
  | conversion zero width size c =>
      rcases hlisted with ⟨hc, rfl, rfl, rfl⟩ | hc
      · rcases hc with rfl | rfl | rfl
        · cases arg with
          | none => cases htype
          | some a =>
              cases a with
              | string t =>
                  cases t with
                  | none => exact absurd rfl hnull
                  | some t => exact lags_of_eq rfl trivial
              | _ => cases htype
        · cases arg with
          | none => cases htype
          | some a =>
              cases a with
              | pointer v =>
                  have hzero : ((0 : Int32).toInt - (uintDigits v 16 false).length).toNat = 0 := by
                    have hle : (0 : Int32).toInt = 0 := rfl
                    omega
                  have htext : uintText v 16 false 0 false = hexLower v.toNat := by
                    rw [uintText, hzero, List.replicate_zero, List.nil_append,
                      uintDigits_hexLower]
                  refine lags_of_eq ?_ trivial
                  rw [pieceText, standardText, htext]
              | _ => cases htype
        · cases arg with
          | none => exact lags_of_eq rfl trivial
          | some a => cases htype
      · rw [argType_number hc] at htype
        cases arg with
        | none => cases htype
        | some a =>
            cases a with
            | word v =>
                have h := numberText_lags hc zero width v.toInt32.toInt64 v.toUInt64
                rw [Int32.toInt_toInt64, UInt32.toNat_toUInt64] at h
                exact h
            | size v => exact numberText_lags hc zero width v.toInt64 v
            | _ => cases size <;> cases htype

/-! ## Formats -/

theorem produces_iff {fmt : Bytes} (hnul : 0 ∉ fmt) {args : List VaArg}
    (hargs : Matches fmt args) (hfinished : ¬Unfinished fmt) (text : Bytes) :
    Produces fmt args text ↔ fullText fmt args = text := by
  constructor
  · intro h
    have hrun := produced_eq hnul hargs
    have htext := h Bytes (fun text c ↦ text ++ [c]) []
    rw [foldl_concat, List.nil_append] at htext
    rw [if_neg hfinished, produced, htext] at hrun
    exact (Except.ok.inj hrun).symm
  · rintro rfl σ append s
    rw [formatText_eq append hnul hargs, if_neg hfinished]

/-- The format is never read behind its NUL exactly when it ends outside a
conversion. -/
theorem vsnprintf_inside_iff {fmt : Bytes} (hnul : 0 ∉ fmt) {args : List VaArg}
    (hargs : Matches fmt args) :
    (∀ cap buf, vsnprintf cap buf fmt args ≠ .error .pastEnd) ↔ ¬Unfinished fmt := by
  constructor
  · intro h hunfinished
    apply h 0 fun _ ↦ 0
    rw [vsnprintf, formatText_eq _ hnul hargs, if_pos hunfinished]
    rfl
  · intro hfinished cap buf h
    rw [vsnprintf, formatText_eq _ hnul hargs, if_neg hfinished] at h
    cases h

/-- The two texts of a format are the same when they are so piece by piece. -/
theorem fullText_eq_iff {ps : List Piece} (hlisted : ∀ p ∈ ps, Listed p) {args : List VaArg}
    (hargs : args.map VaArg.type = ps.filterMap argType) (hnull : .string none ∉ args) :
    (assigned ps args).flatMap pieceText = (assigned ps args).flatMap standardText ↔
      ∀ q ∈ assigned ps args, NumberFits q := by
  have hpieces : ∀ q ∈ assigned ps args, Lags 45 (pieceText q) (standardText q) ∧
      (pieceText q = standardText q ↔ NumberFits q) := by
    intro q hq
    obtain ⟨hmem, htype, hsome⟩ := mem_assigned hargs q hq
    exact pieceText_lags (hlisted q.1 hmem) htype fun h ↦ hnull (hsome _ h)
  constructor
  · intro heq q hq
    have hlags : ∀ r ∈ (assigned ps args).map fun q ↦ (pieceText q, standardText q),
        Lags 45 r.1 r.2 := by
      intro r hr
      obtain ⟨q, hq, rfl⟩ := List.mem_map.mp hr
      exact (hpieces q hq).1
    have hparts := eq_of_flatMap_eq hlags (by simpa only [List.flatMap_map] using heq)
    exact (hpieces q hq).2.mp (hparts _ (List.mem_map_of_mem hq))
  · intro hfits
    rw [List.flatMap_def, List.flatMap_def]
    congr 1
    exact List.map_congr_left fun q hq ↦ (hpieces q hq).2.mpr (hfits q hq)

/-- The formatter does what the standard prescribes exactly for the formats
that end outside a conversion and have fields that fit. -/
theorem vsnprintf_agrees_iff (fmt : Bytes) (args : List VaArg) (hnul : 0 ∉ fmt)
    (hargs : Matches fmt args) : AgreesWithC fmt args ↔ FormatFits fmt args := by
  have hinside := vsnprintf_inside_iff hnul hargs
  have hspelled : ∀ ps, (∀ p ∈ ps, Listed p) → fmt = spell ps → pieces fmt = ps := by
    rintro ps hlisted rfl
    exact congrArg Prod.fst (scan_spell fun p hp ↦ (hlisted p hp).spelled)
  constructor
  · intro h
    have hfinished := hinside.mp h.inside
    refine ⟨hfinished, fun ps hlisted hps hnull ↦ ?_⟩
    have hpieces := hspelled ps hlisted hps
    have htext := (produces_iff hnul hargs hfinished _).mp (h.standard ps hlisted hps hnull)
    rw [fullText, hpieces] at htext
    rw [Matches, hpieces] at hargs
    exact (fullText_eq_iff hlisted hargs hnull).mp htext
  · intro h
    refine ⟨hinside.mpr h.finished, fun ps hlisted hps hnull ↦ ?_⟩
    have hpieces := hspelled ps hlisted hps
    rw [produces_iff hnul hargs h.finished, fullText, hpieces]
    rw [Matches, hpieces] at hargs
    exact (fullText_eq_iff hlisted hargs hnull).mpr (h.numbers ps hlisted hps hnull)

/-- `%u%%` for 7. -/
theorem vsnprintf_agrees_iff_percent :
    AgreesWithC [37, 117, 37, 37] [.word 7] ↔ FormatFits [37, 117, 37, 37] [.word 7] :=
  vsnprintf_agrees_iff [37, 117, 37, 37] [.word 7] (by decide) (by decide)

/-- A lone `%`, and `%5d` for -42, which comes out with its sign before the
spaces. -/
theorem formats_against_standard :
    Matches [37] [] ∧ ¬AgreesWithC [37] [] ∧
      Matches [37, 53, 100] [.word (-42)] ∧ ¬AgreesWithC [37, 53, 100] [.word (-42)] := by
  refine ⟨by decide, fun h ↦ h.inside 0 (fun _ ↦ 0) rfl, by decide, fun h ↦ ?_⟩
  have hlisted : ∀ p ∈ [Piece.conversion false 5 false 100], Listed p := by
    simp [Listed]
  have hproduces := h.standard _ hlisted (by decide) (by decide)
  have htext := hproduces Bytes (fun text c ↦ text ++ [c]) []
  revert htext
  decide

end Wallpiper.Loader
