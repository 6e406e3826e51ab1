import Mathlib.Data.Nat.Digits.Lemmas
import Mathlib.Data.List.DropRight

/-!
# Numbers and fields in C text

Byte strings as the C library prints and reads them: `%u`, `%d` and `%x`
conversions, `strtoul` and `strtol` with their blanks, signs, prefixes and
clamping, and the splitting of a line into fields.  The main facts say that
a printed number is read back and that fields joined by a separator are
split again.
-/

namespace Foundations.CText

abbrev Bytes := List UInt8

def bytesOf (s : String) : Bytes := s.toList.map fun c ↦ c.toNat.toUInt8

/-! ## Printing -/

/-- The digits `0..9a..z`. -/
def digitByte (d : ℕ) : UInt8 := if d < 10 then (48 + d).toUInt8 else (87 + d).toUInt8

/-- A natural number in base `b`, most significant digit first. -/
def numeral (b n : ℕ) : Bytes :=
  if n = 0 then [48] else ((Nat.digits b n).map digitByte).reverse

/-- `%u`, `%lu` and `%llu`. -/
def decimal (n : ℕ) : Bytes := numeral 10 n

/-- `%x` and `%lx`. -/
def hexLower (n : ℕ) : Bytes := numeral 16 n

/-- `%d`. -/
def decimalInt (z : ℤ) : Bytes :=
  if z < 0 then 45 :: decimal z.natAbs else decimal z.natAbs

/-! ## Reading -/

/-- `isspace` in the C locale. -/
def isSpace (c : UInt8) : Bool := c == 32 || (9 ≤ c && c ≤ 13)

/-- The value of a digit or letter, when it is below the base. -/
def digitValue (b : ℕ) (c : UInt8) : Option ℕ :=
  let v := if 48 ≤ c ∧ c ≤ 57 then c.toNat - 48
    else if 97 ≤ c ∧ c ≤ 122 then c.toNat - 87
    else if 65 ≤ c ∧ c ≤ 90 then c.toNat - 55
    else b
  if v < b then some v else none

/-- The values of the longest prefix of digits. -/
def scanDigits (b : ℕ) : Bytes → List ℕ
  | [] => []
  | c :: cs =>
      match digitValue b c with
      | some d => d :: scanDigits b cs
      | none => []

def digitsValue (b : ℕ) (ds : List ℕ) : ℕ := ds.foldl (fun n d ↦ n * b + d) 0

/-- An optional sign. -/
def scanSign : Bytes → Bool × Bytes
  | 45 :: cs => (true, cs)
  | 43 :: cs => (false, cs)
  | cs => (false, cs)

/-- The optional `0x` of base 16, which counts only before a digit. -/
def skipHexPrefix (b : ℕ) : Bytes → Bytes
  | 48 :: x :: c :: cs =>
      if b = 16 ∧ (x = 120 ∨ x = 88) ∧ (digitValue 16 c).isSome then c :: cs
      else 48 :: x :: c :: cs
  | cs => cs

/-- Sign and magnitude of the number at the head of a string, or `none` when
no conversion is performed. -/
def scanNumber (b : ℕ) (s : Bytes) : Option (Bool × ℕ) :=
  let signed := scanSign (s.dropWhile isSpace)
  let digits := scanDigits b (skipHexPrefix b signed.2)
  if digits = [] then none else some (signed.1, digitsValue b digits)

/-- `strtoul` and `strtoull`, with 64-bit results. -/
def strtoul (b : ℕ) (s : Bytes) : ℕ :=
  match scanNumber b s with
  | none => 0
  | some (neg, m) =>
      if 2 ^ 64 ≤ m then 2 ^ 64 - 1
      else if neg then (2 ^ 64 - m) % 2 ^ 64 else m

/-- `strtol`, with a 64-bit result. -/
def strtol (b : ℕ) (s : Bytes) : ℤ :=
  match scanNumber b s with
  | none => 0
  | some (neg, m) =>
      if neg then max (-(m : ℤ)) (-2 ^ 63) else min (m : ℤ) (2 ^ 63 - 1)

/-! ## Printed numbers are read back -/

theorem digitValue_digitByte {b d : ℕ} (hb : b ≤ 36) (hd : d < b) :
    digitValue b (digitByte d) = some d := by
  have key : ∀ d : Fin 36, ∀ b : Fin 37, d.1 < b.1 →
      digitValue b.1 (digitByte d.1) = some d.1 := by decide
  exact key ⟨d, by omega⟩ ⟨b, by omega⟩ hd

theorem isSpace_digitByte {d : ℕ} (hd : d < 36) : isSpace (digitByte d) = false := by
  have key : ∀ d : Fin 36, isSpace (digitByte d.1) = false := by decide
  exact key ⟨d, hd⟩

theorem digitByte_ne_sign {d : ℕ} (hd : d < 36) :
    digitByte d ≠ 45 ∧ digitByte d ≠ 43 := by
  have key : ∀ d : Fin 36, digitByte d.1 ≠ 45 ∧ digitByte d.1 ≠ 43 := by decide
  exact key ⟨d, hd⟩

/-- The digits of a printed number, most significant first. -/
def numeralDigits (b n : ℕ) : List ℕ := if n = 0 then [0] else (Nat.digits b n).reverse

theorem numeral_eq_map (b n : ℕ) : numeral b n = (numeralDigits b n).map digitByte := by
  by_cases hn : n = 0
  · simp only [numeral, numeralDigits, if_pos hn, List.map_cons, List.map_nil]
    decide
  · simp only [numeral, numeralDigits, if_neg hn, List.map_reverse]

theorem numeralDigits_ne_nil {b n : ℕ} : numeralDigits b n ≠ [] := by
  unfold numeralDigits
  split
  · simp
  · have h := Nat.digits_ne_nil_iff_ne_zero (b := b).mpr ‹¬n = 0›
    simpa using h

theorem lt_of_mem_numeralDigits {b n d : ℕ} (hb : 1 < b) (hd : d ∈ numeralDigits b n) :
    d < b := by
  unfold numeralDigits at hd
  split at hd
  · have heq : d = 0 := by simpa using hd
    omega
  · exact Nat.digits_lt_base hb (List.mem_reverse.mp hd)

theorem digitsValue_numeralDigits (b n : ℕ) : digitsValue b (numeralDigits b n) = n := by
  unfold numeralDigits
  split
  · rename_i hn
    simp [digitsValue, hn]
  · have h := Nat.ofDigits_digits b n
    rw [Nat.ofDigits_eq_foldr] at h
    rw [digitsValue, List.foldl_reverse]
    calc
      (Nat.digits b n).foldr (fun d n ↦ n * b + d) 0 =
          (Nat.digits b n).foldr (fun d n ↦ d + b * n) 0 := by
        congr
        funext d m
        ring
      _ = n := h

/-- Scanning stops at the first byte that is not a digit. -/
theorem scanDigits_map_append {b : ℕ} (hb : b ≤ 36) {ds : List ℕ}
    (hds : ∀ d ∈ ds, d < b) {rest : Bytes} (hrest : scanDigits b rest = []) :
    scanDigits b (ds.map digitByte ++ rest) = ds := by
  induction ds with
  | nil => simpa using hrest
  | cons d ds ih =>
      have hd := digitValue_digitByte hb (hds d (List.mem_cons_self))
      have htail := ih fun e he ↦ hds e (List.mem_cons_of_mem d he)
      simp only [List.map_cons, List.cons_append, scanDigits, hd, htail]

theorem scanDigits_numeral {b : ℕ} (hb₁ : 1 < b) (hb : b ≤ 36) (n : ℕ) :
    scanDigits b (numeral b n) = numeralDigits b n := by
  have h : scanDigits b ((numeralDigits b n).map digitByte ++ []) = numeralDigits b n :=
    scanDigits_map_append hb (fun d hd ↦ lt_of_mem_numeralDigits hb₁ hd) rfl
  rw [numeral_eq_map]
  simpa using h

/-- A numeral starts with a digit, so neither blanks nor a sign are skipped. -/
theorem numeral_head {b : ℕ} (hb₁ : 1 < b) (n : ℕ) :
    ∃ d, d < b ∧ ∃ tail, numeral b n = digitByte d :: tail := by
  rw [numeral_eq_map]
  cases hds : numeralDigits b n with
  | nil => exact absurd hds numeralDigits_ne_nil
  | cons d ds =>
      have hd : d < b := lt_of_mem_numeralDigits hb₁ (by rw [hds]; simp)
      exact ⟨d, hd, ds.map digitByte, rfl⟩

theorem scanSign_of_digit {d : ℕ} (hd : d < 36) (tail : Bytes) :
    scanSign (digitByte d :: tail) = (false, digitByte d :: tail) := by
  obtain ⟨hminus, hplus⟩ := digitByte_ne_sign hd
  unfold scanSign
  split
  · rename_i heq
    exact absurd (List.cons.inj heq).1 hminus
  · rename_i heq
    exact absurd (List.cons.inj heq).1 hplus
  · rfl

/-- A numeral holds no `x`, so the base 16 prefix is never taken inside it. -/
theorem digitByte_ne_x {d : ℕ} (hd : d < 16) : digitByte d ≠ 120 ∧ digitByte d ≠ 88 := by
  have key : ∀ d : Fin 16, digitByte d.1 ≠ 120 ∧ digitByte d.1 ≠ 88 := by decide
  exact key ⟨d, hd⟩

theorem skipHexPrefix_digits {b : ℕ} (hb : b ≤ 16) {ds : List ℕ} (hds : ∀ d ∈ ds, d < b) :
    skipHexPrefix b (ds.map digitByte) = ds.map digitByte := by
  match ds, hds with
  | [], _ => rfl
  | [d], _ => simp only [List.map_cons, List.map_nil]; unfold skipHexPrefix; split <;> simp_all
  | [d, e], _ =>
      simp only [List.map_cons, List.map_nil]; unfold skipHexPrefix; split <;> simp_all
  | d :: e :: f :: ds, hds =>
      have he : e < b := hds e (by simp)
      obtain ⟨hx, hX⟩ := digitByte_ne_x (show e < 16 by omega)
      simp only [List.map_cons]
      unfold skipHexPrefix
      split
      · rename_i heq
        obtain ⟨h₀, hrest⟩ := List.cons.inj heq
        have hx' := (List.cons.inj hrest).1
        rw [if_neg (by simp [← hx', hx, hX]), ← heq]
      · rfl

theorem dropWhile_isSpace_numeral {b : ℕ} (hb₁ : 1 < b) (hb : b ≤ 36) (n : ℕ) :
    (numeral b n).dropWhile isSpace = numeral b n := by
  obtain ⟨d, hd, tail, htail⟩ := numeral_head hb₁ n
  rw [htail, List.dropWhile_cons_of_neg]
  simp [isSpace_digitByte (show d < 36 by omega)]

theorem scanNumber_numeral {b : ℕ} (hb₁ : 1 < b) (hb : b ≤ 16) (n : ℕ) :
    scanNumber b (numeral b n) = some (false, n) := by
  obtain ⟨d, hd, tail, htail⟩ := numeral_head hb₁ n
  have hsign : scanSign (numeral b n) = (false, numeral b n) := by
    rw [htail]
    exact scanSign_of_digit (by omega) tail
  have hskip : skipHexPrefix b (numeral b n) = numeral b n := by
    rw [numeral_eq_map]
    exact skipHexPrefix_digits hb fun d hd ↦ lt_of_mem_numeralDigits hb₁ hd
  unfold scanNumber
  simp only [dropWhile_isSpace_numeral hb₁ (show b ≤ 36 by omega), hsign, hskip,
    scanDigits_numeral hb₁ (show b ≤ 36 by omega), digitsValue_numeralDigits,
    if_neg numeralDigits_ne_nil]

theorem strtoul_decimal {n : ℕ} (hn : n < 2 ^ 64) : strtoul 10 (decimal n) = n := by
  have h := scanNumber_numeral (b := 10) (by omega) (by omega) n
  rw [strtoul, decimal, h]
  simp only [Bool.false_eq_true, if_false]
  rw [if_neg (by omega)]

theorem strtoul_hexLower {n : ℕ} (hn : n < 2 ^ 64) : strtoul 16 (hexLower n) = n := by
  have h := scanNumber_numeral (b := 16) (by omega) (by omega) n
  rw [strtoul, hexLower, h]
  simp only [Bool.false_eq_true, if_false]
  rw [if_neg (by omega)]

theorem scanNumber_decimalInt (z : ℤ) :
    scanNumber 10 (decimalInt z) = some (decide (z < 0), z.natAbs) := by
  have hnum := scanNumber_numeral (b := 10) (by omega) (by omega) z.natAbs
  by_cases hz : z < 0
  · have hsign : scanSign ((decimalInt z).dropWhile isSpace) = (true, decimal z.natAbs) := by
      rw [decimalInt, if_pos hz]
      rfl
    have hskip : skipHexPrefix 10 (decimal z.natAbs) = decimal z.natAbs := by
      rw [decimal, numeral_eq_map]
      exact skipHexPrefix_digits (by omega)
        fun d hd ↦ lt_of_mem_numeralDigits (by omega) hd
    have hdigits : scanDigits 10 (decimal z.natAbs) = numeralDigits 10 z.natAbs :=
      scanDigits_numeral (by omega) (by omega) _
    unfold scanNumber
    simp only [hsign, hskip, hdigits, digitsValue_numeralDigits, if_neg numeralDigits_ne_nil]
    simp [hz]
  · rw [decimalInt, if_neg hz, decimal, hnum]
    simp [hz]

theorem scanSign_decimalInt_append (z : ℤ) (rest : Bytes) :
    scanSign ((decimalInt z ++ rest).dropWhile isSpace) =
      (decide (z < 0), decimal z.natAbs ++ rest) := by
  by_cases hz : z < 0
  · rw [decimalInt, if_pos hz, decide_eq_true hz]
    rfl
  · obtain ⟨d, hd, tail, htail⟩ := @numeral_head 10 (by omega) z.natAbs
    have hspace : isSpace (digitByte d) = false := isSpace_digitByte (by omega)
    rw [decimalInt, if_neg hz, decide_eq_false hz, decimal, htail, List.cons_append,
      List.dropWhile_cons_of_neg (by simp [hspace]), scanSign_of_digit (by omega)]

theorem dropWhile_isSpace_decimalInt (z : ℤ) : (decimalInt z).dropWhile isSpace = decimalInt z := by
  by_cases hz : z < 0
  · rw [decimalInt, if_pos hz]
    rfl
  · rw [decimalInt, if_neg hz]
    exact dropWhile_isSpace_numeral (by omega) (by omega) _

/-- There is no prefix in base 10. -/
theorem skipHexPrefix_ten (s : Bytes) : skipHexPrefix 10 s = s := by
  unfold skipHexPrefix
  split
  · rw [if_neg (by simp)]
  · rfl

theorem strtol_decimalInt {z : ℤ} (hlow : -2 ^ 63 ≤ z) (hhigh : z < 2 ^ 63) :
    strtol 10 (decimalInt z) = z := by
  rw [strtol, scanNumber_decimalInt]
  by_cases hz : z < 0
  · simp only [hz, decide_true, if_true]
    omega
  · simp only [hz, decide_false, Bool.false_eq_true, if_false]
    omega

/-! ## Lengths and contents of printed numbers -/

theorem numeral_length_le {b k n : ℕ} (hb : 1 < b) (hk : 0 < k) (hn : n < b ^ k) :
    (numeral b n).length ≤ k := by
  unfold numeral
  split
  · exact hk
  · rw [List.length_reverse, List.length_map]
    exact (Nat.digits_length_le_iff hb n).mpr hn

theorem int32_bounds (z : Int32) : -2 ^ 31 ≤ z.toInt ∧ z.toInt < 2 ^ 31 :=
  ⟨z.le_toInt, z.toInt_lt⟩

theorem decimal_u32_length_le (n : UInt32) : (decimal n.toNat).length ≤ 10 :=
  numeral_length_le (by omega) (by omega) (n.toNat_lt.trans (by omega))

theorem decimal_u64_length_le (n : UInt64) : (decimal n.toNat).length ≤ 20 :=
  numeral_length_le (by omega) (by omega) (n.toNat_lt.trans (by omega))

theorem decimalInt_i32_length_le (z : Int32) : (decimalInt z.toInt).length ≤ 11 := by
  obtain ⟨hlow, hhigh⟩ := int32_bounds z
  have hnum : (decimal z.toInt.natAbs).length ≤ 10 :=
    numeral_length_le (by omega) (by omega) (by omega)
  unfold decimalInt
  split
  · rw [List.length_cons]
    omega
  · omega

theorem numeral_ne_nil (b n : ℕ) : numeral b n ≠ [] := by
  rw [numeral_eq_map]
  simpa using numeralDigits_ne_nil

theorem decimalInt_ne_nil (z : ℤ) : decimalInt z ≠ [] := by
  unfold decimalInt
  split
  · simp
  · exact numeral_ne_nil _ _

/-- Bytes that occur in printed numbers: digits, letters and the minus sign. -/
def isNumeralByte (c : UInt8) : Bool :=
  c == 45 || (48 ≤ c && c ≤ 57) || (97 ≤ c && c ≤ 122)

theorem isNumeralByte_of_mem_numeral {b n : ℕ} {c : UInt8} (hb₁ : 1 < b) (hb : b ≤ 36)
    (hc : c ∈ numeral b n) : isNumeralByte c = true := by
  have key : ∀ d : Fin 36, isNumeralByte (digitByte d.1) = true := by decide
  rw [numeral_eq_map] at hc
  obtain ⟨d, hd, rfl⟩ := List.mem_map.mp hc
  exact key ⟨d, (lt_of_mem_numeralDigits hb₁ hd).trans_le hb⟩

theorem isNumeralByte_of_mem_decimalInt {z : ℤ} {c : UInt8} (hc : c ∈ decimalInt z) :
    isNumeralByte c = true := by
  unfold decimalInt at hc
  split at hc
  · rcases List.mem_cons.mp hc with rfl | hc
    · decide
    · exact isNumeralByte_of_mem_numeral (by omega) (by omega) hc
  · exact isNumeralByte_of_mem_numeral (by omega) (by omega) hc

/-! ## Fields -/

/-- The nonempty fields between delimiters, as successive `strtok_r` calls or
`operator>>` on a string stream return them. -/
def tokens (delim : UInt8 → Bool) (s : Bytes) : List Bytes :=
  (s.splitOnP delim).filter fun field ↦ !field.isEmpty

/-- Fields joined by one separator are the fields split at delimiters. -/
theorem splitOnP_intercalate {delim : UInt8 → Bool} {sep : UInt8} (hsep : delim sep = true)
    {fields : List Bytes} (hne : fields ≠ [])
    (hfields : ∀ f ∈ fields, ∀ c ∈ f, delim c = false) :
    ([sep].intercalate fields).splitOnP delim = fields := by
  induction fields with
  | nil => exact absurd rfl hne
  | cons f fs ih =>
      have hf : ∀ c ∈ f, delim c = false := hfields f (List.mem_cons_self)
      cases fs with
      | nil =>
          rw [show [sep].intercalate [f] = f by simp [List.intercalate]]
          exact List.splitOnP_eq_singleton hf
      | cons g gs =>
          have htail := ih (by simp) fun h hh ↦ hfields h (List.mem_cons_of_mem f hh)
          have hjoin : [sep].intercalate (f :: g :: gs) =
              f ++ sep :: [sep].intercalate (g :: gs) := by
            simp [List.intercalate]
          rw [hjoin, List.splitOnP_append_cons_of_forall_mem hf sep hsep, htail]

theorem tokens_intercalate {delim : UInt8 → Bool} {sep : UInt8} (hsep : delim sep = true)
    {fields : List Bytes} (hne : fields ≠ []) (hnil : ∀ f ∈ fields, f ≠ [])
    (hfields : ∀ f ∈ fields, ∀ c ∈ f, delim c = false) :
    tokens delim ([sep].intercalate fields) = fields := by
  rw [tokens, splitOnP_intercalate hsep hne hfields, List.filter_eq_self]
  intro f hf
  simpa using hnil f hf

theorem not_delim_of_mem_splitOnP {delim : UInt8 → Bool} {s field : Bytes}
    (h : field ∈ s.splitOnP delim) : ∀ c ∈ field, delim c = false := by
  induction s generalizing field with
  | nil =>
      obtain rfl : field = [] := by simpa using h
      simp
  | cons b s ih =>
      rw [List.splitOnP_cons_eq_if_modifyHead] at h
      split at h
      · rcases List.mem_cons.mp h with rfl | h
        · simp
        · exact ih h
      · rename_i hb
        cases hs : s.splitOnP delim with
        | nil => exact absurd hs (List.splitOnP_ne_nil delim s)
        | cons g gs =>
            rw [hs, List.modifyHead_cons] at h
            rw [hs] at ih
            rcases List.mem_cons.mp h with rfl | h
            · exact List.forall_mem_cons.mpr
                ⟨Bool.eq_false_iff.mpr hb, ih List.mem_cons_self⟩
            · exact ih (List.mem_cons_of_mem g h)

/-- Fields hold no delimiter. -/
theorem not_delim_of_mem_tokens {delim : UInt8 → Bool} {s field : Bytes}
    (h : field ∈ tokens delim s) : ∀ c ∈ field, delim c = false :=
  not_delim_of_mem_splitOnP (List.mem_filter.mp h).1

theorem mem_of_mem_splitOnP {delim : UInt8 → Bool} {s field : Bytes}
    (h : field ∈ s.splitOnP delim) : ∀ c ∈ field, c ∈ s := by
  induction s generalizing field with
  | nil =>
      obtain rfl : field = [] := by simpa using h
      simp
  | cons b s ih =>
      rw [List.splitOnP_cons_eq_if_modifyHead] at h
      split at h
      · rcases List.mem_cons.mp h with rfl | h
        · simp
        · exact fun c hc ↦ List.mem_cons_of_mem b (ih h c hc)
      · cases hs : s.splitOnP delim with
        | nil => exact absurd hs (List.splitOnP_ne_nil delim s)
        | cons g gs =>
            rw [hs, List.modifyHead_cons] at h
            rw [hs] at ih
            rcases List.mem_cons.mp h with rfl | h
            · intro c hc
              rcases List.mem_cons.mp hc with rfl | hc
              · exact List.mem_cons_self
              · exact List.mem_cons_of_mem b (ih List.mem_cons_self c hc)
            · exact fun c hc ↦ List.mem_cons_of_mem b (ih (List.mem_cons_of_mem g h) c hc)

theorem mem_of_mem_tokens {delim : UInt8 → Bool} {s field : Bytes} {c : UInt8}
    (h : field ∈ tokens delim s) (hc : c ∈ field) : c ∈ s :=
  mem_of_mem_splitOnP (List.mem_filter.mp h).1 c hc

/-! Fields one after the other. -/

@[simp] theorem tokens_nil (delim : UInt8 → Bool) : tokens delim [] = [] := rfl

theorem tokens_cons_of_delim {delim : UInt8 → Bool} {c : UInt8} (hc : delim c = true)
    (s : Bytes) : tokens delim (c :: s) = tokens delim s := by
  have hsplit : (c :: s).splitOnP delim = [] :: s.splitOnP delim :=
    List.splitOnP_append_cons_of_forall_mem (List.forall_mem_nil _) c hc s
  rw [tokens, hsplit]
  rfl

theorem tokens_append_of_delim {delim : UInt8 → Bool} {blanks : Bytes}
    (h : ∀ c ∈ blanks, delim c = true) (s : Bytes) :
    tokens delim (blanks ++ s) = tokens delim s := by
  induction blanks with
  | nil => rfl
  | cons c blanks ih =>
      rw [List.cons_append, tokens_cons_of_delim (h c List.mem_cons_self),
        ih fun d hd ↦ h d (List.mem_cons_of_mem c hd)]

theorem tokens_eq_nil {delim : UInt8 → Bool} {blanks : Bytes}
    (h : ∀ c ∈ blanks, delim c = true) : tokens delim blanks = [] := by
  have hblank := tokens_append_of_delim h []
  rwa [List.append_nil] at hblank

theorem tokens_eq_singleton {delim : UInt8 → Bool} {field : Bytes} (hne : field ≠ [])
    (h : ∀ c ∈ field, delim c = false) : tokens delim field = [field] := by
  rw [tokens, List.splitOnP_eq_singleton h]
  exact List.filter_cons_of_pos (by simpa using hne)

theorem tokens_append_cons {delim : UInt8 → Bool} {field : Bytes} (hne : field ≠ [])
    (h : ∀ c ∈ field, delim c = false) {c : UInt8} (hc : delim c = true) (s : Bytes) :
    tokens delim (field ++ c :: s) = field :: tokens delim s := by
  rw [tokens, List.splitOnP_append_cons_of_forall_mem h c hc s]
  exact List.filter_cons_of_pos (by simpa using hne)

theorem intercalate_concat {α : Type*} (sep : List α) {fields : List (List α)}
    (hne : fields ≠ []) (field : List α) :
    sep.intercalate (fields ++ [field]) = sep.intercalate fields ++ sep ++ field := by
  induction fields with
  | nil => exact absurd rfl hne
  | cons f fs ih =>
      cases fs with
      | nil => simp [List.intercalate]
      | cons g gs =>
          rw [List.cons_append, List.cons_append, List.intercalate_cons_cons,
            ← List.cons_append, ih (List.cons_ne_nil g gs), List.intercalate_cons_cons]
          simp only [List.append_assoc]

/-- The text before and after the first occurrence of a byte, as `memchr`
and `strchr` locate it. -/
def cutAt (c : UInt8) : Bytes → Option (Bytes × Bytes)
  | [] => none
  | b :: bs => if b = c then some ([], bs) else (cutAt c bs).map fun p ↦ (b :: p.1, p.2)

theorem cutAt_append_cons {c : UInt8} {pre : Bytes} (hpre : ∀ b ∈ pre, b ≠ c) (post : Bytes) :
    cutAt c (pre ++ c :: post) = some (pre, post) := by
  induction pre with
  | nil => simp [cutAt]
  | cons b bs ih =>
      have hb : b ≠ c := hpre b (List.mem_cons_self)
      have hbs := ih fun x hx ↦ hpre x (List.mem_cons_of_mem b hx)
      simp [cutAt, hb, hbs]

theorem cutAt_eq_some {c : UInt8} {s pre post : Bytes} (h : cutAt c s = some (pre, post)) :
    s = pre ++ c :: post ∧ c ∉ pre := by
  induction s generalizing pre with
  | nil => exact absurd h (by simp [cutAt])
  | cons b s ih =>
      rw [cutAt] at h
      split at h
      · rename_i hb
        obtain ⟨rfl, rfl⟩ := Prod.mk.inj (Option.some.inj h)
        exact ⟨by rw [hb, List.nil_append], List.not_mem_nil⟩
      · rename_i hb
        obtain ⟨⟨pre', post'⟩, hcut, heq⟩ := Option.map_eq_some_iff.mp h
        obtain ⟨rfl, rfl⟩ := Prod.mk.inj heq
        obtain ⟨hs, hnot⟩ := ih hcut
        refine ⟨by rw [hs, List.cons_append], ?_⟩
        rintro (_ | ⟨_, hmem⟩)
        · exact hb rfl
        · exact hnot hmem

/-- What does not hold a byte does not reach beyond it. -/
theorem prefix_of_prefix_append_cons {word front back : Bytes} {c : UInt8} (hc : c ∉ word)
    (h : word <+: front ++ c :: back) : word <+: front := by
  have hfront : front ++ [c] <+: front ++ c :: back := ⟨back, by simp⟩
  rcases List.prefix_or_prefix_of_prefix h hfront with hword | hword
  · rcases List.prefix_concat_iff.mp hword with rfl | hword
    · exact absurd (List.mem_append_right front List.mem_cons_self) hc
    · exact hword
  · exact absurd (hword.subset (List.mem_append_right front List.mem_cons_self)) hc

/-- The string in a buffer, up to its first NUL. -/
def cString (buf : Bytes) : Bytes := buf.takeWhile (· ≠ 0)

theorem cString_of_nonul {buf : Bytes} (h : ∀ b ∈ buf, b ≠ 0) : cString buf = buf := by
  rw [cString, List.takeWhile_eq_self_iff]
  intro b hb
  simpa using h b hb

/-- Lines that each end in a newline are split at the newlines. -/
theorem splitOn_lines {lines : List Bytes} (hlines : ∀ l ∈ lines, ∀ b ∈ l, b ≠ 10) :
    ((lines.map fun l ↦ l ++ [10]).flatten).splitOnP (· == 10) = lines ++ [[]] := by
  have hjoin : (lines.map fun l ↦ l ++ [10]).flatten =
      [(10 : UInt8)].intercalate (lines ++ [[]]) := by
    induction lines with
    | nil => rfl
    | cons l ls ih =>
        have hls := ih fun x hx ↦ hlines x (List.mem_cons_of_mem l hx)
        rw [List.map_cons, List.flatten_cons, hls]
        cases ls with
        | nil => simp [List.intercalate]
        | cons m ms => simp [List.intercalate]
  rw [hjoin]
  apply splitOnP_intercalate (by decide) (by simp)
  intro l hl b hb
  rcases List.mem_append.mp hl with hl | hl
  · simpa using hlines l hl b hb
  · obtain rfl : l = [] := by simpa using hl
    exact absurd hb List.not_mem_nil

end Foundations.CText
