import Wallpiper.Foundations.CText

/-!
# Format strings

The grammar of a format that has literal characters and conversions with a zero
flag, a width and a `z`.  A scanner that takes one character at a time cuts a
format into its pieces, and a format that is spelled from pieces is cut into
them again.  A format may end inside a conversion; it is unfinished then.
-/

namespace Foundations.FormatStrings

open CText

inductive Piece where
  | literal (c : UInt8)
  | conversion (zero : Bool) (width : ℕ) (size : Bool) (c : UInt8)
  deriving DecidableEq, Repr

/-- What of a conversion has been read. -/
inductive Scan where
  | text
  | flag (zero : Bool)
  | digits (zero : Bool) (n : ℕ)
  | sized (zero : Bool) (n : ℕ)
  deriving DecidableEq, Repr

abbrev IsDigit (c : UInt8) : Prop := 48 ≤ c ∧ c ≤ 57

/-- A character of the width or behind it. -/
def Scan.directive (zero : Bool) (width : ℕ) (c : UInt8) : Scan × List Piece :=
  if IsDigit c then (.digits zero (width * 10 + (c.toNat - 48)), [])
  else if c = 122 then (.sized zero width, [])
  else (.text, [.conversion zero width false c])

def Scan.step : Scan → UInt8 → Scan × List Piece
  | .text, c => if c = 37 then (.flag false, []) else (.text, [.literal c])
  | .flag zero, c => if c = 48 then (.flag true, []) else Scan.directive zero 0 c
  | .digits zero width, c => Scan.directive zero width c
  | .sized zero width, c => (.text, [.conversion zero width true c])

/-- The pieces, and whether the text ends inside a conversion. -/
def scan : Scan → Bytes → List Piece × Bool
  | m, [] => ([], m ≠ .text)
  | m, c :: cs => ((m.step c).2 ++ (scan (m.step c).1 cs).1, (scan (m.step c).1 cs).2)

def pieces (fmt : Bytes) : List Piece := (scan .text fmt).1

def Unfinished (fmt : Bytes) : Prop := (scan .text fmt).2 = true

instance (fmt : Bytes) : Decidable (Unfinished fmt) := inferInstanceAs (Decidable (_ = _))

/-! ## Scanning -/

theorem scan_literal {c : UInt8} (hc : c ≠ 37) (cs : Bytes) :
    scan .text (c :: cs) = (.literal c :: (scan .text cs).1, (scan .text cs).2) := by
  have hstep : Scan.text.step c = (.text, [.literal c]) := if_neg hc
  rw [scan, hstep, List.singleton_append]

theorem scan_percent (cs : Bytes) : scan .text (37 :: cs) = scan (.flag false) cs := by
  have hstep : Scan.text.step 37 = (.flag false, []) := rfl
  rw [scan, hstep, List.nil_append]

theorem scan_flag_zero (zero : Bool) (cs : Bytes) :
    scan (.flag zero) (48 :: cs) = scan (.flag true) cs := by
  have hstep : (Scan.flag zero).step 48 = (.flag true, []) := rfl
  rw [scan, hstep, List.nil_append]

/-- The width begins with the first character that is no zero. -/
theorem scan_flag (zero : Bool) {cs : Bytes} (h : ∀ c ∈ cs.head?, c ≠ 48) :
    scan (.flag zero) cs = scan (.digits zero 0) cs := by
  cases cs with
  | nil => rfl
  | cons c cs =>
      have hstep : (Scan.flag zero).step c = (Scan.digits zero 0).step c := if_neg (h c rfl)
      rw [scan, scan, hstep]

theorem scan_width_digit (zero : Bool) (width : ℕ) {c : UInt8} (hc : IsDigit c) (cs : Bytes) :
    scan (.digits zero width) (c :: cs) =
      scan (.digits zero (width * 10 + (c.toNat - 48))) cs := by
  have hstep : (Scan.digits zero width).step c =
      (.digits zero (width * 10 + (c.toNat - 48)), []) := if_pos hc
  rw [scan, hstep, List.nil_append]

theorem scan_width_size (zero : Bool) (width : ℕ) (cs : Bytes) :
    scan (.digits zero width) (122 :: cs) = scan (.sized zero width) cs := by
  have hstep : (Scan.digits zero width).step 122 = (.sized zero width, []) := by
    have hdigit : ¬IsDigit 122 := by decide
    simp only [Scan.step, Scan.directive, if_neg hdigit, if_true]
  rw [scan, hstep, List.nil_append]

theorem scan_width_conversion (zero : Bool) (width : ℕ) {c : UInt8} (hdigit : ¬IsDigit c)
    (hsize : c ≠ 122) (cs : Bytes) :
    scan (.digits zero width) (c :: cs) =
      (.conversion zero width false c :: (scan .text cs).1, (scan .text cs).2) := by
  have hstep : (Scan.digits zero width).step c =
      (.text, [.conversion zero width false c]) := by
    simp only [Scan.step, Scan.directive, if_neg hdigit, if_neg hsize]
  rw [scan, hstep, List.singleton_append]

theorem scan_size_conversion (zero : Bool) (width : ℕ) (c : UInt8) (cs : Bytes) :
    scan (.sized zero width) (c :: cs) =
      (.conversion zero width true c :: (scan .text cs).1, (scan .text cs).2) := by
  rw [scan, Scan.step, List.singleton_append]

/-! ## Spelling -/

def Piece.spell : Piece → Bytes
  | .literal c => [c]
  | .conversion zero width size c =>
      37 :: ((if zero then [48] else []) ++ (if width = 0 then [] else decimal width) ++
        (if size then [122] else []) ++ [c])

def spell (ps : List Piece) : Bytes := ps.flatMap Piece.spell

/-- The last character of a spelled piece is not read as part of what stands
before it. -/
def Piece.Spelled : Piece → Prop
  | .literal c => c ≠ 37
  | .conversion _ _ size c => size = true ∨ ¬IsDigit c ∧ c ≠ 122

theorem isDigit_digitByte {d : ℕ} (hd : d < 10) :
    IsDigit (digitByte d) ∧ (digitByte d).toNat - 48 = d := by
  have key : ∀ d : Fin 10, IsDigit (digitByte d.1) ∧ (digitByte d.1).toNat - 48 = d.1 := by
    decide
  exact key ⟨d, hd⟩

theorem digitByte_ne_zero {d : ℕ} (hd : d < 36) (h : d ≠ 0) : digitByte d ≠ 48 := by
  have key : ∀ d : Fin 36, d.1 ≠ 0 → digitByte d.1 ≠ 48 := by decide
  exact key ⟨d, hd⟩ h

/-- A number that is not zero has no leading zero. -/
theorem numeral_head_ne_zero {b n : ℕ} (hb₁ : 1 < b) (hb : b ≤ 36) (hn : n ≠ 0) :
    ∃ c cs, numeral b n = c :: cs ∧ c ≠ 48 := by
  have hne : Nat.digits b n ≠ [] := Nat.digits_ne_nil_iff_ne_zero.mpr hn
  have hlast := Nat.getLast_digit_ne_zero b hn
  have hlt : (Nat.digits b n).getLast hne < 36 :=
    (Nat.digits_lt_base hb₁ (List.getLast_mem hne)).trans_le hb
  refine ⟨digitByte ((Nat.digits b n).getLast hne),
    ((Nat.digits b n).dropLast.map digitByte).reverse, ?_, digitByte_ne_zero hlt hlast⟩
  have hsplit := List.dropLast_append_getLast hne
  rw [numeral, if_neg hn]
  calc
    ((Nat.digits b n).map digitByte).reverse =
        (((Nat.digits b n).dropLast ++ [(Nat.digits b n).getLast hne]).map digitByte).reverse := by
      rw [hsplit]
    _ = _ := by
      rw [List.map_append, List.reverse_append, List.map_singleton, List.reverse_singleton,
        List.singleton_append]

theorem scan_width_digits (zero : Bool) {ds : List ℕ} (hds : ∀ d ∈ ds, d < 10) (width : ℕ)
    (rest : Bytes) :
    scan (.digits zero width) (ds.map digitByte ++ rest) =
      scan (.digits zero (ds.foldl (fun n d ↦ n * 10 + d) width)) rest := by
  induction ds generalizing width with
  | nil => rfl
  | cons d ds ih =>
      obtain ⟨hdigit, hvalue⟩ := isDigit_digitByte (hds d List.mem_cons_self)
      rw [List.map_cons, List.cons_append, scan_width_digit zero width hdigit, hvalue,
        ih fun e he ↦ hds e (List.mem_cons_of_mem d he)]
      rfl

theorem scan_width_decimal (zero : Bool) (width : ℕ) (rest : Bytes) :
    scan (.digits zero 0) (decimal width ++ rest) = scan (.digits zero width) rest := by
  have hds : ∀ d ∈ numeralDigits 10 width, d < 10 :=
    fun d hd ↦ lt_of_mem_numeralDigits (by omega) hd
  have hvalue := digitsValue_numeralDigits 10 width
  rw [digitsValue] at hvalue
  rw [decimal, numeral_eq_map, scan_width_digits zero hds, hvalue]

/-- Flag and width of a spelled conversion. -/
theorem scan_spelled_width (zero : Bool) (width : ℕ) {rest : Bytes}
    (hrest : ∀ c ∈ rest.head?, c ≠ 48) :
    scan (.flag false)
        ((if zero then [48] else []) ++ ((if width = 0 then [] else decimal width) ++ rest)) =
      scan (.digits zero width) rest := by
  have hwidth : scan (.flag zero) ((if width = 0 then [] else decimal width) ++ rest) =
      scan (.digits zero width) rest := by
    by_cases hw : width = 0
    · subst hw
      rw [if_pos rfl, List.nil_append]
      exact scan_flag zero hrest
    · obtain ⟨c, cs, hhead, hc⟩ := numeral_head_ne_zero (b := 10) (by omega) (by omega) hw
      rw [if_neg hw, ← scan_width_decimal zero width rest]
      apply scan_flag
      intro d hd
      rw [decimal, hhead, List.cons_append, List.head?_cons, Option.mem_some_iff] at hd
      exact hd ▸ hc
  cases zero with
  | false => exact hwidth
  | true =>
      rw [if_pos rfl, List.singleton_append, scan_flag_zero]
      exact hwidth

theorem scan_spell_piece {p : Piece} (h : p.Spelled) (rest : Bytes) :
    scan .text (p.spell ++ rest) = (p :: (scan .text rest).1, (scan .text rest).2) := by
  cases p with
  | literal c => exact scan_literal h rest
  | conversion zero width size c =>
      rw [Piece.spell, List.cons_append, scan_percent, List.append_assoc, List.append_assoc,
        List.append_assoc, List.singleton_append]
      cases size with
      | true =>
          rw [if_pos rfl, List.singleton_append, scan_spelled_width zero width (by simp),
            scan_width_size, scan_size_conversion]
      | false =>
          obtain ⟨hdigit, hsize⟩ : ¬IsDigit c ∧ c ≠ 122 := by
            rcases h with h | h
            · cases h
            · exact h
          have hzero : c ≠ 48 := by
            rintro rfl
            exact hdigit (by decide)
          rw [if_neg Bool.false_ne_true, List.nil_append,
            scan_spelled_width zero width (by simpa using hzero),
            scan_width_conversion zero width hdigit hsize]

/-- A format that is spelled from pieces is cut into them again. -/
theorem scan_spell {ps : List Piece} (h : ∀ p ∈ ps, p.Spelled) :
    scan .text (spell ps) = (ps, false) := by
  induction ps with
  | nil => rfl
  | cons p ps ih =>
      have htail := ih fun q hq ↦ h q (List.mem_cons_of_mem p hq)
      rw [spell] at htail
      rw [spell, List.flatMap_cons, scan_spell_piece (h p List.mem_cons_self), htail]

/-! ## Arguments -/

/-- The pieces with the arguments that they take. -/
def assign {α : Type*} (takes : Piece → Bool) : List Piece → List α → List (Piece × Option α)
  | [], _ => []
  | p :: ps, args =>
      if takes p then (p, args.head?) :: assign takes ps args.tail
      else (p, none) :: assign takes ps args

end Foundations.FormatStrings
