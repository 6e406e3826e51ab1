import Wallpiper.Foundations.CText

/-!
# Lines read into a small buffer

`fgets` delivers a line with its newline, or as much of a line as the buffer
takes.  Lines that were joined with newlines and fit into the buffer come back
one by one.
-/

namespace Foundations.CText

/-- What a loop of `fgets` into a buffer of `size` bytes delivers, `line` being
in the buffer. -/
def fgetsLines (size : ℕ) (line : Bytes) : Bytes → List Bytes
  | [] => if line = [] then [] else [line]
  | c :: cs =>
      if c = 10 ∨ line.length + 2 = size then (line ++ [c]) :: fgetsLines size [] cs
      else fgetsLines size (line ++ [c]) cs

theorem fgetsLines_append {size : ℕ} {front : Bytes} (hfront : 10 ∉ front) (line rest : Bytes)
    (hsize : line.length + front.length + 2 ≤ size) :
    fgetsLines size line (front ++ rest) = fgetsLines size (line ++ front) rest := by
  induction front generalizing line with
  | nil => simp
  | cons c front ih =>
      rw [List.mem_cons, not_or] at hfront
      rw [List.length_cons] at hsize
      rw [List.cons_append, fgetsLines, if_neg (by
        rintro (rfl | hfull)
        · exact hfront.1 rfl
        · omega), ih hfront.2 _ (by simp; omega), List.append_assoc, List.singleton_append]

theorem fgetsLines_newline {size : ℕ} {front : Bytes} (hfront : 10 ∉ front) (rest : Bytes)
    (hsize : front.length + 2 ≤ size) :
    fgetsLines size [] (front ++ 10 :: rest) = (front ++ [10]) :: fgetsLines size [] rest := by
  rw [fgetsLines_append hfront [] _ (by simpa using hsize), List.nil_append, fgetsLines,
    if_pos (.inl rfl)]

theorem fgetsLines_last {size : ℕ} {front : Bytes} (hfront : 10 ∉ front) (hne : front ≠ [])
    (hsize : front.length + 2 ≤ size) : fgetsLines size [] front = [front] := by
  have h := fgetsLines_append hfront [] [] (by simpa using hsize)
  rw [List.append_nil, List.nil_append, fgetsLines, if_neg hne] at h
  exact h

/-- Whatever a parser makes of a line it makes of the line with its newline:
then it makes the same of lines that were joined. -/
theorem filterMap_fgetsLines {α : Type*} {size : ℕ} {parse : Bytes → Option α}
    {lines : List Bytes} (hlines : ∀ line ∈ lines, 10 ∉ line ∧ line ≠ [] ∧ line.length + 2 ≤ size ∧
      parse (line ++ [10]) = parse line) :
    (fgetsLines size [] ([10].intercalate lines)).filterMap parse = lines.filterMap parse := by
  induction lines with
  | nil => rfl
  | cons line lines ih =>
      rw [List.forall_mem_cons] at hlines
      obtain ⟨⟨hnonl, hne, hsize, hparse⟩, hrest⟩ := hlines
      cases lines with
      | nil =>
          rw [List.intercalate_singleton, fgetsLines_last hnonl hne hsize]
      | cons next lines =>
          rw [List.intercalate_cons_cons, List.append_assoc, List.singleton_append,
            fgetsLines_newline hnonl _ hsize, List.filterMap_cons, List.filterMap_cons, hparse,
            ih hrest]

/-! ## Numbers, one a line -/

/-- A number ends at the first byte that is not a digit. -/
theorem scanNumber_decimalInt_append (z : ℤ) {rest : Bytes} (hrest : scanDigits 10 rest = []) :
    scanNumber 10 (decimalInt z ++ rest) = scanNumber 10 (decimalInt z) := by
  have hdigits : scanDigits 10 (decimal z.natAbs ++ rest) = numeralDigits 10 z.natAbs := by
    rw [decimal, numeral_eq_map]
    exact scanDigits_map_append (by omega) (fun d hd ↦ lt_of_mem_numeralDigits (by omega) hd) hrest
  rw [scanNumber_decimalInt, scanNumber]
  simp only [scanSign_decimalInt_append, skipHexPrefix_ten, hdigits, if_neg numeralDigits_ne_nil,
    digitsValue_numeralDigits]

theorem strtol_decimalInt_append {z : ℤ} (hlow : -2 ^ 63 ≤ z) (hhigh : z < 2 ^ 63) {rest : Bytes}
    (hrest : scanDigits 10 rest = []) : strtol 10 (decimalInt z ++ rest) = z := by
  have hsame : strtol 10 (decimalInt z ++ rest) = strtol 10 (decimalInt z) := by
    rw [strtol, strtol, scanNumber_decimalInt_append z hrest]
  rw [hsame, strtol_decimalInt hlow hhigh]

theorem newline_notMem_decimalInt (z : ℤ) : 10 ∉ decimalInt z :=
  fun h ↦ absurd (isNumeralByte_of_mem_decimalInt h) (by decide)

end Foundations.CText
