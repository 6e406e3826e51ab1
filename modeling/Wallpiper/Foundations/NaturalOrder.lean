import Mathlib.Data.Prod.Lex
import Wallpiper.Foundations.CText
import Wallpiper.Foundations.Comparators

/-!
# The natural order of strings

A string is read as a list of parts: runs of digits, without their leading
zeros, and the other characters.  Runs are ordered by their length and then
digit by digit, that is by their value, and stand where the digits stand among
the characters.
-/

namespace Foundations.NaturalOrder

open CText

def isDigit (c : UInt8) : Bool := 48 ≤ c && c ≤ 57

/-- Without its leading zeros a run still has a digit. -/
def dropZeros : Bytes → Bytes
  | [] => []
  | [c] => [c]
  | c :: d :: ds => if c = 48 then dropZeros (d :: ds) else c :: d :: ds

/-- The place of a part, and the length and the digits of a run. -/
abbrev Part := ℕ ×ₗ ℕ ×ₗ List ℕ

def charPart (c : UInt8) : Part := toLex (c.toNat, toLex (0, []))

def runPart (digits : Bytes) : Part := toLex (48, toLex (digits.length, digits.map UInt8.toNat))

theorem length_dropWhile_isDigit_lt {c : UInt8} {s : Bytes} (hc : isDigit c = true) :
    ((c :: s).dropWhile isDigit).length < (c :: s).length := by
  rw [List.dropWhile_cons_of_pos hc]
  exact Nat.lt_succ_of_le (List.dropWhile_suffix isDigit).length_le

/-- The parts up to the NUL. -/
def parts : Bytes → List Part
  | [] => []
  | c :: s =>
      if c = 0 then []
      else if _ : isDigit c = true then
        runPart (dropZeros ((c :: s).takeWhile isDigit)) :: parts ((c :: s).dropWhile isDigit)
      else charPart c :: parts s
termination_by s => s.length
decreasing_by
  · exact length_dropWhile_isDigit_lt ‹_›
  · exact Nat.lt_succ_self _

theorem parts_nul (s : Bytes) : parts (0 :: s) = [] := by
  rw [parts, if_pos rfl]

theorem parts_char {c : UInt8} (h₀ : c ≠ 0) (hc : isDigit c = false) (s : Bytes) :
    parts (c :: s) = charPart c :: parts s := by
  rw [parts, if_neg h₀, dif_neg (by simp [hc])]

theorem parts_digit {c : UInt8} (hc : isDigit c = true) (s : Bytes) :
    parts (c :: s) =
      runPart (dropZeros ((c :: s).takeWhile isDigit)) :: parts ((c :: s).dropWhile isDigit) := by
  have h₀ : c ≠ 0 := by
    rintro rfl
    exact absurd hc (by decide)
  rw [parts, if_neg h₀, dif_pos hc]

/-! ## The order of parts -/

theorem isDigit_iff (c : UInt8) : isDigit c = true ↔ 48 ≤ c.toNat ∧ c.toNat ≤ 57 := by
  rw [isDigit, Bool.and_eq_true, decide_eq_true_iff, decide_eq_true_iff, UInt8.le_iff_toNat_le,
    UInt8.le_iff_toNat_le]
  rfl

theorem charPart_inj {c d : UInt8} (h : charPart c = charPart d) : c = d :=
  UInt8.toNat_inj.mp (congrArg Prod.fst h)

theorem runPart_inj {ds es : Bytes} (h : runPart ds = runPart es) : ds = es :=
  List.map_injective_iff.mpr (fun _ _ ↦ UInt8.toNat_inj.mp)
    (congrArg (fun p : Part ↦ (ofLex (ofLex p).2).2) h)

theorem charPart_ne_runPart {c : UInt8} (hc : isDigit c = false) (ds : Bytes) :
    charPart c ≠ runPart ds := by
  intro h
  have hplace : c.toNat = 48 := congrArg Prod.fst h
  have hdigit : isDigit c = true := (isDigit_iff c).mpr (by omega)
  exact absurd hdigit (by simp [hc])

theorem lt_of_place_lt {p q : Part} (h : (ofLex p).1 < (ofLex q).1) : p < q :=
  Prod.Lex.lt_iff.mpr (Or.inl h)

/-- Two characters are ordered by their codes. -/
theorem compares_char (c d : UInt8) :
    Compares ((c.toNat : ℤ) - d.toNat) (charPart c) (charPart d) := by
  rcases Nat.lt_trichotomy c.toNat d.toNat with hlt | heq | hgt
  · exact Compares.of_lt (by omega) (lt_of_place_lt hlt)
  · rw [heq, sub_self, UInt8.toNat_inj.mp heq]
    exact Compares.refl _
  · exact Compares.of_gt (by omega) (lt_of_place_lt hgt)

/-- A character that is no digit is on one side of all of them. -/
theorem compares_char_run {c d : UInt8} (hc : isDigit c = false) (hd : isDigit d = true)
    (ds : Bytes) : Compares ((c.toNat : ℤ) - d.toNat) (charPart c) (runPart ds) := by
  have hdigit := (isDigit_iff d).mp hd
  have hnot : ¬ (48 ≤ c.toNat ∧ c.toNat ≤ 57) := by
    rw [← isDigit_iff, hc]
    simp
  by_cases hlow : c.toNat < 48
  · exact Compares.of_lt (by omega) (lt_of_place_lt hlow)
  · exact Compares.of_gt (by omega) (lt_of_place_lt (show 48 < c.toNat by omega))

theorem compares_run_char {c d : UInt8} (hc : isDigit c = true) (hd : isDigit d = false)
    (ds : Bytes) : Compares ((c.toNat : ℤ) - d.toNat) (runPart ds) (charPart d) := by
  have hdigit := (isDigit_iff c).mp hc
  have hnot : ¬ (48 ≤ d.toNat ∧ d.toNat ≤ 57) := by
    rw [← isDigit_iff, hd]
    simp
  by_cases hlow : d.toNat < 48
  · exact Compares.of_gt (by omega) (lt_of_place_lt hlow)
  · exact Compares.of_lt (by omega) (lt_of_place_lt (show 48 < d.toNat by omega))

/-- A shorter run is the smaller number. -/
theorem compares_run_length {ds es : Bytes} (h : ds.length ≠ es.length) :
    Compares (if ds.length < es.length then -1 else 1) (runPart ds) (runPart es) := by
  split
  · rename_i hlt
    exact Compares.of_lt (by omega)
      (Prod.Lex.lt_iff.mpr (Or.inr ⟨rfl, Prod.Lex.lt_iff.mpr (Or.inl hlt)⟩))
  · have hgt : es.length < ds.length := by omega
    exact Compares.of_gt (by omega)
      (Prod.Lex.lt_iff.mpr (Or.inr ⟨rfl, Prod.Lex.lt_iff.mpr (Or.inl hgt)⟩))

/-- Runs of one length are ordered as their digits are. -/
theorem compares_run_digits {z : ℤ} {ds es : Bytes} (hlength : ds.length = es.length)
    (h : Compares z (ds.map UInt8.toNat) (es.map UInt8.toNat)) :
    Compares z (runPart ds) (runPart es) where
  neg := by
    rw [h.neg, runPart, runPart, Prod.Lex.toLex_lt_toLex, Prod.Lex.toLex_lt_toLex, hlength]
    simp
  zero := by
    rw [h.zero]
    constructor
    · intro hmap
      rw [runPart, runPart, hlength, hmap]
    · intro hrun
      rw [runPart_inj hrun]

/-! ## Strings that have the same parts -/

/-- The strings differ at most in the zeros at the start of their runs of
digits. -/
inductive SameUpToZeros : Bytes → Bytes → Prop
  | nil : SameUpToZeros [] []
  | char (c : UInt8) {s t : Bytes} (hc : isDigit c = false) (h : SameUpToZeros s t) :
      SameUpToZeros (c :: s) (c :: t)
  | run (ds es : Bytes) {s t : Bytes} (hds : ds ≠ [] ∧ ∀ d ∈ ds, isDigit d = true)
      (hes : es ≠ [] ∧ ∀ e ∈ es, isDigit e = true) (hzeros : dropZeros ds = dropZeros es)
      (hs : ∀ c ∈ s.head?, isDigit c = false) (ht : ∀ c ∈ t.head?, isDigit c = false)
      (h : SameUpToZeros s t) : SameUpToZeros (ds ++ s) (es ++ t)

/-- A whole run of digits at the start of a string. -/
theorem parts_run {ds s : Bytes} (hds : ds ≠ [] ∧ ∀ d ∈ ds, isDigit d = true)
    (hs : ∀ c ∈ s.head?, isDigit c = false) :
    parts (ds ++ s) = runPart (dropZeros ds) :: parts s := by
  have htake : s.takeWhile isDigit = [] ∧ s.dropWhile isDigit = s := by
    cases s with
    | nil => exact ⟨rfl, rfl⟩
    | cons c s =>
        have hc := hs c rfl
        exact ⟨List.takeWhile_cons_of_neg (by simp [hc]), List.dropWhile_cons_of_neg (by simp [hc])⟩
  obtain ⟨hne, hall⟩ := hds
  cases ds with
  | nil => exact absurd rfl hne
  | cons d ds =>
      rw [List.cons_append, parts_digit (hall d List.mem_cons_self), ← List.cons_append,
        List.takeWhile_append_of_pos hall, List.dropWhile_append_of_pos hall, htake.1, htake.2,
        List.append_nil]

theorem parts_eq_of_same {s t : Bytes} (h : SameUpToZeros s t) (hs : 0 ∉ s) :
    parts s = parts t := by
  induction h with
  | nil => rfl
  | char c hc _ ih =>
      rw [List.mem_cons, not_or] at hs
      rw [parts_char (Ne.symm hs.1) hc, parts_char (Ne.symm hs.1) hc, ih hs.2]
  | run ds es hds hes hzeros hs' ht' _ ih =>
      rw [List.mem_append, not_or] at hs
      rw [parts_run hds hs', parts_run hes ht', hzeros, ih hs.2]

/-- The digits at the start of a string and what comes behind them. -/
theorem split_run {c : UInt8} (hc : isDigit c = true) (s : Bytes) :
    ((c :: s).takeWhile isDigit ≠ [] ∧ ∀ d ∈ (c :: s).takeWhile isDigit, isDigit d = true) ∧
      ∀ d ∈ ((c :: s).dropWhile isDigit).head?, isDigit d = false := by
  refine ⟨⟨?_, fun d hd ↦ List.mem_takeWhile_imp hd⟩, fun d hd ↦ ?_⟩
  · rw [List.takeWhile_cons_of_pos hc]
    exact List.cons_ne_nil _ _
  · have hnot := List.head?_dropWhile_not isDigit (c :: s)
    rw [Option.mem_def.mp hd] at hnot
    simpa using hnot

theorem parts_ne_nil {c : UInt8} (h₀ : c ≠ 0) (s : Bytes) : parts (c :: s) ≠ [] := by
  cases hc : isDigit c with
  | false =>
      rw [parts_char h₀ hc]
      exact List.cons_ne_nil _ _
  | true =>
      rw [parts_digit hc]
      exact List.cons_ne_nil _ _

theorem same_of_parts_eq {s t : Bytes} (hs : 0 ∉ s) (ht : 0 ∉ t) (h : parts s = parts t) :
    SameUpToZeros s t := by
  have hnil : parts [] = [] := by rw [parts]
  induction hn : s.length using Nat.strong_induction_on generalizing s t with
  | _ n ih =>
    rcases s with _ | ⟨c, s⟩
    · rcases t with _ | ⟨d, t⟩
      · exact SameUpToZeros.nil
      · rw [List.mem_cons, not_or] at ht
        exact absurd (h.symm.trans hnil) (parts_ne_nil (Ne.symm ht.1) t)
    · rw [List.mem_cons, not_or] at hs
      rcases t with _ | ⟨d, t⟩
      · exact absurd (h.trans hnil) (parts_ne_nil (Ne.symm hs.1) s)
      rw [List.mem_cons, not_or] at ht
      cases hc : isDigit c with
      | false =>
          rw [parts_char (Ne.symm hs.1) hc] at h
          cases hd : isDigit d with
          | false =>
              rw [parts_char (Ne.symm ht.1) hd] at h
              obtain ⟨hfirst, hrest⟩ := List.cons.inj h
              rw [← charPart_inj hfirst]
              exact SameUpToZeros.char c hc
                (ih s.length (by rw [← hn]; exact Nat.lt_succ_self _) hs.2 ht.2 hrest rfl)
          | true =>
              rw [parts_digit hd] at h
              exact absurd (List.cons.inj h).1 (charPart_ne_runPart hc _)
      | true =>
          rw [parts_digit hc] at h
          cases hd : isDigit d with
          | false =>
              rw [parts_char (Ne.symm ht.1) hd] at h
              exact absurd (List.cons.inj h).1.symm (charPart_ne_runPart hd _)
          | true =>
              rw [parts_digit hd] at h
              obtain ⟨hfirst, hrest⟩ := List.cons.inj h
              have hlt := length_dropWhile_isDigit_lt (s := s) hc
              have hs' : 0 ∉ (c :: s).dropWhile isDigit := fun hmem ↦
                (List.mem_cons.mp ((List.dropWhile_suffix isDigit).subset hmem)).elim hs.1 hs.2
              have ht' : 0 ∉ (d :: t).dropWhile isDigit := fun hmem ↦
                (List.mem_cons.mp ((List.dropWhile_suffix isDigit).subset hmem)).elim ht.1 ht.2
              have hsame := ih _ (by omega) hs' ht' hrest rfl
              obtain ⟨hrun, hstop⟩ := split_run hc s
              obtain ⟨hrun', hstop'⟩ := split_run hd t
              have hruns := runPart_inj hfirst
              have hwhole := SameUpToZeros.run _ _ hrun hrun' hruns hstop hstop' hsame
              rwa [List.takeWhile_append_dropWhile, List.takeWhile_append_dropWhile] at hwhole

/-- Only what stands before the NUL counts. -/
theorem parts_cString (s : Bytes) : parts (cString s) = parts s := by
  induction hn : s.length using Nat.strong_induction_on generalizing s with
  | _ n ih =>
    rcases s with _ | ⟨c, s⟩
    · rfl
    by_cases h₀ : c = 0
    · rw [h₀, parts_nul, cString, List.takeWhile_cons_of_neg (by simp), parts]
    cases hc : isDigit c with
    | false =>
        have hcut : cString (c :: s) = c :: cString s :=
          List.takeWhile_cons_of_pos (by simpa using h₀)
        rw [hcut, parts_char h₀ hc, parts_char h₀ hc,
          ih s.length (by rw [← hn]; exact Nat.lt_succ_self _) s rfl]
    | true =>
        have hlt := length_dropWhile_isDigit_lt (s := s) hc
        obtain ⟨hrun, hstop⟩ := split_run hc s
        have hcut : cString (c :: s) =
            (c :: s).takeWhile isDigit ++ cString ((c :: s).dropWhile isDigit) := by
          conv_lhs => rw [← List.takeWhile_append_dropWhile (p := isDigit) (l := c :: s)]
          refine List.takeWhile_append_of_pos fun d hd ↦ ?_
          have hdigit := (isDigit_iff d).mp (hrun.2 d hd)
          have hne : d ≠ 0 := by
            rintro rfl
            exact absurd hdigit.1 (by decide)
          simpa using hne
        have hstop' : ∀ d ∈ (cString ((c :: s).dropWhile isDigit)).head?, isDigit d = false := by
          intro d hd
          rcases hrest : (c :: s).dropWhile isDigit with _ | ⟨e, rest⟩
          · rw [hrest] at hd
            exact absurd hd (by simp [cString])
          · rw [hrest] at hd hstop
            rw [cString, List.takeWhile_cons] at hd
            split at hd
            · exact hstop d hd
            · exact absurd hd (by simp)
        rw [hcut, parts_run hrun hstop', ih _ (by omega) _ rfl, parts_digit hc]

theorem parts_eq_iff (s t : Bytes) :
    parts s = parts t ↔ SameUpToZeros (cString s) (cString t) := by
  have hnonul : ∀ u : Bytes, 0 ∉ cString u := by
    intro u hmem
    exact absurd (List.mem_takeWhile_imp hmem) (by decide)
  rw [← parts_cString s, ← parts_cString t]
  constructor
  · exact same_of_parts_eq (hnonul s) (hnonul t)
  · exact fun h ↦ parts_eq_of_same h (hnonul s)

end Foundations.NaturalOrder
