import Mathlib.Data.Nat.Digits.Lemmas
import Mathlib.Algebra.Order.Floor.Ring
import Mathlib.Data.Rat.Floor
import Wallpiper.Foundations.Rasters
import Wallpiper.Overlay.FrameStats

/-!
# Drawing the statistics panel

The panel shows three rows of a letter and numbers in seven segments, and bars of
the frame lengths below them.  What is drawn says which places get which color.
-/

namespace Wallpiper.Overlay

open Foundations

def panelRaster : Raster where
  width := 210
  height := 120
  stride := 840
  fits := by decide

def colorBg : Color := ⟨20, 20, 24, 200⟩

def colorPrimary : Color := ⟨255, 255, 255, 255⟩

def colorSecondary : Color := ⟨150, 150, 150, 255⟩

def colorBarOk : Color := ⟨130, 190, 255, 255⟩

def colorBarWarn : Color := ⟨255, 90, 70, 255⟩

/-! ## Digits -/

def segments (digit : ℕ) : UInt8 :=
  [0x3f, 0x06, 0x5b, 0x4f, 0x66, 0x6d, 0x7d, 0x07, 0x7f, 0x6f].getD (digit % 10) 0

/-- The size of a digit and of its strokes. -/
structure DigitStyle where
  cellW : ℤ
  cellH : ℤ
  thick : ℤ

/-- The segments by their bits, in the order they are filled. -/
def segmentRects (x y : ℤ) (s : DigitStyle) : List (UInt8 × Rect) :=
  let half := s.cellH / 2
  [(0x01, ⟨x, y, s.cellW, s.thick⟩),
    (0x02, ⟨x + s.cellW - s.thick, y, s.thick, half⟩),
    (0x04, ⟨x + s.cellW - s.thick, y + half, s.thick, half⟩),
    (0x08, ⟨x, y + s.cellH - s.thick, s.cellW, s.thick⟩),
    (0x10, ⟨x, y + half, s.thick, half⟩),
    (0x20, ⟨x, y, s.thick, half⟩),
    (0x40, ⟨x, y + half - s.thick / 2, s.cellW, s.thick⟩)]

variable {r : Raster}

def drawDigit (p : Pixels r) (x y : ℤ) (digit : ℕ) (s : DigitStyle) (color : Color) : Pixels r :=
  (segmentRects x y s).foldl
    (fun p segment ↦ if segments digit &&& segment.1 ≠ 0 then p.fillRect segment.2 color else p) p

/-- The digits of the number that is shown. -/
def shownDigits (value : ℕ) : List ℕ :=
  let value := if value > 999 then 999 else value
  if value = 0 then [0] else (Nat.digits 10 value).reverse

/-- The pixels and the cursor behind the digits. -/
def drawDigits (s : DigitStyle) (y : ℤ) (color : Color) :
    List ℕ → Pixels r → ℤ → Pixels r × ℤ
  | [], p, cursor => (p, cursor)
  | digit :: digits, p, cursor =>
      drawDigits s y color digits (drawDigit p cursor y digit s color)
        (cursor + (s.cellW + s.thick))

/-- The pixels, and how much of the row is used. -/
def drawNumber (p : Pixels r) (x y : ℤ) (value : ℕ) (s : DigitStyle) (color : Color) :
    Pixels r × ℤ :=
  let (p, cursor) := drawDigits s y color (shownDigits value) p x
  (p, cursor - x)

/-! ## Letters and rows -/

def glyph5x5 (ch : Char) : Option (List UInt8) :=
  if ch = 'D' then some [0x1c, 0x12, 0x11, 0x12, 0x1c]
  else if ch = 'C' then some [0x0f, 0x10, 0x10, 0x10, 0x0f]
  else if ch = 'F' then some [0x1f, 0x10, 0x1e, 0x10, 0x10]
  else none

def drawLetter (p : Pixels r) (x y : ℤ) (ch : Char) (scale : ℤ) (color : Color) : Pixels r :=
  match glyph5x5 ch with
  | none => p
  | some rows =>
      (List.range 5).foldl (fun p (row : ℕ) ↦
        (List.range 5).foldl (fun p (col : ℕ) ↦
          if (rows.getD row 0).toNat.testBit (4 - col) then
            p.fillRect ⟨x + col * scale, y + row * scale, scale, scale⟩ color
          else p) p) p

def bigDigits : DigitStyle := ⟨12, 20, 3⟩

def smallDigits : DigitStyle := ⟨8, 13, 2⟩

def drawRow (p : Pixels r) (x y : ℤ) (label : Char) (primary : ℕ) (secondary : Option ℕ) :
    Pixels r :=
  let p := drawLetter p x (y + 2) label 3 colorPrimary
  let numberX := x + 22
  let (p, consumed) := drawNumber p numberX y primary bigDigits colorPrimary
  match secondary with
  | none => p
  | some secondary =>
      (drawNumber p (numberX + consumed + 10) (y + 7) secondary smallDigits colorSecondary).1

/-! ## Bars -/

/-- The part of the greatest height that a bar has. -/
def barFraction (deltaMs : ℚ) : ℚ :=
  let frac := deltaMs / 40
  let frac := if frac < 2 / 100 then 2 / 100 else frac
  if frac > 1 then 1 else frac

def drawSparkline (p : Pixels r) (x y w h : ℤ) (values : List ℚ) (warnThresholdMs : ℚ) :
    Pixels r :=
  let slotW := if w / 40 < 1 then 1 else w / 40
  values.zipIdx.foldl (fun p value ↦
    let barH := ⌊barFraction value.1 * h⌋
    let color := if value.1 > warnThresholdMs then colorBarWarn else colorBarOk
    let barW := if slotW - 1 < 1 then 1 else slotW - 1
    p.fillRect ⟨x + (value.2 : ℕ) * slotW, y + h - barH, barW, barH⟩ color) p

/-! ## The panel -/

/-- `llround`: to the nearest number, halves away from zero. -/
def llround (q : ℚ) : ℤ := if 0 ≤ q then ⌊q + 1 / 2⌋ else -⌊-q + 1 / 2⌋

/-- The conversion to `uint32_t`. -/
def toU32 (n : ℤ) : ℕ := (n % 2 ^ 32).toNat

/-- The pixels that are drawn for the numbers of the panel. -/
def StatsPanel.draw (panel : StatsPanel) : Pixels panelRaster :=
  let out : Pixels panelRaster := fun _ ↦ 0
  let out := out.fillRect ⟨0, 0, 210, 120⟩ colorBg
  let out := drawRow out 10 8 'D' (toU32 panel.displayFps) none
  let out := drawRow out 10 40 'C' (toU32 panel.captureFps) none
  let out := drawRow out 10 72 'F' (toU32 (llround panel.lastMs))
    (some (toU32 (llround panel.peakMs)))
  drawSparkline out 10 100 (210 - 20) 14 panel.sparkline (333 / 10)

/-! ## What is covered -/

/-- The places of a digit in its cell. -/
def digitShape (s : DigitStyle) (digit : ℕ) : Shape := fun x y ↦
  ∃ segment ∈ segmentRects 0 0 s, segments digit &&& segment.1 ≠ 0 ∧ segment.2.Covers x y

instance (s : DigitStyle) (digit : ℕ) (x y : ℤ) : Decidable (digitShape s digit x y) :=
  inferInstanceAs (Decidable (∃ segment ∈ segmentRects 0 0 s, _))

/-- The places of digits one beside the other. -/
def digitsShape (s : DigitStyle) (y : ℤ) : List ℕ → ℤ → Shape
  | [], _ => fun _ _ ↦ False
  | digit :: digits, x => fun x' y' ↦
      digitShape s digit (x' - x) (y' - y) ∨ digitsShape s y digits (x + (s.cellW + s.thick)) x' y'

theorem segmentRects_eq (x y : ℤ) (s : DigitStyle) :
    segmentRects x y s = (segmentRects 0 0 s).map fun segment ↦
      (segment.1, ⟨x + segment.2.x, y + segment.2.y, segment.2.w, segment.2.h⟩) := by
  simp only [segmentRects, List.map_cons, List.map_nil, add_zero, zero_add, add_sub_assoc]

theorem covers_shift {x y x' y' : ℤ} {rect : Rect} :
    Rect.Covers ⟨x + rect.x, y + rect.y, rect.w, rect.h⟩ x' y' ↔
      rect.Covers (x' - x) (y' - y) := by
  simp only [Rect.Covers]
  omega

theorem painted_drawDigit (p : Pixels r) (x y : ℤ) (digit : ℕ) (s : DigitStyle) (color : Color) :
    Painted p (fun x' y' ↦ digitShape s digit (x' - x) (y' - y)) color
      (drawDigit p x y digit s color) := by
  have hfold := Painted.foldl (fun segment p ↦ (painted_fillRect p segment.2 color).ite
    (segments digit &&& segment.1 ≠ 0)) (segmentRects x y s) p
  refine hfold.congr fun x' y' ↦ ?_
  rw [segmentRects_eq]
  simp only [digitShape, List.mem_map]
  constructor
  · rintro ⟨segment, hmem, hbit, hcovers⟩
    exact ⟨_, ⟨segment, hmem, rfl⟩, hbit, covers_shift.mpr hcovers⟩
  · rintro ⟨-, ⟨segment, hmem, rfl⟩, hbit, hcovers⟩
    exact ⟨segment, hmem, hbit, covers_shift.mp hcovers⟩

theorem painted_drawDigits (s : DigitStyle) (y : ℤ) (color : Color) (digits : List ℕ)
    (p : Pixels r) (x : ℤ) :
    Painted p (digitsShape s y digits x) color (drawDigits s y color digits p x).1 := by
  induction digits generalizing p x with
  | nil => exact Painted.refl p color
  | cons digit digits ih => exact (painted_drawDigit p x y digit s color).trans (ih _ _)

theorem drawDigits_snd (s : DigitStyle) (y : ℤ) (color : Color) (digits : List ℕ) (p : Pixels r)
    (x : ℤ) : (drawDigits s y color digits p x).2 = x + digits.length * (s.cellW + s.thick) := by
  induction digits generalizing p x with
  | nil => simp [drawDigits]
  | cons digit digits ih =>
      rw [drawDigits, ih, List.length_cons]
      push_cast
      ring

/-- The letter is in front of the number. -/
theorem confined_drawLetter (p : Pixels r) (x y : ℤ) (ch : Char) (color : Color) :
    Confined (fun x' y' ↦ x' < x + 15 ∧ y ≤ y' ∧ y' < y + 15) p
      (drawLetter p x y ch 3 color) := by
  unfold drawLetter
  split
  · exact Confined.refl _ _
  · refine Confined.foldl (fun row hrow p ↦ Confined.foldl (fun col hcol p ↦ ?_) p) p
    have hrow := List.mem_range.mp hrow
    have hcol := List.mem_range.mp hcol
    split
    · refine (painted_fillRect p _ color).confined.mono fun x' y' hcovers ↦ ?_
      simp only [Rect.Covers] at hcovers
      omega
    · exact Confined.refl _ _

theorem barFraction_le (deltaMs : ℚ) : barFraction deltaMs ≤ 1 := by
  have hcut : ∀ frac : ℚ, (if frac > 1 then 1 else frac) ≤ 1 := by
    intro frac
    split
    · exact le_refl _
    · exact not_lt.mp ‹_›
  exact hcut _

/-- The bars are below the rows. -/
theorem confined_drawSparkline (p : Pixels r) (x y w h : ℤ) (hh : 0 ≤ h) (values : List ℚ)
    (warnThresholdMs : ℚ) :
    Confined (fun _ y' ↦ y ≤ y') p (drawSparkline p x y w h values warnThresholdMs) := by
  refine Confined.foldl (fun value _ p ↦ ?_) p
  refine (painted_fillRect p _ _).confined.mono fun x' y' hcovers ↦ ?_
  have hbar : ⌊barFraction value.1 * h⌋ ≤ h := by
    apply Int.floor_le_iff.mpr
    have hh' : (0 : ℚ) ≤ h := by exact_mod_cast hh
    have hle := mul_le_of_le_one_left hh' (barFraction_le value.1)
    exact hle.trans_lt (lt_add_one _)
  simp only [Rect.Covers] at hcovers
  omega

end Wallpiper.Overlay
