import Mathlib.Data.List.Fold
import Wallpiper.Overlay.Drawing

/-!
# Reading the statistics panel

A reader looks at one place of each segment, digit by digit from the left, and takes
the segments that are lit for a digit.  What it reads off the pixels are the numbers
that the panel was drawn for.
-/

namespace Wallpiper.Overlay

open Foundations

/-- One place for each segment that no other segment covers. -/
def samples (s : DigitStyle) : List (UInt8 × ℤ × ℤ) :=
  let half := s.cellH / 2
  [(0x01, s.cellW / 2, 0), (0x02, s.cellW - 1, half / 2), (0x04, s.cellW - 1, half + half / 2),
    (0x08, s.cellW / 2, s.cellH - 1), (0x10, 0, half + half / 2), (0x20, 0, half / 2),
    (0x40, s.cellW / 2, half)]

/-- The bits of the segments that are lit. -/
def readBits (lit : ℤ → ℤ → Bool) (s : DigitStyle) (x y : ℤ) : UInt8 :=
  ((samples s).map fun q ↦ if lit (x + q.2.1) (y + q.2.2) then q.1 else 0).foldl (· ||| ·) 0

def digitOf (bits : UInt8) : Option ℕ := (List.range 10).find? fun digit ↦ segments digit = bits

/-- At most so many digits, up to the first cell that is none. -/
def readDigits (lit : ℤ → ℤ → Bool) (s : DigitStyle) (y : ℤ) : ℕ → ℤ → List ℕ
  | 0, _ => []
  | n + 1, x =>
      match digitOf (readBits lit s x y) with
      | none => []
      | some digit => digit :: readDigits lit s y n (x + (s.cellW + s.thick))

def readNumber (digits : List ℕ) : ℕ := Nat.ofDigits 10 digits.reverse

/-! ## Digits that can be read -/

/-- The places that are looked at tell the segments apart, and a digit stays in its
cell. -/
structure DigitStyle.Legible (s : DigitStyle) : Prop where
  bits : ∀ digit < 10, ∀ q ∈ samples s,
    (digitShape s digit q.2.1 q.2.2 ↔ segments digit &&& q.1 ≠ 0)
  inside : ∀ q ∈ samples s, 0 ≤ q.2.1 ∧ q.2.1 < s.cellW ∧ 0 ≤ q.2.2 ∧ q.2.2 < s.cellH
  cell : ∀ segment ∈ segmentRects 0 0 s, 0 ≤ segment.2.x ∧ segment.2.x + segment.2.w ≤ s.cellW ∧
    0 ≤ segment.2.y ∧ segment.2.y + segment.2.h ≤ s.cellH
  thick : 0 ≤ s.thick

theorem legible_bigDigits : bigDigits.Legible :=
  ⟨by decide +kernel, by decide, by decide, by decide⟩

theorem legible_smallDigits : smallDigits.Legible :=
  ⟨by decide +kernel, by decide, by decide, by decide⟩

variable {s : DigitStyle}

theorem DigitStyle.Legible.digitShape_cell (hs : s.Legible) {digit : ℕ} {x y : ℤ}
    (h : digitShape s digit x y) : 0 ≤ x ∧ x < s.cellW ∧ 0 ≤ y ∧ y < s.cellH := by
  obtain ⟨segment, hmem, -, hcovers⟩ := h
  have hcell := hs.cell segment hmem
  simp only [Rect.Covers] at hcovers
  omega

theorem DigitStyle.Legible.digitsShape_bounds (hs : s.Legible) {digits : List ℕ} {x y x' y' : ℤ}
    (h : digitsShape s y digits x x' y') :
    x ≤ x' ∧ x' < x + digits.length * (s.cellW + s.thick) ∧ y ≤ y' ∧ y' < y + s.cellH := by
  induction digits generalizing x with
  | nil => exact h.elim
  | cons digit digits ih =>
      have hthick := hs.thick
      have hlength : ((digit :: digits).length : ℤ) * (s.cellW + s.thick) =
          digits.length * (s.cellW + s.thick) + (s.cellW + s.thick) := by
        rw [List.length_cons]
        push_cast
        ring
      rw [hlength]
      rcases h with h | h
      · have hcell := hs.digitShape_cell h
        have hpos : 0 ≤ (digits.length : ℤ) * (s.cellW + s.thick) :=
          mul_nonneg (Int.natCast_nonneg _) (by omega)
        omega
      · have hrest := ih h
        have hwidth : 0 ≤ s.cellW := by
          have hfirst := hs.inside _ List.mem_cons_self
          omega
        omega

theorem digitOf_segments {digit : ℕ} (h : digit < 10) : digitOf (segments digit) = some digit := by
  have hall : ∀ digit < 10, digitOf (segments digit) = some digit := by decide
  exact hall digit h

/-- A cell in which the places of a digit are lit. -/
theorem readBits_of_digit (hs : s.Legible) {lit : ℤ → ℤ → Bool} {x y : ℤ} {digit : ℕ}
    (hdigit : digit < 10)
    (hlit : ∀ q ∈ samples s, (lit (x + q.2.1) (y + q.2.2) = true ↔
      digitShape s digit q.2.1 q.2.2)) :
    readBits lit s x y = segments digit := by
  have hmap : ((samples s).map fun q ↦ if lit (x + q.2.1) (y + q.2.2) then q.1 else 0) =
      ([0x01, 0x02, 0x04, 0x08, 0x10, 0x20, 0x40] : List UInt8).map fun mask ↦
        if segments digit &&& mask ≠ 0 then mask else 0 := by
    have hmasks : ([0x01, 0x02, 0x04, 0x08, 0x10, 0x20, 0x40] : List UInt8) =
        (samples s).map Prod.fst := rfl
    rw [hmasks, List.map_map]
    refine List.map_congr_left fun q hq ↦ ?_
    exact if_congr ((hlit q hq).trans (hs.bits digit hdigit q hq)) rfl rfl
  have hall : ∀ digit < 10, (([0x01, 0x02, 0x04, 0x08, 0x10, 0x20, 0x40] : List UInt8).map
      fun mask ↦ if segments digit &&& mask ≠ 0 then mask else 0).foldl (· ||| ·) 0 =
        segments digit := by
    decide
  rw [readBits, hmap]
  exact hall digit hdigit

theorem readBits_of_blank {lit : ℤ → ℤ → Bool} {x y : ℤ}
    (hlit : ∀ q ∈ samples s, lit (x + q.2.1) (y + q.2.2) = false) : readBits lit s x y = 0 := by
  have hmap : ((samples s).map fun q ↦ if lit (x + q.2.1) (y + q.2.2) then q.1 else 0) =
      (samples s).map fun _ ↦ (0 : UInt8) :=
    List.map_congr_left fun q hq ↦ by rw [hlit q hq]; rfl
  rw [readBits, hmap]
  simp only [samples, List.map_cons, List.map_nil]
  decide

/-- Digits of which precisely the places are lit are read as they are. -/
theorem readDigits_of_shape (hs : s.Legible) {lit : ℤ → ℤ → Bool} {y : ℤ} (n : ℕ) {x : ℤ}
    {digits : List ℕ} (hdigits : ∀ digit ∈ digits, digit < 10) (hlength : digits.length ≤ n)
    (hlit : ∀ x' y', x ≤ x' → x' < x + n * (s.cellW + s.thick) → y ≤ y' → y' < y + s.cellH →
      (lit x' y' = true ↔ digitsShape s y digits x x' y')) :
    readDigits lit s y n x = digits := by
  have hthick := hs.thick
  induction n generalizing x digits with
  | zero => rw [readDigits, List.length_eq_zero_iff.mp (Nat.le_zero.mp hlength)]
  | succ n ih =>
      have hwidth : 0 ≤ (n : ℤ) * (s.cellW + s.thick) := by
        have hfirst := hs.inside _ List.mem_cons_self
        exact mul_nonneg (Int.natCast_nonneg _) (by omega)
      have hspan : ((n + 1 : ℕ) : ℤ) * (s.cellW + s.thick) =
          n * (s.cellW + s.thick) + (s.cellW + s.thick) := by
        push_cast
        ring
      rw [hspan] at hlit
      have hcell : ∀ q ∈ samples s, (lit (x + q.2.1) (y + q.2.2) = true ↔
          digitsShape s y digits x (x + q.2.1) (y + q.2.2)) := by
        intro q hq
        have hin := hs.inside q hq
        exact hlit _ _ (by omega) (by omega) (by omega) (by omega)
      cases digits with
      | nil =>
          have hblank : readBits lit s x y = 0 :=
            readBits_of_blank fun q hq ↦ Bool.eq_false_iff.mpr (hcell q hq).mp
          rw [readDigits, hblank]
          rfl
      | cons digit digits =>
          have hdigit := hdigits digit List.mem_cons_self
          have hbits : readBits lit s x y = segments digit := by
            refine readBits_of_digit hs hdigit fun q hq ↦ (hcell q hq).trans ?_
            have hin := hs.inside q hq
            simp only [digitsShape, add_sub_cancel_left]
            refine or_iff_left fun hrest ↦ ?_
            have hbounds := hs.digitsShape_bounds hrest
            omega
          rw [readDigits, hbits, digitOf_segments hdigit]
          simp only
          refine congrArg (digit :: ·) (ih (fun d hd ↦ hdigits d (List.mem_cons_of_mem _ hd))
            (Nat.le_of_succ_le_succ hlength) fun x' y' hx hx' hy hy' ↦ ?_)
          have hwide := hs.inside _ List.mem_cons_self
          rw [hlit x' y' (by omega) (by omega) hy hy', digitsShape]
          refine or_iff_right fun hfirst ↦ ?_
          have hbounds := hs.digitShape_cell hfirst
          omega

/-! ## The digits of a number -/

theorem shownDigits_eq (value : ℕ) : shownDigits value =
    if min value 999 = 0 then [0] else (Nat.digits 10 (min value 999)).reverse := by
  have hcut : (if value > 999 then 999 else value) = min value 999 := by
    split <;> omega
  simp only [shownDigits, hcut]

theorem shownDigits_lt {value : ℕ} : ∀ digit ∈ shownDigits value, digit < 10 := by
  intro digit hdigit
  rw [shownDigits_eq] at hdigit
  split at hdigit
  · obtain rfl := List.mem_singleton.mp hdigit
    decide
  · exact Nat.digits_lt_base (by decide) (List.mem_reverse.mp hdigit)

theorem length_shownDigits_le (value : ℕ) : (shownDigits value).length ≤ 3 := by
  rw [shownDigits_eq]
  split
  · decide
  · rw [List.length_reverse, Nat.digits_length_le_iff (by decide)]
    omega

theorem readNumber_shownDigits (value : ℕ) : readNumber (shownDigits value) = min value 999 := by
  rw [readNumber, shownDigits_eq]
  split
  · rename_i hzero
    rw [hzero]
    rfl
  · rw [List.reverse_reverse, Nat.ofDigits_digits]

/-! ## Rows -/

variable {r : Raster}

/-- The digits of the first number of a row at `x`, and those of the second, which
is behind it. -/
def readPrimary (p : Pixels r) (x y : ℤ) : List ℕ :=
  readDigits (p.has colorPrimary) bigDigits y 3 (x + 22)

def readSecondary (p : Pixels r) (x y : ℤ) : List ℕ :=
  readDigits (p.has colorSecondary) smallDigits (y + 7) 3
    (x + 22 + (readPrimary p x y).length * 15 + 10)

/-- The places of the first number, and those of the second. -/
def primaryShape (x y : ℤ) (primary : ℕ) : Shape :=
  digitsShape bigDigits y (shownDigits primary) (x + 22)

def secondaryShape (x y : ℤ) (primary : ℕ) : Option ℕ → Shape
  | none => fun _ _ ↦ False
  | some secondary => digitsShape smallDigits (y + 7) (shownDigits secondary)
      (x + 22 + (shownDigits primary).length * 15 + 10)

/-- The row with its first number. -/
def primaryDrawn (p : Pixels r) (x y : ℤ) (label : Char) (primary : ℕ) : Pixels r :=
  (drawDigits bigDigits y colorPrimary (shownDigits primary)
    (drawLetter p x (y + 2) label 3 colorPrimary) (x + 22)).1

theorem drawRow_none (p : Pixels r) (x y : ℤ) (label : Char) (primary : ℕ) :
    drawRow p x y label primary none = primaryDrawn p x y label primary := rfl

theorem drawRow_some (p : Pixels r) (x y : ℤ) (label : Char) (primary secondary : ℕ) :
    drawRow p x y label primary (some secondary) =
      (drawDigits smallDigits (y + 7) colorSecondary (shownDigits secondary)
        (primaryDrawn p x y label primary)
        (x + 22 + (shownDigits primary).length * 15 + 10)).1 := by
  have hconsumed : (drawNumber (drawLetter p x (y + 2) label 3 colorPrimary) (x + 22) y primary
      bigDigits colorPrimary).2 = (shownDigits primary).length * 15 := by
    change (drawDigits _ _ _ _ _ _).2 - (x + 22) = _
    rw [drawDigits_snd]
    change x + 22 + ((shownDigits primary).length : ℤ) * (12 + 3) - (x + 22) = _
    omega
  change (drawNumber _ (x + 22 + (drawNumber _ _ _ _ _ _).2 + 10) _ _ _ _).1 = _
  rw [hconsumed]
  rfl

section Row

variable {p : Pixels r} {x y : ℤ} {label : Char} {primary : ℕ} {a : Fin r.width} {b : Fin r.height}

/-- Behind the letter the first number stands on the background. -/
theorem colorAt_primaryDrawn (ha : x + 22 ≤ a.val) (hbg : p.colorAt a b = colorBg) :
    (primaryShape x y primary a.val b.val →
        (primaryDrawn p x y label primary).colorAt a b = colorPrimary) ∧
      (¬ primaryShape x y primary a.val b.val →
        (primaryDrawn p x y label primary).colorAt a b = colorBg) := by
  have hletter := confined_drawLetter p x (y + 2) label colorPrimary a b (by omega)
  obtain ⟨hin, hout⟩ := painted_drawDigits bigDigits y colorPrimary (shownDigits primary)
    (drawLetter p x (y + 2) label 3 colorPrimary) (x + 22) a b
  exact ⟨hin, fun h ↦ (hout h).trans (hletter.trans hbg)⟩

theorem colorAt_drawRow (secondary : Option ℕ) (ha : x + 22 ≤ a.val)
    (hbg : p.colorAt a b = colorBg) :
    ((drawRow p x y label primary secondary).colorAt a b = colorSecondary ↔
        secondaryShape x y primary secondary a.val b.val) ∧
      ((drawRow p x y label primary secondary).colorAt a b = colorPrimary ↔
        primaryShape x y primary a.val b.val ∧
          ¬ secondaryShape x y primary secondary a.val b.val) := by
  have hps : colorPrimary ≠ colorSecondary := by decide
  have hbs : colorBg ≠ colorSecondary := by decide
  have hbp : colorBg ≠ colorPrimary := by decide
  obtain ⟨hin, hout⟩ := @colorAt_primaryDrawn _ _ x y label primary _ _ ha hbg
  have hfirst : (primaryDrawn p x y label primary).colorAt a b ≠ colorSecondary ∧
      ((primaryDrawn p x y label primary).colorAt a b = colorPrimary ↔
        primaryShape x y primary a.val b.val) := by
    by_cases hshape : primaryShape x y primary a.val b.val
    · rw [hin hshape]
      exact ⟨hps, iff_of_true rfl hshape⟩
    · rw [hout hshape]
      exact ⟨hbs, iff_of_false hbp hshape⟩
  cases secondary with
  | none =>
      rw [drawRow_none]
      exact ⟨iff_of_false hfirst.1 id, hfirst.2.trans (and_iff_left id).symm⟩
  | some secondary =>
      rw [drawRow_some]
      obtain ⟨hcovered, hkept⟩ := painted_drawDigits smallDigits (y + 7) colorSecondary
        (shownDigits secondary) (primaryDrawn p x y label primary)
        (x + 22 + (shownDigits primary).length * 15 + 10) a b
      by_cases hshape : secondaryShape x y primary (some secondary) a.val b.val
      · rw [hcovered hshape]
        exact ⟨iff_of_true rfl hshape, iff_of_false hps.symm fun h ↦ h.2 hshape⟩
      · rw [hkept hshape]
        exact ⟨iff_of_false hfirst.1 hshape, hfirst.2.trans (and_iff_left hshape).symm⟩

/-- A row is 20 places high. -/
theorem confined_drawRow (p : Pixels r) (x y : ℤ) (label : Char) (primary : ℕ)
    (secondary : Option ℕ) :
    Confined (fun _ y' ↦ y ≤ y' ∧ y' < y + 20) p (drawRow p x y label primary secondary) := by
  have hletter : Confined (fun _ y' ↦ y ≤ y' ∧ y' < y + 20) p
      (drawLetter p x (y + 2) label 3 colorPrimary) :=
    (confined_drawLetter _ _ _ _ _).mono fun x' y' h ↦ by omega
  have hfirst : Confined (fun _ y' ↦ y ≤ y' ∧ y' < y + 20) p
      (primaryDrawn p x y label primary) := by
    refine hletter.trans ((painted_drawDigits _ _ _ _ _ _).confined.mono fun x' y' h ↦ ?_)
    have hbounds := legible_bigDigits.digitsShape_bounds h
    have hcell : bigDigits.cellH = 20 := rfl
    omega
  cases secondary with
  | none => exact hfirst
  | some secondary =>
      rw [drawRow_some]
      refine hfirst.trans ((painted_drawDigits _ _ _ _ _ _).confined.mono fun x' y' h ↦ ?_)
      have hbounds := legible_smallDigits.digitsShape_bounds h
      have hcell : smallDigits.cellH = 13 := rfl
      omega

end Row

/-! ## Reading a row -/

/-- The two numbers do not overlap. -/
theorem not_secondaryShape_of_primaryShape {x y : ℤ} {primary : ℕ} {secondary : Option ℕ}
    {x' y' : ℤ} (h : primaryShape x y primary x' y') :
    ¬ secondaryShape x y primary secondary x' y' := by
  cases secondary with
  | none => exact id
  | some secondary =>
      intro h'
      have hbounds := legible_bigDigits.digitsShape_bounds h
      have hbounds' := legible_smallDigits.digitsShape_bounds h'
      have hspan : bigDigits.cellW + bigDigits.thick = 15 := rfl
      rw [hspan] at hbounds
      omega

/-- A row that is drawn on the background and left as it is is read as it was
drawn. -/
theorem readRow_drawRow {p p' : Pixels r} {x y : ℤ} {label : Char} {primary : ℕ}
    {secondary : Option ℕ} (hx : 0 ≤ x) (hwidth : x + 107 ≤ r.width) (hy : 0 ≤ y)
    (hheight : y + 20 ≤ r.height)
    (hbg : ∀ a b, y ≤ (b : Fin r.height).val → b.val < y + 20 → p.colorAt a b = colorBg)
    (hkept : ∀ a b, y ≤ (b : Fin r.height).val → b.val < y + 20 →
      p'.colorAt a b = (drawRow p x y label primary secondary).colorAt a b) :
    readPrimary p' x y = shownDigits primary ∧
      ∀ value ∈ secondary, readSecondary p' x y = shownDigits value := by
  have hlength := length_shownDigits_le primary
  have hfirst : readPrimary p' x y = shownDigits primary := by
    refine readDigits_of_shape legible_bigDigits 3 shownDigits_lt hlength
      fun x' y' hx' hx'' hy' hy'' ↦ ?_
    change x' < x + 22 + 3 * (12 + 3) at hx''
    change y' < y + 20 at hy''
    obtain ⟨a, rfl⟩ : ∃ a : Fin r.width, (a.val : ℤ) = x' :=
      ⟨⟨x'.toNat, by omega⟩, Int.toNat_of_nonneg (by omega)⟩
    obtain ⟨b, rfl⟩ : ∃ b : Fin r.height, (b.val : ℤ) = y' :=
      ⟨⟨y'.toNat, by omega⟩, Int.toNat_of_nonneg (by omega)⟩
    rw [has_eq rfl rfl, decide_eq_true_iff, hkept a b hy' hy'',
      (colorAt_drawRow secondary hx' (hbg a b hy' hy'')).2]
    exact and_iff_left_of_imp not_secondaryShape_of_primaryShape
  refine ⟨hfirst, fun value hvalue ↦ ?_⟩
  obtain rfl : secondary = some value := hvalue
  rw [readSecondary, hfirst]
  refine readDigits_of_shape legible_smallDigits 3 shownDigits_lt (length_shownDigits_le value)
    fun x' y' hx' hx'' hy' hy'' ↦ ?_
  change x' < x + 22 + ((shownDigits primary).length : ℤ) * 15 + 10 + 3 * (8 + 2) at hx''
  change y' < y + 7 + 13 at hy''
  obtain ⟨a, rfl⟩ : ∃ a : Fin r.width, (a.val : ℤ) = x' :=
    ⟨⟨x'.toNat, by omega⟩, Int.toNat_of_nonneg (by omega)⟩
  obtain ⟨b, rfl⟩ : ∃ b : Fin r.height, (b.val : ℤ) = y' :=
    ⟨⟨y'.toNat, by omega⟩, Int.toNat_of_nonneg (by omega)⟩
  rw [has_eq rfl rfl, decide_eq_true_iff, hkept a b (by omega) (by omega),
    (colorAt_drawRow (some value) (by omega) (hbg a b (by omega) (by omega))).1]
  exact Iff.rfl

/-! ## The panel -/

/-- The four numbers that are read off the pixels. -/
structure PanelNumbers where
  displayFps : ℕ
  captureFps : ℕ
  lastMs : ℕ
  peakMs : ℕ
  deriving DecidableEq, Repr

def readPanel (p : Pixels panelRaster) : PanelNumbers where
  displayFps := readNumber (readPrimary p 10 8)
  captureFps := readNumber (readPrimary p 10 40)
  lastMs := readNumber (readPrimary p 10 72)
  peakMs := readNumber (readSecondary p 10 72)

/-- The panel after the background and each of the rows. -/
def StatsPanel.background : Pixels panelRaster :=
  Pixels.fillRect (fun _ ↦ 0) ⟨0, 0, 210, 120⟩ colorBg

def StatsPanel.withDisplay (panel : StatsPanel) : Pixels panelRaster :=
  drawRow StatsPanel.background 10 8 'D' (toU32 panel.displayFps) none

def StatsPanel.withCapture (panel : StatsPanel) : Pixels panelRaster :=
  drawRow panel.withDisplay 10 40 'C' (toU32 panel.captureFps) none

def StatsPanel.withFrames (panel : StatsPanel) : Pixels panelRaster :=
  drawRow panel.withCapture 10 72 'F' (toU32 (llround panel.lastMs))
    (some (toU32 (llround panel.peakMs)))

theorem colorAt_background (a : Fin panelRaster.width) (b : Fin panelRaster.height) :
    StatsPanel.background.colorAt a b = colorBg := by
  have ha : a.val < 210 := a.isLt
  have hb : b.val < 120 := b.isLt
  refine (painted_fillRect _ _ _ a b).1 ?_
  simp only [Rect.Covers]
  omega

section Stages

variable (panel : StatsPanel) {a : Fin panelRaster.width} {b : Fin panelRaster.height}

theorem StatsPanel.draw_kept (hb : b.val < 100) :
    panel.draw.colorAt a b = panel.withFrames.colorAt a b :=
  confined_drawSparkline panel.withFrames 10 100 190 14 (by decide) _ _ a b (by omega)

theorem StatsPanel.withFrames_kept (hb : b.val < 72) :
    panel.withFrames.colorAt a b = panel.withCapture.colorAt a b :=
  confined_drawRow _ _ _ _ _ _ a b (by omega)

theorem StatsPanel.withCapture_kept (hb : b.val < 40 ∨ 60 ≤ b.val) :
    panel.withCapture.colorAt a b = panel.withDisplay.colorAt a b :=
  confined_drawRow _ _ _ _ _ _ a b (by omega)

theorem StatsPanel.withDisplay_kept (hb : 28 ≤ b.val) :
    panel.withDisplay.colorAt a b = colorBg :=
  (confined_drawRow _ _ _ _ _ _ a b (by omega)).trans (colorAt_background a b)

end Stages

/-- The numbers that are read are those of the panel, as far as three digits show
them. -/
theorem readPanel_draw (panel : StatsPanel) : readPanel panel.draw =
    { displayFps := min (toU32 panel.displayFps) 999
      captureFps := min (toU32 panel.captureFps) 999
      lastMs := min (toU32 (llround panel.lastMs)) 999
      peakMs := min (toU32 (llround panel.peakMs)) 999 } := by
  have hdisplay : readPrimary panel.draw 10 8 = shownDigits (toU32 panel.displayFps) := by
    refine (@readRow_drawRow panelRaster StatsPanel.background _ 10 8 'D' _ none (by decide)
      (by decide) (by decide) (by decide) (fun a b _ _ ↦ colorAt_background a b)
      fun a b hb hb' ↦ ?_).1
    rw [panel.draw_kept (by omega), panel.withFrames_kept (by omega),
      panel.withCapture_kept (by omega)]
    rfl
  have hcapture : readPrimary panel.draw 10 40 = shownDigits (toU32 panel.captureFps) := by
    refine (@readRow_drawRow panelRaster panel.withDisplay _ 10 40 'C' _ none (by decide)
      (by decide) (by decide) (by decide) (fun a b hb _ ↦ panel.withDisplay_kept (by omega))
      fun a b hb hb' ↦ ?_).1
    rw [panel.draw_kept (by omega), panel.withFrames_kept (by omega)]
    rfl
  obtain ⟨hlast, hpeak⟩ := @readRow_drawRow panelRaster panel.withCapture panel.draw 10 72 'F'
    (toU32 (llround panel.lastMs)) (some (toU32 (llround panel.peakMs))) (by decide) (by decide)
    (by decide) (by decide)
    (fun a b hb _ ↦ (panel.withCapture_kept (by omega)).trans (panel.withDisplay_kept (by omega)))
    fun a b _ hb ↦ panel.draw_kept (by omega)
  rw [readPanel, hdisplay, hcapture, hlast, hpeak _ rfl]
  simp only [readNumber_shownDigits]

/-! ## The frames that were recorded -/

/-- The length in milliseconds of the frame that begins at the `i`-th time. -/
def frameMs (times : List ℚ) (i : ℕ) : ℚ := (times.getD (i + 1) 0 - times.getD i 0) * 1000

/-- The frame is one of the last 4096 and began at most three seconds before the
newest time. -/
def FrameShown (times : List ℚ) (i : ℕ) : Prop :=
  times.length ≤ i + 4096 ∧ times.getLastD 0 - times.getD i 0 ≤ 3

instance (times : List ℚ) (i : ℕ) : Decidable (FrameShown times i) :=
  inferInstanceAs (Decidable (_ ∧ _))

def shownFrames (times : List ℚ) : List ℕ :=
  (List.range (times.length - 1)).filter fun i ↦ FrameShown times i

/-- The time between the newest two, if they are at most three seconds apart. -/
def lastFrameMs (times : List ℚ) : ℚ :=
  match times.reverse with
  | newest :: before :: _ => if newest - before ≤ 3 then (newest - before) * 1000 else 0
  | _ => 0

def longestFrameMs (times : List ℚ) : ℚ := ((shownFrames times).map (frameMs times)).foldr max 0

theorem getD_eq_getElem {times : List ℚ} {i : ℕ} (hi : i < times.length) :
    times.getD i 0 = times[i] := by
  rw [List.getD_eq_getElem?_getD, List.getElem?_eq_getElem hi, Option.getD_some]

theorem filter_le_range (k m : ℕ) :
    (List.range m).filter (fun i ↦ k ≤ i) = (List.range (m - k)).map (k + ·) := by
  rcases Nat.le_total m k with hm | hk
  · rw [Nat.sub_eq_zero_of_le hm]
    refine List.filter_eq_nil_iff.mpr fun i hi ↦ ?_
    have hlt := List.mem_range.mp hi
    rw [decide_eq_true_iff]
    omega
  · obtain ⟨d, rfl⟩ := Nat.exists_eq_add_of_le hk
    have hfront : (List.range k).filter (fun i ↦ decide (k ≤ i)) = [] := by
      refine List.filter_eq_nil_iff.mpr fun i hi ↦ ?_
      have hlt := List.mem_range.mp hi
      rw [decide_eq_true_iff]
      omega
    rw [List.range_add, List.filter_append, hfront, List.nil_append, Nat.add_sub_cancel_left,
      List.filter_eq_self]
    intro i hi
    obtain ⟨j, -, rfl⟩ := List.mem_map.mp hi
    exact decide_eq_true (Nat.le_add_right k j)

section Recorded

variable {ring : FrameStatRing} {times : List ℚ}

/-- The frames in the ring are those that are shown. -/
theorem Holds.shown_iff (h : Holds ring times) (hsorted : times.Pairwise (· ≤ ·)) {i : ℕ}
    (hi : i < times.length) : FrameShown times i ↔ times.length - ring.count ≤ i := by
  have hrecent := h.content.recent_iff hsorted hi
  rw [RingBuffer.length_content] at hrecent
  obtain ⟨front, newest, rfl⟩ :=
    (List.eq_nil_or_concat' times).resolve_left (List.ne_nil_of_length_pos (by omega))
  rw [hrecent, FrameShown, List.getLastD_concat, List.getLast?_concat,
    getD_eq_getElem hi]
  refine and_congr_right fun _ ↦ ?_
  have hle := le_getLast hsorted List.getLast?_concat (List.getElem_mem hi)
  rw [← within_iff hle]
  exact ⟨fun hwithin _ hnewest ↦ Option.some.inj hnewest ▸ hwithin, fun hall ↦ hall newest rfl⟩

/-- The frame lengths of the ring are those of the frames that are shown. -/
theorem Holds.deltasMs_eq_map (h : Holds ring times) (hsorted : times.Pairwise (· ≤ ·)) :
    deltasMs ring = (shownFrames times).map (frameMs times) := by
  have hcount : ring.count ≤ times.length := by
    rw [← RingBuffer.length_content]
    exact h.content.suffix.length_le
  have hshown : shownFrames times =
      (List.range (ring.count - 1)).map (times.length - ring.count + ·) := by
    have hspan : ring.count - 1 = times.length - 1 - (times.length - ring.count) := by omega
    rw [shownFrames, hspan, ← filter_le_range]
    refine List.filter_congr fun i hi ↦ decide_eq_decide.mpr ?_
    have hlt := List.mem_range.mp hi
    exact h.shown_iff hsorted (by omega)
  have hget : ∀ i < ring.count, ring.get i = times.getD (times.length - ring.count + i) 0 := by
    intro i hi
    have hcontent : ring.content = times.drop (times.length - ring.count) := by
      rw [← RingBuffer.length_content]
      exact List.suffix_iff_eq_drop.mp h.content.suffix
    have hcell : ring.content.getD i 0 = ring.get i := by
      simp [RingBuffer.content, hi]
    rw [← hcell, hcontent, List.getD_eq_getElem?_getD, List.getElem?_drop,
      List.getD_eq_getElem?_getD]
  rw [hshown, List.map_map, deltasMs]
  refine List.map_congr_left fun i hi ↦ ?_
  have hlt := List.mem_range.mp hi
  rw [hget i (by omega), hget (i + 1) (by omega)]
  rfl

theorem FrameShown.mono {i j : ℕ} (h : FrameShown times i) (hsorted : times.Pairwise (· ≤ ·))
    (hij : i ≤ j) (hj : j < times.length) : FrameShown times j := by
  obtain ⟨hfits, hrecent⟩ := h
  have hle : times.getD i 0 ≤ times.getD j 0 := by
    rw [getD_eq_getElem (hij.trans_lt hj), getD_eq_getElem hj]
    rcases hij.lt_or_eq with hlt | rfl
    · exact List.pairwise_iff_getElem.mp hsorted i j _ hj hlt
    · exact le_rfl
  exact ⟨by omega, (sub_le_sub_left hle _).trans hrecent⟩

theorem frameShown_concat {front : List ℚ} {before newest : ℚ} :
    FrameShown (front ++ [before, newest]) front.length ↔ newest - before ≤ 3 := by
  simp [FrameShown]

/-- Where the last frame is not shown, no earlier one is. -/
theorem getLastD_shownFrames (hsorted : times.Pairwise (· ≤ ·)) :
    ((shownFrames times).map (frameMs times)).getLastD 0 = lastFrameMs times := by
  obtain rfl | ⟨front, newest, rfl⟩ := List.eq_nil_or_concat' times
  · rfl
  obtain rfl | ⟨front, before, rfl⟩ := List.eq_nil_or_concat' front
  · rfl
  rw [List.append_assoc, List.singleton_append] at hsorted ⊢
  have hlength : (front ++ [before, newest]).length - 1 = front.length + 1 := by simp
  have hlast : lastFrameMs (front ++ [before, newest]) =
      if newest - before ≤ 3 then (newest - before) * 1000 else 0 := by
    simp [lastFrameMs]
  rw [shownFrames, hlength, List.range_succ, List.filter_append, hlast]
  by_cases hshown : newest - before ≤ 3
  · have hone : [front.length].filter
        (fun i ↦ decide (FrameShown (front ++ [before, newest]) i)) = [front.length] :=
      List.filter_cons_of_pos (decide_eq_true (frameShown_concat.mpr hshown))
    rw [hone, List.map_append, List.map_singleton, List.getLastD_concat, if_pos hshown]
    simp [frameMs]
  · have hnone : ∀ i ∈ List.range front.length ++ [front.length],
        ¬ FrameShown (front ++ [before, newest]) i := by
      intro i hi hframe
      have hle : i ≤ front.length := by
        rcases List.mem_append.mp hi with hi | hi
        · exact (List.mem_range.mp hi).le
        · exact (List.mem_singleton.mp hi).le
      exact hshown (frameShown_concat.mp (hframe.mono hsorted hle (by simp)))
    rw [← List.filter_append, List.filter_eq_nil_iff.mpr fun i hi ↦ by simpa using hnone i hi,
      if_neg hshown]
    rfl

/-- A frame that is shown is at most three seconds long. -/
theorem frameMs_bounds (hsorted : times.Pairwise (· ≤ ·)) {i : ℕ} (hi : i ∈ shownFrames times) :
    0 ≤ frameMs times i ∧ frameMs times i ≤ 3000 := by
  obtain ⟨hlt, hframe⟩ := List.mem_filter.mp hi
  have hlt := List.mem_range.mp hlt
  have hrecent := (of_decide_eq_true hframe).2
  obtain ⟨front, newest, rfl⟩ :=
    (List.eq_nil_or_concat' times).resolve_left (List.ne_nil_of_length_pos (by omega))
  rw [List.getLastD_concat] at hrecent
  have hnext := le_getLast hsorted List.getLast?_concat
    (List.getElem_mem (l := front ++ [newest]) (n := i + 1) (by omega))
  have hstep : (front ++ [newest])[i] ≤ (front ++ [newest])[i + 1] :=
    List.pairwise_iff_getElem.mp hsorted i (i + 1) _ _ (Nat.lt_succ_self i)
  rw [frameMs]
  rw [getD_eq_getElem (by omega)] at hrecent ⊢
  rw [getD_eq_getElem (by omega)]
  constructor <;> linarith

theorem lastFrameMs_bounds (hsorted : times.Pairwise (· ≤ ·)) :
    0 ≤ lastFrameMs times ∧ lastFrameMs times ≤ 3000 := by
  rw [← getLastD_shownFrames hsorted]
  rcases hlast : ((shownFrames times).map (frameMs times)).getLast? with _ | ms
  · rw [List.getLastD_eq_getLast?, hlast]
    norm_num
  · obtain ⟨i, hi, rfl⟩ := List.mem_map.mp (List.mem_of_getLast? hlast)
    rw [List.getLastD_eq_getLast?, hlast]
    exact frameMs_bounds hsorted hi

theorem foldr_max_le {deltas : List ℚ} {bound : ℚ} (hbound : 0 ≤ bound)
    (h : ∀ ms ∈ deltas, ms ≤ bound) : deltas.foldr max 0 ≤ bound := by
  induction deltas with
  | nil => exact hbound
  | cons ms rest ih =>
      exact max_le (h ms List.mem_cons_self) (ih fun ms hms ↦ h ms (List.mem_cons_of_mem _ hms))

theorem zero_le_foldr_max (deltas : List ℚ) : 0 ≤ deltas.foldr max 0 := by
  induction deltas with
  | nil => exact le_rfl
  | cons ms rest ih => exact ih.trans (le_max_right _ _)

theorem longestFrameMs_bounds (hsorted : times.Pairwise (· ≤ ·)) :
    0 ≤ longestFrameMs times ∧ longestFrameMs times ≤ 3000 := by
  refine ⟨zero_le_foldr_max _, foldr_max_le (by norm_num) fun ms hms ↦ ?_⟩
  obtain ⟨i, hi, rfl⟩ := List.mem_map.mp hms
  exact (frameMs_bounds hsorted hi).2

/-- The greatest of the lengths, as it is looked for. -/
theorem foldl_peak (deltas : List ℚ) :
    deltas.foldl (fun peak delta ↦ if peak < delta then delta else peak) 0 =
      deltas.foldr max 0 := by
  have hmax : (fun peak delta : ℚ ↦ if peak < delta then delta else peak) = max := by
    funext peak delta
    rw [max_def_lt]
  rw [hmax]
  exact List.foldl_eq_foldr

end Recorded

/-- To the nearest millisecond. -/
theorem toU32_llround {ms : ℚ} (hnonneg : 0 ≤ ms) (hle : ms ≤ 3000) :
    toU32 (llround ms) = ⌊ms + 1 / 2⌋₊ := by
  have hfloor : 0 ≤ ⌊ms + 1 / 2⌋ := Int.floor_nonneg.mpr (by linarith)
  have hlt : ⌊ms + 1 / 2⌋ < 3001 := Int.floor_lt.mpr (by push_cast; linarith)
  rw [llround, if_pos hnonneg, toU32, Int.emod_eq_of_lt hfloor (by omega)]
  rfl

/-- After every run of records at times that do not decrease, what is read off the
pixels are the numbers of frames that were displayed and captured in the last
second, the length of the last frame and that of the longest of the last 4096 that
began at most three seconds before the newest. -/
theorem panel_shows_frames (ops : List StatsOp)
    (hsorted : (ops.map StatsOp.time).Pairwise (· ≤ ·)) {now now' : ℚ}
    (hnow : ∀ op ∈ ops, op.time ≤ now) (hlater : now ≤ now') :
    readPanel (wpRenderStatsPanel (FrameStats.run ops) now now').draw =
      { displayFps := min ((displayTimes ops).countP fun x ↦ Within 1 now x) 999
        captureFps := min ((captureTimes ops).countP fun x ↦ Within 1 now' x) 999
        lastMs := min ⌊lastFrameMs (displayTimes ops) + 1 / 2⌋₊ 999
        peakMs := min ⌊longestFrameMs (displayTimes ops) + 1 / 2⌋₊ 999 } := by
  obtain ⟨hdisplay, hcapture⟩ := FrameStats.run_holds hsorted
  have hle : ∀ x ∈ ops.map StatsOp.time, x ≤ now := by
    intro x hx
    obtain ⟨op, hop, rfl⟩ := List.mem_map.mp hx
    exact hnow op hop
  have hdisplayed := hsorted.sublist (displayTimes_sublist ops)
  have hdisplayFps := hdisplay.fps hdisplayed
    fun x hx ↦ hle x ((displayTimes_sublist ops).subset hx)
  have hcaptureFps := hcapture.fps (hsorted.sublist (captureTimes_sublist ops))
    fun x hx ↦ (hle x ((captureTimes_sublist ops).subset hx)).trans hlater
  have hcut : ∀ n : ℕ, min (toU32 (min 4096 n : ℕ)) 999 = min n 999 := by
    intro n
    simp only [toU32]
    omega
  obtain ⟨hlast, hlast_le⟩ := lastFrameMs_bounds hdisplayed
  obtain ⟨hpeak, hpeak_le⟩ := longestFrameMs_bounds hdisplayed
  rw [readPanel_draw]
  simp only [wpRenderStatsPanel, hdisplayFps, hcaptureFps, hcut]
  rw [hdisplay.deltasMs_eq_map hdisplayed, getLastD_shownFrames hdisplayed, foldl_peak,
    toU32_llround hlast hlast_le]
  change PanelNumbers.mk _ _ _ (min (toU32 (llround (longestFrameMs (displayTimes ops)))) 999) = _
  rw [toU32_llround hpeak hpeak_le]

/-- Three frames are displayed, the last two 16 milliseconds apart, and one is
captured. -/
def threeFrames : List StatsOp :=
  [.display (1 / 10), .display (7 / 2), .display (3516 / 1000), .capture (18 / 5)]

theorem panel_shows_frames_threeFrames :
    readPanel (wpRenderStatsPanel (FrameStats.run threeFrames) 4 4).draw = ⟨2, 1, 16, 16⟩ := by
  have hsorted : (threeFrames.map StatsOp.time).Pairwise (· ≤ ·) := by
    norm_num [threeFrames, StatsOp.time]
  have hnow : ∀ op ∈ threeFrames, op.time ≤ 4 := by
    simp only [threeFrames, List.mem_cons, List.not_mem_nil, or_false, forall_eq_or_imp,
      forall_eq, StatsOp.time]
    norm_num
  rw [panel_shows_frames threeFrames hsorted hnow le_rfl]
  decide +kernel

end Wallpiper.Overlay
