import Wallpiper.Foundations.WrittenNumbers
import Wallpiper.Ctl.MonitorGeometry

/-!
# The numbers of a decoded geometry

A number is read as a double and converted without a look at its range, so the
integers of a decoded geometry are those of the text only if each number fits
the type of its field and is not rounded up to the next integer.
-/

namespace Wallpiper.Ctl

open Foundations.CText Foundations.Doubles Foundations.DoubleText Foundations.DoubleRounding
  Foundations.WrittenNumbers Foundations.QuotedKeys

/-- The text behind the quoted key and its colon. -/
def valueText (json key : Bytes) : Option Bytes :=
  match (afterFirst (quoted key) json).map (List.dropWhile isBlank) with
  | some (58 :: p) => some (p.dropWhile isBlank)
  | _ => none

/-- The number that is written for a key: behind the first place with the quoted key
and a colon, which may be in a nested object or in a string. -/
def numberWritten (json key : Bytes) : Option Written := (valueText json key).bind written

def int32Range : Set ℤ := Set.Ico (-2 ^ 31) (2 ^ 31)

def uint32Range : Set ℤ := Set.Ico 0 (2 ^ 32)

/-- The six integer fields with their types and values. -/
def integerFields (g : MonitorGeometry) : List (Bytes × Set ℤ × ℤ) :=
  [(bytesOf "x", int32Range, g.x.toInt), (bytesOf "y", int32Range, g.y.toInt),
    (bytesOf "width", uint32Range, g.width.toNat), (bytesOf "height", uint32Range, g.height.toNat),
    (bytesOf "logical_width", uint32Range, g.logicalWidth.toNat),
    (bytesOf "logical_height", uint32Range, g.logicalHeight.toNat)]

def fieldRanges : List (Bytes × Set ℤ) :=
  [(bytesOf "x", int32Range), (bytesOf "y", int32Range), (bytesOf "width", uint32Range),
    (bytesOf "height", uint32Range), (bytesOf "logical_width", uint32Range),
    (bytesOf "logical_height", uint32Range)]

/-- The value is the number of the text truncated toward zero, and the conversion that
gives it stays in the range of the type. -/
def FieldRight (json key : Bytes) (range : Set ℤ) (value : ℤ) : Prop :=
  ∃ q d z, numberWritten json key = some (.number q) ∧ findNumber json key = some d ∧
    integerPart d = some z ∧ z ∈ range ∧ value = truncate q

def Faithful (json : Bytes) (g : MonitorGeometry) : Prop :=
  ∀ f ∈ integerFields g, FieldRight json f.1 f.2.1 f.2.2

/-- The number has its integer part in the range, and is not rounded up to the next integer. -/
def FitsIn (range : Set ℤ) : Written → Prop
  | .word => False
  | .number q => truncate q ∈ range ∧ Clear q

/-- A text with a number for each field has one that fits. -/
def NumbersFit (json : Bytes) : Prop :=
  (∀ f ∈ fieldRanges, (numberWritten json f.1).isSome) →
    ∀ f ∈ fieldRanges, ∃ w ∈ numberWritten json f.1, FitsIn f.2 w

/-! ## One field -/

section

variable {json key : Bytes}

theorem findNumber_eq (hshort : (quoted key).length < 40) :
    findNumber json key = (valueText json key).bind strtod := by
  rw [findNumber, if_neg (by omega), valueText]
  generalize (afterFirst (quoted key) json).map (List.dropWhile isBlank) = found
  split
  · rfl
  · simp

theorem isSome_numberWritten (hshort : (quoted key).length < 40) :
    (numberWritten json key).isSome = (findNumber json key).isSome := by
  rw [findNumber_eq hshort, numberWritten]
  cases valueText json key with
  | none => rfl
  | some s => exact isSome_written s

theorem findNumber_of_written (hshort : (quoted key).length < 40) {q : ℚ}
    (h : numberWritten json key = some (.number q)) (hsmall : |q| < 2 ^ 52) :
    ∃ d, findNumber json key = some d ∧ (integerPart d = some (truncate q) ↔ Clear q) := by
  obtain ⟨s, hs, hwritten⟩ := Option.bind_eq_some_iff.mp h
  rw [findNumber_eq hshort, hs, Option.bind_some]
  exact integerPart_strtod_iff hwritten hsmall

/-- A conversion that truncates inside its range gives the number of the text exactly when
that number fits. -/
theorem fieldRight_iff (hshort : (quoted key).length < 40) {range : Set ℤ}
    (hrange : range ⊆ Set.Icc (-2 ^ 32) (2 ^ 32)) {convert : Double → ℤ}
    (hconvert : ∀ d, ∀ z ∈ range, integerPart d = some z → convert d = z) {d : Double}
    (hd : findNumber json key = some d) :
    FieldRight json key range (convert d) ↔ ∃ w ∈ numberWritten json key, FitsIn range w := by
  have hsmall : ∀ q, truncate q ∈ range → |q| < 2 ^ 52 := by
    intro q hq
    obtain ⟨hlow, hhigh⟩ := hrange hq
    have habs := @abs_lt_of_truncate_mem q (2 ^ 32) (by exact_mod_cast hlow)
      (by exact_mod_cast hhigh)
    push_cast at habs
    linarith
  constructor
  · rintro ⟨q, d', z, hwritten, hfound, hpart, hz, hvalue⟩
    obtain rfl : d = d' := Option.some.inj (hd.symm.trans hfound)
    have htruncate : z = truncate q := (hconvert d z hz hpart).symm.trans hvalue
    rw [htruncate] at hpart hz
    obtain ⟨d', hfound', hiff⟩ := findNumber_of_written hshort hwritten (hsmall q hz)
    obtain rfl : d = d' := Option.some.inj (hd.symm.trans hfound')
    exact ⟨.number q, hwritten, hz, hiff.mp hpart⟩
  · rintro ⟨w, hwritten, hfits⟩
    cases w with
    | word => exact hfits.elim
    | number q =>
        obtain ⟨hz, hclear⟩ := hfits
        obtain ⟨d', hfound, hiff⟩ := findNumber_of_written hshort hwritten (hsmall q hz)
        obtain rfl : d = d' := Option.some.inj (hd.symm.trans hfound)
        have hpart := hiff.mpr hclear
        exact ⟨q, d, truncate q, hwritten, hd, hpart, hz, hconvert d _ hz hpart⟩

theorem fieldRight_int32_iff (hshort : (quoted key).length < 40) {d : Double}
    (hd : findNumber json key = some d) :
    FieldRight json key int32Range d.toInt32.toInt ↔
      ∃ w ∈ numberWritten json key, FitsIn int32Range w := by
  refine @fieldRight_iff json key hshort int32Range ?_ (fun d ↦ d.toInt32.toInt) ?_ d hd
  · intro z hz
    exact ⟨by have hlow := hz.1; omega, by have hhigh := hz.2; omega⟩
  · intro d z hz hpart
    exact toInt32_of_integerPart hpart hz.1 hz.2

theorem fieldRight_uint32_iff (hshort : (quoted key).length < 40) {d : Double}
    (hd : findNumber json key = some d) :
    FieldRight json key uint32Range d.toUInt32.toNat ↔
      ∃ w ∈ numberWritten json key, FitsIn uint32Range w := by
  refine @fieldRight_iff json key hshort uint32Range ?_ (fun d ↦ d.toUInt32.toNat) ?_ d hd
  · intro z hz
    exact ⟨by have hlow := hz.1; omega, by have hhigh := hz.2; omega⟩
  · intro d z hz hpart
    exact toUInt32_of_integerPart hpart hz.1 hz.2

end

/-! ## The decoded geometry -/

theorem quoted_length_lt_of_mem {f : Bytes × Set ℤ} (hf : f ∈ fieldRanges) :
    (quoted f.1).length < 40 := by
  have key : ∀ k ∈ fieldRanges.map Prod.fst, (quoted k).length < 40 := by
    rw [show fieldRanges.map Prod.fst = geometryKeys.take 6 from rfl]
    decide
  exact key f.1 (List.mem_map_of_mem hf)

/-- A text is accepted exactly when it has a number for each field. -/
theorem isSome_wpMonitorGeometryDecodeJson_iff (json : Bytes) :
    (wpMonitorGeometryDecodeJson json).isSome ↔
      ∀ f ∈ fieldRanges, (numberWritten json f.1).isSome := by
  have hwritten : (∀ f ∈ fieldRanges, (numberWritten json f.1).isSome) ↔
      ∀ f ∈ fieldRanges, (findNumber json f.1).isSome :=
    forall₂_congr fun f hf ↦ by rw [isSome_numberWritten (quoted_length_lt_of_mem hf)]
  rw [hwritten]
  simp only [fieldRanges, List.forall_mem_cons, Option.isSome_iff_exists]
  constructor
  · rintro ⟨g, hg⟩
    simp only [wpMonitorGeometryDecodeJson, Option.bind_eq_bind, Option.bind_eq_some_iff] at hg
    obtain ⟨x, hx, y, hy, width, hwidth, height, hheight, logicalWidth, hlogicalWidth,
      logicalHeight, hlogicalHeight, _⟩ := hg
    exact ⟨⟨x, hx⟩, ⟨y, hy⟩, ⟨width, hwidth⟩, ⟨height, hheight⟩, ⟨logicalWidth, hlogicalWidth⟩,
      ⟨logicalHeight, hlogicalHeight⟩, by simp⟩
  · rintro ⟨⟨x, hx⟩, ⟨y, hy⟩, ⟨width, hwidth⟩, ⟨height, hheight⟩, ⟨logicalWidth, hlogicalWidth⟩,
      ⟨logicalHeight, hlogicalHeight⟩, _⟩
    simp only [wpMonitorGeometryDecodeJson, hx, hy, hwidth, hheight, hlogicalWidth,
      hlogicalHeight, Option.bind_eq_bind, Option.bind_some]
    exact ⟨_, rfl⟩

theorem fieldRight_of_decode {json : Bytes} {g : MonitorGeometry}
    (h : wpMonitorGeometryDecodeJson json = some g) :
    ∀ f ∈ integerFields g, FieldRight json f.1 f.2.1 f.2.2 ↔
      ∃ w ∈ numberWritten json f.1, FitsIn f.2.1 w := by
  simp only [wpMonitorGeometryDecodeJson, Option.bind_eq_bind, Option.bind_eq_some_iff] at h
  obtain ⟨x, hx, y, hy, width, hwidth, height, hheight, logicalWidth, hlogicalWidth,
    logicalHeight, hlogicalHeight, hg⟩ := h
  obtain rfl := Option.some.inj hg
  have hshort : ∀ f ∈ fieldRanges, (quoted f.1).length < 40 := fun f ↦ quoted_length_lt_of_mem
  simp only [fieldRanges, List.forall_mem_cons] at hshort
  obtain ⟨h₁, h₂, h₃, h₄, h₅, h₆, _⟩ := hshort
  simp only [integerFields, List.forall_mem_cons]
  exact ⟨fieldRight_int32_iff h₁ hx, fieldRight_int32_iff h₂ hy, fieldRight_uint32_iff h₃ hwidth,
    fieldRight_uint32_iff h₄ hheight, fieldRight_uint32_iff h₅ hlogicalWidth,
    fieldRight_uint32_iff h₆ hlogicalHeight, by simp⟩

theorem faithful_iff {json : Bytes} {g : MonitorGeometry}
    (h : wpMonitorGeometryDecodeJson json = some g) :
    Faithful json g ↔ ∀ f ∈ fieldRanges, ∃ w ∈ numberWritten json f.1, FitsIn f.2 w := by
  have hranges : (integerFields g).map (fun f ↦ (f.1, f.2.1)) = fieldRanges := rfl
  rw [← hranges, List.forall_mem_map]
  exact forall₂_congr (fieldRight_of_decode h)

/-- The integers of an accepted text are the numbers it states, truncated toward zero, exactly
when each number is finite, has its integer part in the range of the field, and is not rounded
up to the next integer. -/
theorem wpMonitorGeometryDecodeJson_faithful_iff (json : Bytes) :
    (∀ g, wpMonitorGeometryDecodeJson json = some g → Faithful json g) ↔ NumbersFit json := by
  constructor
  · intro hfaithful hnumbers
    obtain ⟨g, hg⟩ := Option.isSome_iff_exists.mp
      ((isSome_wpMonitorGeometryDecodeJson_iff json).mpr hnumbers)
    exact (faithful_iff hg).mp (hfaithful g hg)
  · intro hfit g hg
    have haccepted : (wpMonitorGeometryDecodeJson json).isSome := by rw [hg]; rfl
    exact (faithful_iff hg).mpr
      (hfit ((isSome_wpMonitorGeometryDecodeJson_iff json).mp haccepted))

/-- A width below zero is converted to an unsigned integer. -/
theorem negative_width_accepted :
    ¬ ∀ json g, wpMonitorGeometryDecodeJson json = some g → Faithful json g := by
  intro hall
  obtain ⟨json, hjson⟩ : ∃ json, json = bytesOf ("\x7b\"x\":0,\"y\":0,\"width\":-1,\"height\":1," ++
    "\"logical_width\":1,\"logical_height\":1\x7d") := ⟨_, rfl⟩
  have hwidth : numberWritten json (bytesOf "width") = some (.number (-1)) := by
    rw [hjson]
    decide +kernel
  have haccepted : (wpMonitorGeometryDecodeJson json).isSome := by
    rw [hjson]
    decide +kernel
  obtain ⟨g, hg⟩ := Option.isSome_iff_exists.mp haccepted
  obtain ⟨q, d, z, hwritten, _, _, _, hvalue⟩ :=
    hall json g hg (bytesOf "width", uint32Range, g.width.toNat) (by simp [integerFields])
  obtain rfl : -1 = q := Written.number.inj (Option.some.inj (hwidth.symm.trans hwritten))
  have htruncate : truncate (-1) = -1 := by decide
  rw [htruncate] at hvalue
  change (g.width.toNat : ℤ) = -1 at hvalue
  omega

end Wallpiper.Ctl
