import Wallpiper.Foundations.DoubleText
import Wallpiper.Foundations.QuotedKeys

/-!
# Monitor geometry as JSON

The six integers and the scale of a monitor are printed as a compact object and
read back by looking for each quoted key in the text.
-/

namespace Wallpiper.Ctl

open Foundations.CText Foundations.Doubles Foundations.DoubleText Foundations.QuotedKeys

structure MonitorGeometry where
  x : Int32
  y : Int32
  width : UInt32
  height : UInt32
  logicalWidth : UInt32
  logicalHeight : UInt32
  scale : Double
  deriving DecidableEq, Repr

/-- The scale always shows that it is no integer. -/
def scaleText (scale : Double) : Option Bytes :=
  let scaleBuf := formatG6 scale
  if scaleBuf.length = 0 ∨ 64 ≤ scaleBuf.length then none
  else if 46 ∉ scaleBuf ∧ 101 ∉ scaleBuf ∧ 110 ∉ scaleBuf then
    if 64 ≤ scaleBuf.length + 2 then none else some (scaleBuf ++ bytesOf ".0")
  else some scaleBuf

def wpMonitorGeometryEncodeJson (g : MonitorGeometry) (outLen : ℕ) : Option Bytes :=
  match scaleText g.scale with
  | none => none
  | some scaleBuf =>
      let text := bytesOf "\x7b\"x\":" ++ decimalInt g.x.toInt ++
        bytesOf ",\"y\":" ++ decimalInt g.y.toInt ++
        bytesOf ",\"width\":" ++ decimal g.width.toNat ++
        bytesOf ",\"height\":" ++ decimal g.height.toNat ++
        bytesOf ",\"logical_width\":" ++ decimal g.logicalWidth.toNat ++
        bytesOf ",\"logical_height\":" ++ decimal g.logicalHeight.toNat ++
        bytesOf ",\"scale\":" ++ scaleBuf ++ bytesOf "\x7d"
      if 0 < text.length ∧ text.length < outLen then some text else none

def isBlank (c : UInt8) : Bool := c == 32 || c == 9

def findNumber (json key : Bytes) : Option Double :=
  let pattern := quoted key
  if 40 ≤ pattern.length then none
  else
    match (afterFirst pattern json).map (List.dropWhile isBlank) with
    | some (58 :: p) => strtod (p.dropWhile isBlank)
    | _ => none

/-- The conversions to integers are exact here; outside the range of the type C
leaves them undefined. -/
def wpMonitorGeometryDecodeJson (json : Bytes) : Option MonitorGeometry := do
  let x ← findNumber json (bytesOf "x")
  let y ← findNumber json (bytesOf "y")
  let width ← findNumber json (bytesOf "width")
  let height ← findNumber json (bytesOf "height")
  let logicalWidth ← findNumber json (bytesOf "logical_width")
  let logicalHeight ← findNumber json (bytesOf "logical_height")
  let scale := (findNumber json (bytesOf "scale")).getD (Float.Model.ofNat 1)
  some {
    x := x.toInt32, y := y.toInt32, width := width.toUInt32, height := height.toUInt32
    logicalWidth := logicalWidth.toUInt32, logicalHeight := logicalHeight.toUInt32, scale }

/-! ## The members -/

def geometryMembers (g : MonitorGeometry) (scale : Bytes) : List (Bytes × Bytes) :=
  [(bytesOf "x", decimalInt g.x.toInt), (bytesOf "y", decimalInt g.y.toInt),
    (bytesOf "width", decimal g.width.toNat), (bytesOf "height", decimal g.height.toNat),
    (bytesOf "logical_width", decimal g.logicalWidth.toNat),
    (bytesOf "logical_height", decimal g.logicalHeight.toNat), (bytesOf "scale", scale)]

/-- `strtod` skips blanks anyway. -/
theorem strtod_dropWhile_isBlank (s : Bytes) : strtod (s.dropWhile isBlank) = strtod s := by
  have hspace : (s.dropWhile isBlank).dropWhile isSpace = s.dropWhile isSpace := by
    induction s with
    | nil => rfl
    | cons c s ih =>
        by_cases hc : isBlank c = true
        · have hspace : isSpace c = true := by
            simp only [isBlank, Bool.or_eq_true, beq_iff_eq] at hc
            rcases hc with rfl | rfl <;> decide
          rw [List.dropWhile_cons_of_pos hc, List.dropWhile_cons_of_pos hspace, ih]
        · rw [List.dropWhile_cons_of_neg hc]
  rw [strtod, hspace]
  rfl

def geometryKeys : List Bytes :=
  [bytesOf "x", bytesOf "y", bytesOf "width", bytesOf "height", bytesOf "logical_width",
    bytesOf "logical_height", bytesOf "scale"]

theorem geometryMembers_keys (g : MonitorGeometry) (scale : Bytes) :
    (geometryMembers g scale).map Prod.fst = geometryKeys := rfl

theorem isKey_of_mem {g : MonitorGeometry} {scale : Bytes} {m : Bytes × Bytes}
    (hm : m ∈ geometryMembers g scale) : IsKey m.1 ∧ (quoted m.1).length < 40 := by
  have key : ∀ k ∈ geometryKeys, IsKey k ∧ (quoted k).length < 40 := by decide
  apply key
  rw [← geometryMembers_keys g scale]
  exact List.mem_map_of_mem hm

/-- The values but the scale are integers. -/
theorem mem_value_cases {g : MonitorGeometry} {scale : Bytes} {m : Bytes × Bytes}
    (hm : m ∈ geometryMembers g scale) {c : UInt8} (hc : c ∈ m.2) :
    isNumeralByte c = true ∨ c ∈ scale := by
  have hnat : ∀ n : ℕ, c ∈ decimal n → isNumeralByte c = true := fun n hn ↦
    isNumeralByte_of_mem_numeral (by omega) (by omega) hn
  simp only [geometryMembers, List.mem_cons, List.not_mem_nil, or_false] at hm
  rcases hm with rfl | rfl | rfl | rfl | rfl | rfl | rfl
  · exact .inl (isNumeralByte_of_mem_decimalInt hc)
  · exact .inl (isNumeralByte_of_mem_decimalInt hc)
  · exact .inl (hnat _ hc)
  · exact .inl (hnat _ hc)
  · exact .inl (hnat _ hc)
  · exact .inl (hnat _ hc)
  · exact .inr hc

theorem quote_not_mem_value {g : MonitorGeometry} {scale : Bytes} (hscale : 34 ∉ scale)
    {m : Bytes × Bytes} (hm : m ∈ geometryMembers g scale) : 34 ∉ m.2 := by
  intro hquote
  rcases mem_value_cases hm hquote with hnumeral | hquote
  · exact absurd hnumeral (by decide)
  · exact hscale hquote

/-- Each number is found behind its key, in whatever order the members are. -/
theorem findNumber_member {g : MonitorGeometry} {scale : Bytes} (hscale : 34 ∉ scale)
    {members : List (Bytes × Bytes)} (hperm : members.Perm (geometryMembers g scale))
    {key value : Bytes} (hm : (key, value) ∈ geometryMembers g scale) :
    findNumber (objectText members) key = strtod value := by
  have hnodup : (members.map Prod.fst).Nodup := by
    have hkeys : geometryKeys.Nodup := by decide
    exact (hperm.map Prod.fst).nodup_iff.mpr hkeys
  obtain ⟨c, hc, rest, hafter⟩ := afterFirst_objectText
    (fun m hm ↦ (isKey_of_mem (hperm.mem_iff.mp hm)).1)
    (fun m hm ↦ quote_not_mem_value hscale (hperm.mem_iff.mp hm)) hnodup (hperm.mem_iff.mpr hm)
  have hshort : (quoted key).length < 40 := (isKey_of_mem hm).2
  have hcolon : (58 :: (value ++ c :: rest)).dropWhile isBlank = 58 :: (value ++ c :: rest) :=
    List.dropWhile_cons_of_neg (by decide)
  rw [findNumber, if_neg (by omega), hafter, Option.map_some, hcolon]
  exact (strtod_dropWhile_isBlank _).trans (strtod_append hc value rest)

theorem strtod_decimal (n : ℕ) : strtod (decimal n) = some (ofSigned false n) := by
  have hprinted : decimalInt n = decimal n := by
    rw [decimalInt, if_neg (by omega), Int.natAbs_natCast]
  rw [← hprinted, strtod_decimalInt, decide_eq_false (by omega), Int.natAbs_natCast]

theorem wpMonitorGeometryDecodeJson_objectText (g : MonitorGeometry) {scale : Bytes}
    (hscale : 34 ∉ scale) {members : List (Bytes × Bytes)}
    (hperm : members.Perm (geometryMembers g scale)) :
    wpMonitorGeometryDecodeJson (objectText members) =
      some { g with scale := (strtod scale).getD (Float.Model.ofNat 1) } := by
  have hfind : ∀ m ∈ geometryMembers g scale,
      findNumber (objectText members) m.1 = strtod m.2 :=
    fun m hm ↦ findNumber_member hscale hperm hm
  simp only [geometryMembers, List.forall_mem_cons] at hfind
  obtain ⟨hx, hy, hwidth, hheight, hlogicalWidth, hlogicalHeight, hscale', _⟩ := hfind
  simp only [strtod_decimalInt, strtod_decimal] at hx hy hwidth hheight hlogicalWidth hlogicalHeight
  simp only [wpMonitorGeometryDecodeJson, hx, hy, hwidth, hheight, hlogicalWidth, hlogicalHeight,
    hscale', Option.bind_eq_bind, Option.bind_some, toInt32_ofSigned, toUInt32_ofSigned]

/-! ## The printed object -/

theorem scaleText_isSome (scale : Double) :
    ∃ text, scaleText scale = some text ∧ (∀ c ∈ text, isRealByte c = true) ∧ text.length ≤ 15 ∧
      (strtod text).isSome := by
  have hbytes := isRealByte_of_mem_formatG6 scale
  have hlength := length_formatG6_le scale
  have hpoint := strtod_formatG6_isSome scale (bytesOf ".0")
  have hplain := strtod_formatG6_isSome scale []
  rw [List.append_nil] at hplain
  have hne : formatG6 scale ≠ [] := by
    intro hnil
    rw [hnil] at hplain
    exact absurd hplain (by decide)
  have hpos := List.length_pos_of_ne_nil hne
  rw [scaleText, if_neg (by omega)]
  split
  · rw [if_neg (by omega)]
    refine ⟨_, rfl, ?_, ?_, hpoint⟩
    · intro c hc
      rcases List.mem_append.mp hc with hc | hc
      · exact hbytes c hc
      · have key : ∀ c ∈ bytesOf ".0", isRealByte c = true := by decide +kernel
        exact key c hc
    · have hzero : (bytesOf ".0").length = 2 := rfl
      rw [List.length_append]
      omega
  · exact ⟨_, rfl, hbytes, by omega, hplain⟩

theorem objectText_geometryMembers (g : MonitorGeometry) (text : Bytes) :
    bytesOf "\x7b\"x\":" ++ decimalInt g.x.toInt ++
        bytesOf ",\"y\":" ++ decimalInt g.y.toInt ++
        bytesOf ",\"width\":" ++ decimal g.width.toNat ++
        bytesOf ",\"height\":" ++ decimal g.height.toNat ++
        bytesOf ",\"logical_width\":" ++ decimal g.logicalWidth.toNat ++
        bytesOf ",\"logical_height\":" ++ decimal g.logicalHeight.toNat ++
        bytesOf ",\"scale\":" ++ text ++ bytesOf "\x7d" =
      objectText (geometryMembers g text) := by
  simp only [geometryMembers, objectText, List.map_cons, List.map_nil, memberText, quoted,
    List.intercalate_cons_cons, List.intercalate_singleton, List.append_assoc, List.cons_append,
    List.nil_append]
  rfl

theorem length_objectText_le (g : MonitorGeometry) {text : Bytes} (htext : text.length ≤ 15) :
    (objectText (geometryMembers g text)).length ≤ 161 := by
  have h₁ := decimalInt_i32_length_le g.x
  have h₂ := decimalInt_i32_length_le g.y
  have h₃ := decimal_u32_length_le g.width
  have h₄ := decimal_u32_length_le g.height
  have h₅ := decimal_u32_length_le g.logicalWidth
  have h₆ := decimal_u32_length_le g.logicalHeight
  have hkeys : ∀ k ∈ [("x", 1), ("y", 1), ("width", 5), ("height", 6), ("logical_width", 13),
      ("logical_height", 14), ("scale", 5)], (bytesOf k.1).length = k.2 := by decide
  simp only [List.forall_mem_cons] at hkeys
  simp only [geometryMembers, objectText, List.map_cons, List.map_nil, memberText, quoted,
    List.intercalate_cons_cons, List.intercalate_singleton, List.length_cons, List.length_append,
    List.length_nil, hkeys]
  omega

/-- The object is on one line. -/
theorem plain_of_mem_objectText {g : MonitorGeometry} {text : Bytes}
    (h : ∀ c ∈ text, isRealByte c = true) {c : UInt8}
    (hc : c ∈ objectText (geometryMembers g text)) : c ≠ 0 ∧ c ≠ 10 := by
  have hreal : ∀ c, isRealByte c = true → c ≠ 0 ∧ c ≠ 10 := by
    intro c hc
    constructor
    · rintro rfl
      exact absurd hc (by decide)
    · rintro rfl
      exact absurd hc (by decide)
  rcases mem_objectText hc with hc | ⟨m, hm, hc | hc⟩
  · have key : ∀ c ∈ [(34 : UInt8), 44, 58, 123, 125], c ≠ 0 ∧ c ≠ 10 := by decide +kernel
    exact key c hc
  · have key : ∀ k ∈ geometryKeys, 0 ∉ k ∧ 10 ∉ k := by decide
    obtain ⟨hnul, hnewline⟩ := key m.1 (geometryMembers_keys g text ▸ List.mem_map_of_mem hm)
    exact ⟨ne_of_mem_of_not_mem hc hnul, ne_of_mem_of_not_mem hc hnewline⟩
  · rcases mem_value_cases hm hc with hnumeral | hc
    · exact hreal c (by rw [isRealByte, hnumeral]; rfl)
    · exact hreal c (h c hc)

theorem wpMonitorGeometryEncodeJson_eq (g : MonitorGeometry) {text : Bytes}
    (htext : scaleText g.scale = some text) (hlength : text.length ≤ 15) :
    wpMonitorGeometryEncodeJson g 256 = some (objectText (geometryMembers g text)) := by
  have hle := length_objectText_le g hlength
  have hpos : 0 < (objectText (geometryMembers g text)).length := Nat.succ_pos _
  rw [wpMonitorGeometryEncodeJson, htext]
  simp only [objectText_geometryMembers]
  exact if_pos ⟨hpos, by omega⟩

end Wallpiper.Ctl
