import Wallpiper.Ctl.Listener

/-!
# Responses as text

A response is one line.  The reader trims the line and tells the kinds of
responses apart by their first word.
-/

namespace Wallpiper.Ctl

open Foundations.CText Foundations.Doubles Foundations.DoubleText Foundations.QuotedKeys

def wpCtlResponseEncode (response : CtlResponse) (outLen : ℕ) : Option Bytes :=
  let text :=
    match response with
    | .ok => some (bytesOf "OK\n")
    | .err err => some (bytesOf "ERR " ++ cString err ++ [10])
    | .geometry geometry =>
        (wpMonitorGeometryEncodeJson geometry 256).map fun json ↦
          bytesOf "GEOMETRY " ++ json ++ [10]
    | .cursorPos x y =>
        some (bytesOf "CURSOR_POS " ++ decimalInt x.toInt ++ [32] ++ decimalInt y.toInt ++ [10])
  match text with
  | none => none
  | some out => if 0 < out.length ∧ out.length < outLen then some out else none

/-- `%d`, with the rest of the text. -/
def scanInt (s : Bytes) : Option (Int32 × Bytes) :=
  match scanNumber 10 s with
  | none => none
  | some _ =>
      let digits := (scanSign (s.dropWhile isSpace)).2
      some (Int32.ofInt (strtol 10 s), digits.drop (scanDigits 10 digits).length)

/-- `sscanf` with `"%d %d"`. -/
def scanTwoInts (s : Bytes) : Option (Int32 × Int32) := do
  let (x, rest) ← scanInt s
  let (y, _) ← scanInt (rest.dropWhile isSpace)
  some (x, y)

/-- The response on a trimmed line. -/
def responseOf (buf : Bytes) : Option CtlResponse :=
  if buf = bytesOf "OK" then some .ok
  else if bytesOf "ERR" <+: buf then some (.err (((buf.drop 3).dropWhile isBlank).take 255))
  else if bytesOf "GEOMETRY " <+: buf then
    (wpMonitorGeometryDecodeJson (buf.drop 9)).map .geometry
  else if bytesOf "CURSOR_POS " <+: buf then
    (scanTwoInts (buf.drop 11)).map fun (x, y) ↦ .cursorPos x y
  else none

def wpCtlResponseParse (line : Bytes) : Option CtlResponse :=
  let buf := cString line
  if buf.length = 0 ∨ buf.length ≥ 512 then none else responseOf (trim buf)

/-! ## Lines -/

def isTrimmed (c : UInt8) : Bool := c == 10 || c == 13 || c == 32 || c == 9

/-- A line without blanks around it loses its newline only. -/
theorem trim_line {body : Bytes} (hhead : ∀ c ∈ body.head?, isBlank c = false)
    (hlast : ∀ c ∈ body.getLast?, isTrimmed c = false) : trim (body ++ [10]) = body := by
  have hend : (body ++ [10]).rdropWhile isTrimmed = body := by
    rw [List.rdropWhile_concat_pos _ _ _ (by decide), List.rdropWhile_eq_self_iff]
    intro hne
    rw [hlast _ (List.getLast?_eq_some_getLast hne)]
    exact Bool.false_ne_true
  have hstart : body.dropWhile isBlank = body := by
    cases body with
    | nil => rfl
    | cons c body =>
        rw [List.dropWhile_cons_of_neg]
        rw [hhead c rfl]
        exact Bool.false_ne_true
  change ((body ++ [10]).rdropWhile isTrimmed).dropWhile isBlank = body
  rw [hend, hstart]

/-! ## Integers -/

theorem scanInt_decimalInt_append (z : Int32) {rest : Bytes} (hrest : scanDigits 10 rest = []) :
    scanInt (decimalInt z.toInt ++ rest) = some (z, rest) := by
  have hsign := scanSign_decimalInt_append z.toInt rest
  have hdigits : scanDigits 10 (decimal z.toInt.natAbs ++ rest) =
      numeralDigits 10 z.toInt.natAbs := by
    rw [decimal, numeral_eq_map]
    exact scanDigits_map_append (by omega) (fun d hd ↦ lt_of_mem_numeralDigits (by omega) hd) hrest
  have hscan : scanNumber 10 (decimalInt z.toInt ++ rest) = scanNumber 10 (decimalInt z.toInt) := by
    rw [scanNumber_decimalInt, scanNumber]
    simp only [hsign, skipHexPrefix_ten, hdigits, if_neg numeralDigits_ne_nil,
      digitsValue_numeralDigits]
  have hvalue : strtol 10 (decimalInt z.toInt ++ rest) = z.toInt := by
    obtain ⟨hlow, hhigh⟩ := int32_bounds z
    rw [strtol, hscan]
    exact strtol_decimalInt (by omega) (by omega)
  have hlength : (numeralDigits 10 z.toInt.natAbs).length = (decimal z.toInt.natAbs).length := by
    rw [decimal, numeral_eq_map, List.length_map]
  rw [scanInt, hscan, scanNumber_decimalInt]
  simp only [hsign, hdigits, hvalue, hlength, List.drop_left, Int32.ofInt_toInt]

theorem scanTwoInts_decimalInt (x y : Int32) :
    scanTwoInts (decimalInt x.toInt ++ [32] ++ decimalInt y.toInt) = some (x, y) := by
  have hfirst : scanInt (decimalInt x.toInt ++ 32 :: decimalInt y.toInt) = some (x, _) :=
    scanInt_decimalInt_append x rfl
  have hsecond : scanInt (decimalInt y.toInt ++ []) = some (y, []) :=
    scanInt_decimalInt_append y rfl
  have hblank : (32 :: decimalInt y.toInt).dropWhile isSpace = decimalInt y.toInt := by
    rw [List.dropWhile_cons_of_pos (by decide), dropWhile_isSpace_decimalInt]
  rw [List.append_nil] at hsecond
  rw [List.append_assoc, List.singleton_append, scanTwoInts, hfirst]
  simp only [Option.bind_eq_bind, Option.bind_some, hblank, hsecond]

/-! ## Round trips -/

/-- A message that fits the response and that trimming leaves alone. -/
structure Sendable (err : Bytes) : Prop where
  length : err.length ≤ 255
  plain : ∀ c ∈ err, c ≠ 0 ∧ c ≠ 10
  head : ∀ c ∈ err.head?, c ≠ 32 ∧ c ≠ 9 ∧ c ≠ 13
  last : ∀ c ∈ err.getLast?, c ≠ 32 ∧ c ≠ 9 ∧ c ≠ 13

def CtlResponse.IsSendable : CtlResponse → Prop
  | .err message => Sendable message
  | _ => True

/-- The reader gets the same response; the scale is the number that was printed. -/
def CtlResponse.ReadAs (response response' : CtlResponse) : Prop :=
  match response with
  | .geometry g =>
      ∃ text scale, scaleText g.scale = some text ∧ strtod text = some scale ∧
        response' = .geometry { g with scale }
  | _ => response' = response

theorem wpCtlResponseParse_line {body trimmed : Bytes} (hplain : ∀ c ∈ body, c ≠ 0)
    (hlength : body.length < 511) (htrim : trim (body ++ [10]) = trimmed) :
    wpCtlResponseParse (body ++ [10]) = responseOf trimmed := by
  have hbuf : cString (body ++ [10]) = body ++ [10] := by
    apply cString_of_nonul
    intro c hc
    rcases List.mem_append.mp hc with hc | hc
    · exact hplain c hc
    · rw [List.mem_singleton.mp hc]
      decide
  have hfits : ¬ ((body ++ [10]).length = 0 ∨ (body ++ [10]).length ≥ 512) := by
    rw [List.length_append, List.length_singleton]
    omega
  simp only [wpCtlResponseParse, hbuf, if_neg hfits, htrim]

theorem responseOf_err {err : Bytes} (h : Sendable err) :
    responseOf (trim (bytesOf "ERR " ++ err ++ [10])) = some (.err err) := by
  cases err with
  | nil => rfl
  | cons c err =>
      have hblank : ¬ isBlank c = true := by
        obtain ⟨hspace, htab, _⟩ := h.head c rfl
        simp [isBlank, hspace, htab]
      have htrim : trim (bytesOf "ERR " ++ c :: err ++ [10]) = bytesOf "ERR " ++ c :: err := by
        apply trim_line
        · intro b hb
          obtain rfl := Option.some.inj hb
          rfl
        · intro b hb
          rw [List.getLast?_append_of_ne_nil _ (List.cons_ne_nil c err)] at hb
          obtain ⟨hspace, htab, hreturn⟩ := h.last b hb
          have hnewline := (h.plain b (List.mem_of_mem_getLast? hb)).2
          simp [isTrimmed, hspace, htab, hreturn, hnewline]
      have hok : bytesOf "ERR " ++ c :: err ≠ bytesOf "OK" := fun heq ↦
        absurd (List.cons.inj heq).1 (by decide)
      have hprefix : bytesOf "ERR" <+: bytesOf "ERR " ++ c :: err := ⟨32 :: c :: err, rfl⟩
      have hrest : (bytesOf "ERR " ++ c :: err).drop 3 = 32 :: c :: err := rfl
      rw [htrim, responseOf, if_neg hok, if_pos hprefix, hrest,
        List.dropWhile_cons_of_pos (by decide), List.dropWhile_cons_of_neg hblank,
        List.take_of_length_le h.length]

/-- Words with different first letters are told apart. -/
theorem not_prefix_of_head_ne {c d : UInt8} {word s : Bytes} (h : c ≠ d) :
    ¬ c :: word <+: d :: s := fun hprefix ↦ h (List.cons_prefix_cons.mp hprefix).1

theorem responseOf_geometry (json : Bytes) :
    responseOf (bytesOf "GEOMETRY " ++ json) =
      (wpMonitorGeometryDecodeJson json).map .geometry := by
  have hok : bytesOf "GEOMETRY " ++ json ≠ bytesOf "OK" := fun h ↦
    absurd (List.cons.inj h).1 (by decide)
  have herr : ¬ bytesOf "ERR" <+: bytesOf "GEOMETRY " ++ json :=
    not_prefix_of_head_ne (by decide)
  rw [responseOf, if_neg hok, if_neg herr, if_pos (List.prefix_append _ _)]
  rfl

theorem responseOf_cursorPos (text : Bytes) :
    responseOf (bytesOf "CURSOR_POS " ++ text) =
      (scanTwoInts text).map fun (x, y) ↦ .cursorPos x y := by
  have hok : bytesOf "CURSOR_POS " ++ text ≠ bytesOf "OK" := fun h ↦
    absurd (List.cons.inj h).1 (by decide)
  have herr : ¬ bytesOf "ERR" <+: bytesOf "CURSOR_POS " ++ text :=
    not_prefix_of_head_ne (by decide)
  have hgeometry : ¬ bytesOf "GEOMETRY " <+: bytesOf "CURSOR_POS " ++ text :=
    not_prefix_of_head_ne (by decide)
  rw [responseOf, if_neg hok, if_neg herr, if_neg hgeometry, if_pos (List.prefix_append _ _)]
  rfl

/-- A body as the encoder prints it: on one line and short enough. -/
structure LineBody (body : Bytes) : Prop where
  plain : ∀ c ∈ body, c ≠ 0 ∧ c ≠ 10
  length : body.length < 511

theorem LineBody.append {word rest : Bytes} (hword : ∀ c ∈ word, c ≠ 0 ∧ c ≠ 10)
    (hrest : ∀ c ∈ rest, c ≠ 0 ∧ c ≠ 10) (hlength : word.length + rest.length < 511) :
    LineBody (word ++ rest) := by
  refine ⟨fun c hc ↦ ?_, by rwa [List.length_append]⟩
  rcases List.mem_append.mp hc with hc | hc
  · exact hword c hc
  · exact hrest c hc

theorem encode_fits {body : Bytes} (h : LineBody body) :
    0 < (body ++ [10]).length ∧ (body ++ [10]).length < 512 := by
  have hlength := h.length
  rw [List.length_append, List.length_singleton]
  omega

/-- The line that is printed for a response, and what is read from it. -/
def CtlResponse.RoundTrips (response : CtlResponse) : Prop :=
  ∃ body, LineBody body ∧ wpCtlResponseEncode response 512 = some (body ++ [10]) ∧
    ∃ response', responseOf (trim (body ++ [10])) = some response' ∧ response.ReadAs response'

theorem roundTrips_err {message : Bytes} (h : Sendable message) :
    (CtlResponse.err message).RoundTrips := by
  have hstring : cString message = message := cString_of_nonul fun c hc ↦ (h.plain c hc).1
  have hword : (bytesOf "ERR ").length = 4 := rfl
  have hmessage := h.length
  have hbody : LineBody (bytesOf "ERR " ++ message) :=
    .append (by decide +kernel) h.plain (by omega)
  refine ⟨_, hbody, ?_, .err message, responseOf_err h, rfl⟩
  simp only [wpCtlResponseEncode, hstring]
  exact if_pos (encode_fits hbody)

theorem roundTrips_geometry (g : MonitorGeometry) : (CtlResponse.geometry g).RoundTrips := by
  obtain ⟨text, htext, hreal, hlength, hsome⟩ := scaleText_isSome g.scale
  obtain ⟨scale, hscale⟩ := Option.isSome_iff_exists.mp hsome
  have hquote : 34 ∉ text := fun hmem ↦ absurd (hreal 34 hmem) (by decide)
  have hword : (bytesOf "GEOMETRY ").length = 9 := rfl
  have hjson := length_objectText_le g hlength
  have hbody : LineBody (bytesOf "GEOMETRY " ++ objectText (geometryMembers g text)) :=
    .append (by decide +kernel) (fun c hc ↦ plain_of_mem_objectText hreal hc) (by omega)
  have htrim : trim (bytesOf "GEOMETRY " ++ objectText (geometryMembers g text) ++ [10]) =
      bytesOf "GEOMETRY " ++ objectText (geometryMembers g text) := by
    apply trim_line
    · intro c hc
      obtain rfl := Option.some.inj hc
      rfl
    · intro c hc
      rw [objectText, ← List.cons_append, ← List.append_assoc, List.getLast?_concat] at hc
      obtain rfl := Option.some.inj hc
      rfl
  refine ⟨_, hbody, ?_, .geometry { g with scale }, ?_, text, scale, htext, hscale, rfl⟩
  · simp only [wpCtlResponseEncode, wpMonitorGeometryEncodeJson_eq g htext hlength]
    exact if_pos (encode_fits hbody)
  · rw [htrim, responseOf_geometry,
      wpMonitorGeometryDecodeJson_objectText g hquote (List.Perm.refl _), hscale]
    rfl

theorem plain_of_mem_decimalInt {z : ℤ} {c : UInt8} (hc : c ∈ decimalInt z) :
    (c ≠ 0 ∧ c ≠ 10) ∧ isTrimmed c = false := by
  have key : ∀ c ∈ [(0 : UInt8), 10, 13, 32, 9], isNumeralByte c = false := by decide +kernel
  have hnumeral := isNumeralByte_of_mem_decimalInt hc
  have hne : ∀ b ∈ [(0 : UInt8), 10, 13, 32, 9], c ≠ b := by
    rintro b hb rfl
    exact absurd hnumeral (by simp [key c hb])
  simp only [List.forall_mem_cons] at hne
  obtain ⟨hnul, hnewline, hreturn, hspace, htab, _⟩ := hne
  exact ⟨⟨hnul, hnewline⟩, by simp [isTrimmed, hnewline, hreturn, hspace, htab]⟩

theorem roundTrips_cursorPos (x y : Int32) : (CtlResponse.cursorPos x y).RoundTrips := by
  have hplain : ∀ c ∈ decimalInt x.toInt ++ [32] ++ decimalInt y.toInt, c ≠ 0 ∧ c ≠ 10 := by
    intro c hc
    rcases List.mem_append.mp hc with hc | hc
    · rcases List.mem_append.mp hc with hc | hc
      · exact (plain_of_mem_decimalInt hc).1
      · rw [List.mem_singleton.mp hc]
        decide
    · exact (plain_of_mem_decimalInt hc).1
  have htext : bytesOf "CURSOR_POS " ++ decimalInt x.toInt ++ [32] ++ decimalInt y.toInt =
      bytesOf "CURSOR_POS " ++ (decimalInt x.toInt ++ [32] ++ decimalInt y.toInt) := by
    simp only [List.append_assoc]
  have hbody : LineBody
      (bytesOf "CURSOR_POS " ++ (decimalInt x.toInt ++ [32] ++ decimalInt y.toInt)) := by
    have hword : (bytesOf "CURSOR_POS ").length = 11 := rfl
    have hx := decimalInt_i32_length_le x
    have hy := decimalInt_i32_length_le y
    refine .append (by decide +kernel) hplain ?_
    rw [List.length_append, List.length_append, List.length_singleton]
    omega
  have htrim : trim (bytesOf "CURSOR_POS " ++
      (decimalInt x.toInt ++ [32] ++ decimalInt y.toInt) ++ [10]) =
      bytesOf "CURSOR_POS " ++ (decimalInt x.toInt ++ [32] ++ decimalInt y.toInt) := by
    apply trim_line
    · intro c hc
      obtain rfl := Option.some.inj hc
      rfl
    · intro c hc
      rw [← List.append_assoc, List.getLast?_append_of_ne_nil _ (decimalInt_ne_nil _)] at hc
      exact (plain_of_mem_decimalInt (List.mem_of_mem_getLast? hc)).2
  refine ⟨_, hbody, ?_, .cursorPos x y, ?_, rfl⟩
  · simp only [wpCtlResponseEncode, htext]
    exact if_pos (encode_fits hbody)
  · rw [htrim, responseOf_cursorPos, scanTwoInts_decimalInt]
    rfl

theorem roundTrips_of_isSendable {response : CtlResponse} (h : response.IsSendable) :
    response.RoundTrips := by
  cases response with
  | ok => exact ⟨bytesOf "OK", ⟨by decide +kernel, by decide⟩, by decide, .ok, by decide, rfl⟩
  | err message => exact roundTrips_err h
  | geometry g => exact roundTrips_geometry g
  | cursorPos x y => exact roundTrips_cursorPos x y

/-- Every response comes back from its line, and the integers of a geometry from
an object with the members in any order. -/
theorem ctlResponse_roundTrip :
    (∀ response : CtlResponse, response.IsSendable →
      ∃ body, wpCtlResponseEncode response 512 = some (body ++ [10]) ∧ 10 ∉ body ∧
        ∃ response', wpCtlResponseParse (body ++ [10]) = some response' ∧
          response.ReadAs response') ∧
    ∀ (g : MonitorGeometry) (number : Bytes), (∀ c ∈ number, c ≠ 0 ∧ c ≠ 34) →
      ∀ members : List (Bytes × Bytes), members.Perm (geometryMembers g number) →
        ∃ scale, wpMonitorGeometryDecodeJson (objectText members) = some { g with scale } := by
  constructor
  · intro response h
    obtain ⟨body, hbody, hencode, response', hresponse, hread⟩ := roundTrips_of_isSendable h
    refine ⟨body, hencode, fun hmem ↦ (hbody.plain 10 hmem).2 rfl, response', ?_, hread⟩
    rwa [wpCtlResponseParse_line (fun c hc ↦ (hbody.plain c hc).1) hbody.length rfl]
  · intro g number hnumber members hperm
    exact ⟨_, wpMonitorGeometryDecodeJson_objectText g (fun hmem ↦ (hnumber 34 hmem).2 rfl) hperm⟩

/-- A monitor with the members of its object sorted by key. -/
def sampleGeometry : MonitorGeometry :=
  { x := -1920, y := 0, width := 3840, height := 2160, logicalWidth := 1920, logicalHeight := 1080
    scale := Float.Model.ofNat 2 }

theorem ctlResponse_roundTrip_sorted :
    (∃ body, wpCtlResponseEncode (.err (bytesOf "no monitor")) 512 = some (body ++ [10]) ∧
      10 ∉ body ∧ ∃ response', wpCtlResponseParse (body ++ [10]) = some response' ∧
        (CtlResponse.err (bytesOf "no monitor")).ReadAs response') ∧
    ∃ scale, wpMonitorGeometryDecodeJson (objectText
      [(bytesOf "height", decimal 2160), (bytesOf "logical_height", decimal 1080),
        (bytesOf "logical_width", decimal 1920), (bytesOf "scale", decimal 2),
        (bytesOf "width", decimal 3840), (bytesOf "x", decimalInt (-1920)),
        (bytesOf "y", decimalInt 0)]) = some { sampleGeometry with scale } :=
  ⟨ctlResponse_roundTrip.1 _
      ⟨by decide, by decide +kernel, by decide +kernel, by decide +kernel⟩,
    ctlResponse_roundTrip.2 sampleGeometry (decimal 2) (by decide +kernel) _ (by decide)⟩

end Wallpiper.Ctl
