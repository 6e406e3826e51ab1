import Wallpiper.Ctl.Connections
import Wallpiper.Ctl.DaemonCommands
import Wallpiper.Ctl.ResponseText

/-!
# One client, three listeners

The daemon asks a portal with one line and reads one line back.  The wayland and
the i3 portals share a listener whose thread waits for the main loop, KDE and GNOME
have their own ones, and each of the three reads requests and prints responses in
its own way.  Either side may see only the front of what the other one wrote.
-/

namespace Wallpiper.Ctl.Exchange

open Foundations Foundations.CText Foundations.Doubles Foundations.DoubleText
  Foundations.QuotedKeys
open Capture.Gnome (gStrstrip)
open Ctl.Daemon (Transport readLine_isPrefix)

/-! ## The daemon's side -/

def requestText : CtlRequest → Bytes
  | .geometry => bytesOf "GEOMETRY\n"
  | .detach => bytesOf "DETACH\n"
  | .debugOn => bytesOf "DEBUG_ON\n"
  | .debugOff => bytesOf "DEBUG_OFF\n"
  | .cursorPos => bytesOf "CURSOR_POS\n"
  | .ping => bytesOf "PING\n"

def wpCtlRequestEncode (request : CtlRequest) (outLen : ℕ) : Option Bytes :=
  let text := requestText request
  if 0 < text.length ∧ text.length < outLen then some text else none

/-- The requests that the portal has handled for a connection, the response it
means and the text that it prints. -/
structure Served where
  handled : List CtlRequest
  response : Option CtlResponse
  text : Bytes
  deriving DecidableEq

def Served.nothing : Served := ⟨[], none, []⟩

abbrev Listener := Bytes → Option Served

/-- What the daemon gets, and what was done for its connection. -/
def wpSendCtlRequest (t : Transport) (serve : Listener) (request : CtlRequest) :
    Option (Option CtlResponse × Served) :=
  match wpCtlRequestEncode request 32 with
  | none => some (none, .nothing)
  | some reqLine =>
      (serve (reqLine.take t.sent)).map fun served ↦
        if t.sent < reqLine.length then (none, served)
        else
          let respLine := readLine 512 (served.text.take t.replied)
          (if respLine = [] then none else wpCtlResponseParse respLine, served)

/-! ## The listeners -/

def unrecognized : CtlResponse := .err (bytesOf "unrecognized command")

/-- The main loop has handled what it computed, and the callback the cursor
requests that it answered. -/
def handledFor (hasCursorFn : Bool) (conn : ℕ) (s : CtlState) : List CtlRequest :=
  (s.computed.filter (·.1.conn = conn)).map (·.1.request) ++
    if hasCursorFn then
      (s.written.filter fun e ↦ e.1.conn = conn ∧ e.1.request = .cursorPos).map (·.1.request)
    else []

/-- What the thread of `ctl_protocol.c` has done for the connection in a state. -/
def commonServed (hasCursorFn : Bool) (conn : ℕ) (arrived : Bytes) (s : CtlState) : Served :=
  let line := readLine 512 arrived
  if line = [] then .nothing
  else
    match wpCtlRequestParse line with
    | none => ⟨[], some unrecognized, (wpCtlResponseEncode unrecognized 64).getD []⟩
    | some _ =>
        let response := (s.written.find? (·.1.conn = conn)).map Prod.snd
        { handled := handledFor hasCursorFn conn s
          response
          text := (response.bind (wpCtlResponseEncode · 512)).getD [] }

/-- The daemon connects after the steps `before`, and the two threads go on with
`during`. -/
def commonServe (hasCursorFn : Bool) (before during : List CtlLabel) : Listener := fun arrived ↦ do
  let s ← exec (ctlStep hasCursorFn) .initial before
  let t ← exec (ctlStep hasCursorFn) s (.accept arrived :: during)
  return commonServed hasCursorFn s.nextConn arrived t

/-- The comparisons that KDE and GNOME make. -/
def requestNamed (word : Bytes) : Option CtlRequest :=
  if word = bytesOf "GEOMETRY" then some .geometry
  else if word = bytesOf "DETACH" then some .detach
  else if word = bytesOf "DEBUG_ON" then some .debugOn
  else if word = bytesOf "DEBUG_OFF" then some .debugOff
  else if word = bytesOf "CURSOR_POS" then some .cursorPos
  else if word = bytesOf "PING" then some .ping
  else none

/-- The handlers that are set, with what the providers answer. -/
structure KdeHandlers where
  cursorPosProvider : Option (Option (Int32 × Int32))
  geometryProvider : Option (Option MonitorGeometry)
  detachHandler : Bool
  debugHandler : Bool
  deriving DecidableEq, Repr

def shuttingDown : CtlResponse := .err (bytesOf "listener shutting down")

/-- The handler that is called, and the response. -/
def KdeHandlers.handle (handlers : KdeHandlers) : CtlRequest → List CtlRequest × CtlResponse
  | .cursorPos =>
      match handlers.cursorPosProvider with
      | some (some (x, y)) => ([.cursorPos], .cursorPos x y)
      | some none => ([.cursorPos], .err (bytesOf "cursor position unavailable"))
      | none => ([], .err (bytesOf "cursor position unavailable"))
  | .geometry =>
      match handlers.geometryProvider with
      | some (some geometry) => ([.geometry], .geometry geometry)
      | some none => ([.geometry], .err (bytesOf "geometry unavailable"))
      | none => ([], shuttingDown)
  | .detach => if handlers.detachHandler then ([.detach], .ok) else ([], shuttingDown)
  | .debugOn => if handlers.debugHandler then ([.debugOn], .ok) else ([], shuttingDown)
  | .debugOff => if handlers.debugHandler then ([.debugOff], .ok) else ([], shuttingDown)
  | .ping => ([.ping], .ok)

/-- Qt keeps the members of an object sorted by their keys. -/
def toJson (qtNumber : Double → Bytes) (g : MonitorGeometry) : List (Bytes × Bytes) :=
  [(bytesOf "height", decimal g.height.toNat),
    (bytesOf "logical_height", decimal g.logicalHeight.toNat),
    (bytesOf "logical_width", decimal g.logicalWidth.toNat), (bytesOf "scale", qtNumber g.scale),
    (bytesOf "width", decimal g.width.toNat), (bytesOf "x", decimalInt g.x.toInt),
    (bytesOf "y", decimalInt g.y.toInt)]

def encodeCtlResponse (qtNumber : Double → Bytes) : CtlResponse → Bytes
  | .ok => bytesOf "OK\n"
  | .err message => bytesOf "ERR " ++ message ++ [10]
  | .geometry geometry => bytesOf "GEOMETRY " ++ objectText (toJson qtNumber geometry) ++ [10]
  | .cursorPos x y =>
      bytesOf "CURSOR_POS " ++ decimalInt x.toInt ++ [32] ++ decimalInt y.toInt ++ [10]

def parseCtlRequest (line : Bytes) : Option CtlRequest :=
  requestNamed ((line.rdropWhile isSpace).dropWhile isSpace)

/-- `CtlListener::handleConnection`, which stops reading behind 257 bytes. -/
def kdeServe (handlers : KdeHandlers) (qtNumber : Double → Bytes) : Listener := fun arrived ↦
  let line := (arrived.takeWhile (· ≠ 10)).take 257
  if line = [] then some .nothing
  else
    match parseCtlRequest line with
    | none => some ⟨[], some unrecognized, encodeCtlResponse qtNumber unrecognized⟩
    | some request =>
        let (handled, response) := handlers.handle request
        some ⟨handled, some response, encodeCtlResponse qtNumber response⟩

/-- The texts that GNOME prints, given where its pointer is. -/
def gnomeResponse (point : Int32 × Int32) : CtlRequest → Bytes
  | .geometry => bytesOf "ERR geometry detection disabled\n"
  | .cursorPos =>
      bytesOf "CURSOR_POS " ++ decimalInt point.1.toInt ++ [32] ++ decimalInt point.2.toInt ++ [10]
  | _ => bytesOf "OK\n"

def gnomeAnswer (point : Int32 × Int32) : CtlRequest → CtlResponse
  | .geometry => .err (bytesOf "geometry detection disabled")
  | .cursorPos => .cursorPos point.1 point.2
  | _ => .ok

/-- `on_ctl_socket_connectable`, which receives once. -/
def gnomeServe (point : Int32 × Int32) : Listener := fun arrived ↦
  let buf := arrived.take 255
  if buf = [] then some .nothing
  else
    match requestNamed (gStrstrip (cString buf)) with
    | none => some ⟨[], some unrecognized, bytesOf "ERR unrecognized command\n"⟩
    | some request =>
        some ⟨[request], some (gnomeAnswer point request), gnomeResponse point request⟩

inductive Portal where
  | common (hasCursorFn : Bool) (before during : List CtlLabel)
  | kde (handlers : KdeHandlers) (qtNumber : Double → Bytes)
  | gnome (point : Int32 × Int32)

def Portal.serve : Portal → Listener
  | .common hasCursorFn before during => commonServe hasCursorFn before during
  | .kde handlers qtNumber => kdeServe handlers qtNumber
  | .gnome point => gnomeServe point

/-- Qt prints a double with the digits that lead back to it. -/
structure ScaleText (number : Bytes) (scale : Double) : Prop where
  plain : ∀ c ∈ number, c ≠ 0 ∧ c ≠ 10 ∧ c ≠ 34
  length : number.length ≤ 32
  exact : strtod number = some scale

/-- What the listeners rely on: the callback's two answers, and Qt's numbers. -/
def Portal.Sound : Portal → Prop
  | .common _ before during =>
      ∀ response, .cursor response ∈ before ++ during → CallbackAnswer response
  | .kde handlers qtNumber =>
      ∀ g, handlers.geometryProvider = some (some g) → ScaleText (qtNumber g.scale) g.scale
  | .gnome _ => True

/-- No reply of the main loop comes when the next request is in the mailbox. -/
def Portal.InTime : Portal → Bytes → Prop
  | .common hasCursorFn before during, arrived =>
      Guarded (ctlStep hasCursorFn) RepliesInTime .initial (before ++ .accept arrived :: during)
  | .kde _ _, _ => True
  | .gnome _, _ => True

/-- What a portal does and says when the whole request arrives. -/
def Portal.Says (request : CtlRequest) (served : Served) : Portal → Prop
  | .common hasCursorFn _ _ => ∀ response ∈ served.response,
      if request = .cursorPos ∧ hasCursorFn = true then
        CallbackAnswer response ∧ request ∈ served.handled
      else
        response = timedOut ∨ response = handleCtlRequest request ∧ request ∈ served.handled
  | .kde handlers _ =>
      served.handled = (handlers.handle request).1 ∧
        served.response = some (handlers.handle request).2
  | .gnome point =>
      served.handled = [request] ∧ served.response = some (gnomeAnswer point request)

inductive ResponseKind where
  | ok
  | err
  | geometry
  | cursorPos
  deriving DecidableEq, Repr

def kind : CtlResponse → ResponseKind
  | .ok => .ok
  | .err _ => .err
  | .geometry _ => .geometry
  | .cursorPos _ _ => .cursorPos

/-- The kind of response with which a request has succeeded. -/
def success : CtlRequest → ResponseKind
  | .geometry => .geometry
  | .cursorPos => .cursorPos
  | .detach | .debugOn | .debugOff | .ping => .ok

/-- The kinds of responses differ in their first letters. -/
def letter : ResponseKind → UInt8
  | .ok => 79
  | .err => 69
  | .geometry => 71
  | .cursorPos => 67

theorem letter_injective : Function.Injective letter := by
  intro k k' h
  cases k <;> cases k' <;> first | rfl | exact absurd h (by decide)

/-! ## Fronts of a reply -/

theorem trim_head {c : UInt8} (hc : isTrimmed c = false) (s : Bytes) :
    (trim (c :: s)).head? = some c := by
  have hblank : ¬ isBlank c = true := by
    intro hblank
    simp only [isBlank, Bool.or_eq_true, beq_iff_eq] at hblank
    rcases hblank with rfl | rfl <;> exact absurd hc (by decide)
  have hne : (c :: s).rdropWhile isTrimmed ≠ [] := by
    intro hnil
    have hall := List.rdropWhile_eq_nil_iff.mp hnil c List.mem_cons_self
    exact absurd hall (by simp [hc])
  obtain ⟨d, front, hfront⟩ := List.exists_cons_of_ne_nil hne
  have hprefix : d :: front <+: c :: s := hfront ▸ List.rdropWhile_prefix _ _
  obtain rfl := (List.cons_prefix_cons.mp hprefix).1
  change (((d :: s).rdropWhile isTrimmed).dropWhile isBlank).head? = some d
  rw [hfront, List.dropWhile_cons_of_neg hblank]
  rfl

/-- The first letter of a line tells which kind of response is read from it. -/
theorem responseOf_letter {buf : Bytes} {response : CtlResponse}
    (h : responseOf buf = some response) : buf.head? = some (letter (kind response)) := by
  unfold responseOf at h
  split_ifs at h with hok herr hgeometry hcursor
  · obtain rfl := Option.some.inj h
    exact hok ▸ rfl
  · obtain rfl := Option.some.inj h
    obtain ⟨rest, rfl⟩ := herr
    rfl
  · obtain ⟨geometry, -, rfl⟩ := Option.map_eq_some_iff.mp h
    obtain ⟨rest, rfl⟩ := hgeometry
    rfl
  · obtain ⟨⟨x, y⟩, -, rfl⟩ := Option.map_eq_some_iff.mp h
    obtain ⟨rest, rfl⟩ := hcursor
    rfl

theorem parse_letter {c : UInt8} {s : Bytes} {response : CtlResponse} (hnul : c ≠ 0)
    (hc : isTrimmed c = false) (h : wpCtlResponseParse (c :: s) = some response) :
    letter (kind response) = c := by
  have hstring : cString (c :: s) = c :: cString s :=
    List.takeWhile_cons_of_pos (by simpa using hnul)
  simp only [wpCtlResponseParse, hstring] at h
  split at h
  · exact absurd h (by simp)
  · have hhead := (responseOf_letter h).symm.trans (trim_head hc (cString s))
    exact Option.some.inj hhead

theorem letter_plain (k : ResponseKind) : letter k ≠ 0 ∧ isTrimmed (letter k) = false := by
  cases k <;> decide

/-- A line from which the response is read, and that starts with its letter. -/
structure Printed (response : CtlResponse) (body : Bytes) : Prop where
  line : LineBody body
  head : body.head? = some (letter (kind response))
  read : responseOf (trim (body ++ [10])) = some response

namespace Printed

variable {response : CtlResponse} {body : Bytes}

theorem front (h : Printed response body) {n : ℕ} {got : CtlResponse}
    (hne : readLine 512 ((body ++ [10]).take n) ≠ [])
    (hgot : wpCtlResponseParse (readLine 512 ((body ++ [10]).take n)) = some got) :
    kind got = kind response := by
  obtain ⟨c, rest, hread⟩ := List.exists_cons_of_ne_nil hne
  obtain ⟨d, body, rfl⟩ : ∃ d rest, body = d :: rest := by
    cases body with
    | nil => exact absurd h.head (by simp)
    | cons d rest => exact ⟨d, rest, rfl⟩
  have hprefix : c :: rest <+: d :: (body ++ [10]) :=
    hread ▸ (readLine_isPrefix _ _).trans (List.take_prefix _ _)
  obtain rfl : c = d := (List.cons_prefix_cons.mp hprefix).1
  obtain rfl : c = letter (kind response) := Option.some.inj h.head
  obtain ⟨hnul, htrimmed⟩ := letter_plain (kind response)
  rw [hread] at hgot
  exact letter_injective (parse_letter hnul htrimmed hgot)

theorem whole (h : Printed response body) {n : ℕ} (hn : (body ++ [10]).length ≤ n) :
    readLine 512 ((body ++ [10]).take n) ≠ [] ∧
      wpCtlResponseParse (readLine 512 ((body ++ [10]).take n)) = some response := by
  have hlength := h.line.length
  have hcut : cutAt 10 (body ++ [10]) = some (body, []) :=
    cutAt_append_cons (fun c hc ↦ (h.line.plain c hc).2) []
  have hread : readLine 512 ((body ++ [10]).take n) = body ++ [10] := by
    have htake : ((body ++ [10]).take n).take (512 - 1) = body ++ [10] := by
      rw [List.take_of_length_le hn, List.take_of_length_le (by simp; omega)]
    simp only [readLine, htake, hcut]
  rw [hread]
  refine ⟨by simp, ?_⟩
  rw [wpCtlResponseParse_line (fun c hc ↦ (h.line.plain c hc).1) hlength rfl]
  exact h.read

end Printed

/-! ## What the listeners print -/

/-- A text that fits is written as it is. -/
theorem eq_of_fits {text out : Bytes} {n : ℕ}
    (h : (if 0 < text.length ∧ text.length < n then some text else none) = some out) :
    text = out :=
  Option.some.inj (Option.ite_none_right_eq_some.mp h).2

theorem encode_letter {response : CtlResponse} {n : ℕ} {out : Bytes}
    (h : wpCtlResponseEncode response n = some out) :
    out.head? = some (letter (kind response)) := by
  cases response with
  | ok => exact eq_of_fits h ▸ rfl
  | err message => exact eq_of_fits h ▸ rfl
  | geometry g =>
      simp only [wpCtlResponseEncode] at h
      cases hjson : wpMonitorGeometryEncodeJson g 256 with
      | none => exact absurd h (by simp [hjson])
      | some json =>
          simp only [hjson, Option.map_some] at h
          exact eq_of_fits h ▸ rfl
  | cursorPos x y => exact eq_of_fits h ▸ rfl

theorem printed_common {response : CtlResponse} (hkind : kind response ≠ .geometry)
    (hs : response.IsSendable) :
    ∃ body, wpCtlResponseEncode response 512 = some (body ++ [10]) ∧ Printed response body := by
  obtain ⟨body, hline, hencode, response', hread, has⟩ := roundTrips_of_isSendable hs
  obtain rfl : response' = response := by
    cases response with
    | geometry g => exact absurd rfl hkind
    | ok | err message | cursorPos x y => exact has
  refine ⟨body, hencode, hline, ?_, hread⟩
  have hhead := encode_letter hencode
  cases body with
  | nil =>
      have hten : (10 : UInt8) = letter (kind response') := Option.some.inj hhead
      exact absurd (hten ▸ (letter_plain (kind response')).2) (by decide)
  | cons c body => exact hhead

/-- Without a geometry Qt's printer and the shared one print the same. -/
theorem encodeCtlResponse_eq {response : CtlResponse} {body : Bytes}
    (qtNumber : Double → Bytes) (hkind : kind response ≠ .geometry) (hs : response.IsSendable)
    (h : wpCtlResponseEncode response 512 = some (body ++ [10])) :
    encodeCtlResponse qtNumber response = body ++ [10] := by
  cases response with
  | ok => exact eq_of_fits (n := 512) h
  | err message =>
      have hstring : cString message = message :=
        cString_of_nonul fun c hc ↦ ((show Sendable message from hs).plain c hc).1
      have hline := eq_of_fits h
      rwa [hstring] at hline
  | geometry g => exact absurd rfl hkind
  | cursorPos x y => exact eq_of_fits (n := 512) h

theorem printed_kde {response : CtlResponse} (qtNumber : Double → Bytes)
    (hkind : kind response ≠ .geometry) (hs : response.IsSendable) :
    ∃ body, encodeCtlResponse qtNumber response = body ++ [10] ∧ Printed response body := by
  obtain ⟨body, hencode, hprinted⟩ := printed_common hkind hs
  exact ⟨body, encodeCtlResponse_eq qtNumber hkind hs hencode, hprinted⟩

/-! ## The object that Qt prints -/

theorem toJson_perm (qtNumber : Double → Bytes) (g : MonitorGeometry) :
    (toJson qtNumber g).Perm (geometryMembers g (qtNumber g.scale)) := by
  rw [List.perm_iff_count]
  intro m
  simp only [toJson, geometryMembers, List.count_cons, List.count_nil]
  ring

theorem length_toJson_le {qtNumber : Double → Bytes} {g : MonitorGeometry}
    (h : (qtNumber g.scale).length ≤ 32) : (objectText (toJson qtNumber g)).length ≤ 178 := by
  have h₁ := decimalInt_i32_length_le g.x
  have h₂ := decimalInt_i32_length_le g.y
  have h₃ := decimal_u32_length_le g.width
  have h₄ := decimal_u32_length_le g.height
  have h₅ := decimal_u32_length_le g.logicalWidth
  have h₆ := decimal_u32_length_le g.logicalHeight
  have hkeys : ∀ k ∈ [("x", 1), ("y", 1), ("width", 5), ("height", 6), ("logical_width", 13),
      ("logical_height", 14), ("scale", 5)], (bytesOf k.1).length = k.2 := by decide
  simp only [List.forall_mem_cons] at hkeys
  simp only [toJson, objectText, List.map_cons, List.map_nil, memberText, quoted,
    List.intercalate_cons_cons, List.intercalate_singleton, List.length_cons, List.length_append,
    List.length_nil, hkeys]
  omega

theorem plain_of_mem_toJson {qtNumber : Double → Bytes} {g : MonitorGeometry}
    (h : ScaleText (qtNumber g.scale) g.scale) {c : UInt8}
    (hc : c ∈ objectText (toJson qtNumber g)) : c ≠ 0 ∧ c ≠ 10 := by
  rcases mem_objectText hc with hc | ⟨m, hm, hc | hc⟩
  · have key : ∀ c ∈ [(34 : UInt8), 44, 58, 123, 125], c ≠ 0 ∧ c ≠ 10 := by decide +kernel
    exact key c hc
  · have key : ∀ k ∈ geometryKeys, 0 ∉ k ∧ 10 ∉ k := by decide
    have hmember := (toJson_perm qtNumber g).mem_iff.mp hm
    obtain ⟨hnul, hnewline⟩ := key m.1
      (geometryMembers_keys g (qtNumber g.scale) ▸ List.mem_map_of_mem hmember)
    exact ⟨ne_of_mem_of_not_mem hc hnul, ne_of_mem_of_not_mem hc hnewline⟩
  · rcases mem_value_cases ((toJson_perm qtNumber g).mem_iff.mp hm) hc with hnumeral | hc
    · constructor
      · rintro rfl
        exact absurd hnumeral (by decide)
      · rintro rfl
        exact absurd hnumeral (by decide)
    · exact ⟨(h.plain c hc).1, (h.plain c hc).2.1⟩

/-- The daemon reads from Qt's object just the geometry that was printed. -/
theorem printed_geometry {qtNumber : Double → Bytes} {g : MonitorGeometry}
    (h : ScaleText (qtNumber g.scale) g.scale) :
    ∃ body, encodeCtlResponse qtNumber (.geometry g) = body ++ [10] ∧
      Printed (.geometry g) body := by
  have hword : (bytesOf "GEOMETRY ").length = 9 := rfl
  have hjson := length_toJson_le h.length
  have hquote : 34 ∉ qtNumber g.scale := fun hmem ↦ (h.plain 34 hmem).2.2 rfl
  have htrim : trim (bytesOf "GEOMETRY " ++ objectText (toJson qtNumber g) ++ [10]) =
      bytesOf "GEOMETRY " ++ objectText (toJson qtNumber g) := by
    apply trim_line
    · intro c hc
      obtain rfl := Option.some.inj hc
      rfl
    · intro c hc
      rw [objectText, ← List.cons_append, ← List.append_assoc, List.getLast?_concat] at hc
      obtain rfl := Option.some.inj hc
      rfl
  refine ⟨_, rfl, ?_, rfl, ?_⟩
  · exact .append (by decide +kernel) (fun c hc ↦ plain_of_mem_toJson h hc) (by omega)
  · rw [htrim, responseOf_geometry,
      wpMonitorGeometryDecodeJson_objectText g hquote (toJson_perm qtNumber g), h.exact]
    rfl

/-! ## What the portals mean to say -/

/-- The texts of the errors. -/
def errorTexts : List Bytes :=
  ["listener shutting down", "cursor position unavailable", "geometry unavailable",
    "geometry detection disabled", "handled by ctl listener",
    "timed out waiting for response"].map bytesOf

theorem sendable_of_mem_errorTexts {message : Bytes} (h : message ∈ errorTexts) :
    Sendable message := by
  have key : ∀ message ∈ errorTexts, message.length ≤ 255 ∧ 0 ∉ message ∧ 10 ∉ message ∧
      (∀ c ∈ message.head?, c ≠ 32 ∧ c ≠ 9 ∧ c ≠ 13) ∧
        ∀ c ∈ message.getLast?, c ≠ 32 ∧ c ≠ 9 ∧ c ≠ 13 := by
    decide +kernel
  obtain ⟨hlength, hnul, hnewline, hhead, hlast⟩ := key message h
  refine ⟨hlength, fun c hc ↦ ?_, hhead, hlast⟩
  exact ⟨ne_of_mem_of_not_mem hc hnul, ne_of_mem_of_not_mem hc hnewline⟩

/-- A response without a geometry that fits. -/
def Plain (response : CtlResponse) : Prop := kind response ≠ .geometry ∧ response.IsSendable

theorem plain_ok : Plain .ok := ⟨by decide, trivial⟩

theorem plain_cursorPos (x y : Int32) : Plain (.cursorPos x y) := ⟨by simp [kind], trivial⟩

theorem plain_err {message : Bytes} (h : message ∈ errorTexts) : Plain (.err message) :=
  ⟨by simp [kind], sendable_of_mem_errorTexts h⟩

theorem plain_handleCtlRequest (request : CtlRequest) : Plain (handleCtlRequest request) := by
  cases request with
  | geometry | cursorPos => exact plain_err (by simp [errorTexts])
  | detach | debugOn | debugOff | ping => exact plain_ok

theorem plain_of_sayable {hasCursorFn : Bool} {i : CtlInstance} {response : CtlResponse}
    (h : Sayable hasCursorFn i response) : Plain response := by
  by_cases hcursor : i.request = .cursorPos ∧ hasCursorFn = true
  · rcases h.callback hcursor with rfl | ⟨x, y, rfl⟩
    · exact plain_err (by simp [errorTexts])
    · exact plain_cursorPos x y
  · rcases h.mailbox hcursor with rfl | ⟨request, rfl⟩
    · exact plain_err (by simp [errorTexts])
    · exact plain_handleCtlRequest request

theorem kde_handle_cases (handlers : KdeHandlers) (request : CtlRequest) :
    (∃ g, handlers.geometryProvider = some (some g) ∧
        (handlers.handle request).2 = .geometry g) ∨
      Plain (handlers.handle request).2 := by
  have hshut : Plain shuttingDown := plain_err (by simp [errorTexts])
  cases request with
  | cursorPos =>
      simp only [KdeHandlers.handle]
      split
      · exact .inr (plain_cursorPos _ _)
      · exact .inr (plain_err (by simp [errorTexts]))
      · exact .inr (plain_err (by simp [errorTexts]))
  | geometry =>
      simp only [KdeHandlers.handle]
      split
      · rename_i g hg
        exact .inl ⟨g, hg, rfl⟩
      · exact .inr (plain_err (by simp [errorTexts]))
      · exact .inr hshut
  | detach | debugOn | debugOff =>
      right
      simp only [KdeHandlers.handle]
      split
      · exact plain_ok
      · exact hshut
  | ping => exact .inr plain_ok

/-- KDE's portal handles no request but the one it is given, and it says that one
succeeded only if a handler was called. -/
theorem kde_handle_handled (handlers : KdeHandlers) (request : CtlRequest) :
    (∀ handled ∈ (handlers.handle request).1, handled = request) ∧
      (kind (handlers.handle request).2 = success request →
        request ∈ (handlers.handle request).1) := by
  cases request with
  | cursorPos | geometry =>
      simp only [KdeHandlers.handle]
      split <;> simp [kind, success, shuttingDown]
  | detach | debugOn | debugOff =>
      simp only [KdeHandlers.handle]
      split <;> simp [kind, success, shuttingDown]
  | ping => simp [KdeHandlers.handle]

theorem plain_gnomeAnswer (point : Int32 × Int32) (request : CtlRequest) :
    Plain (gnomeAnswer point request) := by
  cases request with
  | geometry => exact plain_err (by simp [errorTexts])
  | cursorPos => exact plain_cursorPos _ _
  | detach | debugOn | debugOff | ping => exact plain_ok

theorem gnomeResponse_eq (qtNumber : Double → Bytes) (point : Int32 × Int32)
    (request : CtlRequest) :
    gnomeResponse point request = encodeCtlResponse qtNumber (gnomeAnswer point request) := by
  cases request <;> rfl

/-! ## The connection of the shared listener -/

section Common

variable {hasCursorFn : Bool} {before during : List CtlLabel} {arrived : Bytes} {served : Served}

/-- What was done is read off the last state, where the number of the daemon's
connection stands for the request in its line. -/
theorem commonServe_eq_some (h : commonServe hasCursorFn before during arrived = some served) :
    ∃ conn t, exec (ctlStep hasCursorFn) .initial (before ++ .accept arrived :: during) = some t ∧
      (t.Instances fun i ↦ i.conn = conn → lineRequest arrived = some i.request) ∧
        served = commonServed hasCursorFn conn arrived t := by
  simp only [commonServe, Option.bind_eq_bind, Option.bind_eq_some_iff] at h
  obtain ⟨s, hs, t, ht, heq⟩ := h
  refine ⟨s.nextConn, t, ?_, ?_, (Option.some.inj heq).symm⟩
  · rw [exec_append, hs]
    exact ht
  · exact instances_of_connection (CtlState.Numbered.exec hs) ht

/-- The callback answers in its two ways. -/
theorem speaks_of_sound {t : CtlState} (h : (Portal.common hasCursorFn before during).Sound)
    (hrun : exec (ctlStep hasCursorFn) .initial (before ++ .accept arrived :: during) = some t) :
    t.Speaks hasCursorFn :=
  CtlState.Speaks.exec hrun fun response hmem ↦ h response (by simpa using hmem)

theorem commonServed_of_line {conn : ℕ} {request : CtlRequest} (s : CtlState)
    (h : lineRequest arrived = some request) :
    commonServed hasCursorFn conn arrived s =
      { handled := handledFor hasCursorFn conn s
        response := (s.written.find? (·.1.conn = conn)).map Prod.snd
        text := (((s.written.find? (·.1.conn = conn)).map Prod.snd).bind
          (wpCtlResponseEncode · 512)).getD [] } := by
  rw [lineRequest] at h
  split at h
  · cases h
  · rename_i hne
    simp only [commonServed, if_neg hne, h]

theorem mem_handledFor {conn : ℕ} {s : CtlState} {handled : CtlRequest}
    (h : handled ∈ handledFor hasCursorFn conn s) :
    ∃ e, (e ∈ s.computed ∨ e ∈ s.written) ∧ e.1.conn = conn ∧ e.1.request = handled := by
  rw [handledFor] at h
  rcases List.mem_append.mp h with h | h
  · obtain ⟨e, he, rfl⟩ := List.mem_map.mp h
    obtain ⟨he, hconn⟩ := List.mem_filter.mp he
    exact ⟨e, .inl he, of_decide_eq_true hconn, rfl⟩
  · split at h
    · obtain ⟨e, he, rfl⟩ := List.mem_map.mp h
      obtain ⟨he, hconn⟩ := List.mem_filter.mp he
      exact ⟨e, .inr he, (of_decide_eq_true hconn).1, rfl⟩
    · exact absurd h List.not_mem_nil

/-- Nothing but the request in the line is handled for a connection. -/
theorem handled_commonServe (h : commonServe hasCursorFn before during arrived = some served) :
    ∀ handled ∈ served.handled, lineRequest arrived = some handled := by
  obtain ⟨conn, t, -, hinstances, rfl⟩ := commonServe_eq_some h
  intro handled hmem
  cases hline : lineRequest arrived with
  | none =>
      rw [lineRequest] at hline
      rw [commonServed] at hmem
      split at hline
      · rename_i hnil
        rw [if_pos hnil] at hmem
        exact absurd hmem List.not_mem_nil
      · rename_i hne
        rw [if_neg hne, hline] at hmem
        exact absurd hmem List.not_mem_nil
  | some request =>
      rw [commonServed_of_line t hline] at hmem
      obtain ⟨e, he, hconn, rfl⟩ := mem_handledFor hmem
      have heq : lineRequest arrived = some e.1.request :=
        he.elim (fun he ↦ hinstances.computed e he hconn) fun he ↦ hinstances.written e he hconn
      exact hline.symm.trans heq

/-- What is said to a connection is written for the request in its line. -/
theorem written_of_response {conn : ℕ} {request : CtlRequest} {t : CtlState}
    (hinstances : t.Instances fun i ↦ i.conn = conn → lineRequest arrived = some i.request)
    (hline : lineRequest arrived = some request) {response : CtlResponse}
    (h : (t.written.find? (·.1.conn = conn)).map Prod.snd = some response) :
    (⟨conn, request⟩, response) ∈ t.written := by
  obtain ⟨⟨⟨conn', request'⟩, response'⟩, hfind, rfl⟩ := Option.map_eq_some_iff.mp h
  have hmem := List.mem_of_find?_eq_some hfind
  obtain rfl : conn' = conn := by simpa using List.find?_some hfind
  obtain rfl : request = request' :=
    Option.some.inj (hline.symm.trans (hinstances.written _ hmem rfl))
  exact hmem

end Common

/-! ## One exchange -/

inductive Reader where
  | common
  | kde
  | gnome
  deriving DecidableEq, Repr

def Portal.reader : Portal → Reader
  | .common _ _ _ => .common
  | .kde _ _ => .kde
  | .gnome _ => .gnome

/-- The request that a listener recognizes in what arrives. -/
def recognized : Reader → Bytes → Option CtlRequest
  | .common, arrived => lineRequest arrived
  | .kde, arrived =>
      if (arrived.takeWhile (· ≠ 10)).take 257 = [] then none
      else parseCtlRequest ((arrived.takeWhile (· ≠ 10)).take 257)
  | .gnome, arrived =>
      if arrived.take 255 = [] then none
      else requestNamed (gStrstrip (cString (arrived.take 255)))

/-- A portal handles the request that it recognizes and no other. -/
theorem recognized_of_handled {p : Portal} {arrived : Bytes} {served : Served}
    (h : p.serve arrived = some served) :
    ∀ handled ∈ served.handled, recognized p.reader arrived = some handled := by
  cases p with
  | common hasCursorFn before during => exact handled_commonServe h
  | kde handlers qtNumber =>
      simp only [Portal.serve, kdeServe, Portal.reader, recognized] at h ⊢
      split at h
      · obtain rfl := Option.some.inj h
        exact fun handled hmem ↦ absurd hmem List.not_mem_nil
      · rename_i hne
        rw [if_neg hne]
        split at h
        · obtain rfl := Option.some.inj h
          exact fun handled hmem ↦ absurd hmem List.not_mem_nil
        · rename_i request hparse
          obtain rfl := Option.some.inj h
          intro handled hmem
          rw [hparse, (kde_handle_handled handlers request).1 handled hmem]
  | gnome point =>
      simp only [Portal.serve, gnomeServe, Portal.reader, recognized] at h ⊢
      split at h
      · obtain rfl := Option.some.inj h
        exact fun handled hmem ↦ absurd hmem List.not_mem_nil
      · rename_i hne
        rw [if_neg hne]
        split at h
        · obtain rfl := Option.some.inj h
          exact fun handled hmem ↦ absurd hmem List.not_mem_nil
        · rename_i request hnamed
          obtain rfl := Option.some.inj h
          intro handled hmem
          rw [hnamed, List.mem_singleton.mp hmem]

theorem length_requestText (request : CtlRequest) :
    0 < (requestText request).length ∧ (requestText request).length ≤ 11 := by
  cases request <;> decide

theorem recognized_request (r : Reader) (request : CtlRequest) :
    recognized r (requestText request) = some request := by
  cases r <;> cases request <;> decide +kernel

/-- The front of a request is taken for that request or for none. -/
theorem recognized_front (r : Reader) (request : CtlRequest) (n : ℕ) :
    recognized r ((requestText request).take n) = none ∨
      recognized r ((requestText request).take n) = some request := by
  by_cases hn : n < 12
  · have key : ∀ n < 12, recognized r ((requestText request).take n) = none ∨
        recognized r ((requestText request).take n) = some request := by
      cases r <;> cases request <;> decide +kernel
    exact key n hn
  · have hlength := (length_requestText request).2
    rw [List.take_of_length_le (by omega)]
    exact .inr (recognized_request r request)

/-- The text is the line of the response, if there is one. -/
structure Served.Prints (served : Served) : Prop where
  silent : served.response = none → served.text = []
  line : ∀ response ∈ served.response, ∃ body, served.text = body ++ [10] ∧ Printed response body

theorem prints_common {hasCursorFn : Bool} {before during : List CtlLabel} {request : CtlRequest}
    {served : Served} (h : (Portal.common hasCursorFn before during).Sound)
    (hserved : commonServe hasCursorFn before during (requestText request) = some served) :
    served.Prints := by
  obtain ⟨conn, t, hrun, -, rfl⟩ := commonServe_eq_some hserved
  have hspeaks := speaks_of_sound h hrun
  rw [commonServed_of_line t (recognized_request .common request)]
  cases hwritten : t.written.find? (·.1.conn = conn) with
  | none => exact ⟨fun _ ↦ rfl, fun response hresponse ↦ by cases hresponse⟩
  | some e =>
      obtain ⟨hkind, hs⟩ :=
        plain_of_sayable (hspeaks.written e (List.mem_of_find?_eq_some hwritten))
      obtain ⟨body, hencode, hprinted⟩ := printed_common hkind hs
      refine ⟨fun hnone ↦ (by cases hnone), fun response hresponse ↦ ⟨body, ?_, ?_⟩⟩
      · simp [hencode]
      · obtain rfl := Option.some.inj hresponse
        exact hprinted

/-- When replies are in time, a connection is told what was computed for it. -/
theorem says_common {hasCursorFn : Bool} {before during : List CtlLabel} {request : CtlRequest}
    {served : Served} (h : (Portal.common hasCursorFn before during).Sound)
    (hserved : commonServe hasCursorFn before during (requestText request) = some served)
    (hintime : (Portal.common hasCursorFn before during).InTime (requestText request)) :
    (Portal.common hasCursorFn before during).Says request served := by
  obtain ⟨conn, t, hrun, hinstances, rfl⟩ := commonServe_eq_some hserved
  have hline : lineRequest (requestText request) = some request :=
    recognized_request .common request
  have hspeaks := speaks_of_sound h hrun
  have hsound : MailboxSound hasCursorFn t :=
    exec_invariant_guarded (fun _ _ _ h hG ht ↦ h.step hG ht) (MailboxSound.initial hasCursorFn)
      hintime hrun
  rw [commonServed_of_line t hline]
  intro response hresponse
  have hwritten := written_of_response hinstances hline hresponse
  split
  · rename_i hcursor
    refine ⟨(hspeaks.written _ hwritten).callback hcursor, ?_⟩
    refine List.mem_append_right _ ?_
    rw [if_pos hcursor.2]
    exact List.mem_map.mpr ⟨_, List.mem_filter.mpr ⟨hwritten, by simp [hcursor.1]⟩, rfl⟩
  · rename_i hmailbox
    refine (hsound.written _ _ hwritten hmailbox).imp_right fun hcomputed ↦ ?_
    refine ⟨hspeaks.computed _ hcomputed, List.mem_append_left _ ?_⟩
    exact List.mem_map.mpr ⟨_, List.mem_filter.mpr ⟨hcomputed, by simp⟩, rfl⟩

/-- A whole request is recognized, and what is printed for it is read as it was
meant. -/
theorem served_whole {p : Portal} (h : p.Sound) {request : CtlRequest} {served : Served}
    (hserved : p.serve (requestText request) = some served) :
    served.Prints ∧ (p.InTime (requestText request) → p.Says request served) := by
  cases p with
  | common hasCursorFn before during => exact ⟨prints_common h hserved, says_common h hserved⟩
  | kde handlers qtNumber =>
      have hrecognized := recognized_request .kde request
      simp only [recognized] at hrecognized
      split at hrecognized
      · cases hrecognized
      · rename_i hne
        simp only [Portal.serve, kdeServe, if_neg hne, hrecognized] at hserved
        obtain rfl := Option.some.inj hserved
        refine ⟨⟨fun hnone ↦ (by cases hnone), fun response hresponse ↦ ?_⟩, fun _ ↦ ⟨rfl, rfl⟩⟩
        obtain rfl := Option.some.inj hresponse
        rcases kde_handle_cases handlers request with ⟨g, hg, hanswer⟩ | ⟨hkind, hs⟩
        · rw [hanswer]
          exact printed_geometry (h g hg)
        · exact printed_kde qtNumber hkind hs
  | gnome point =>
      have hrecognized := recognized_request .gnome request
      simp only [recognized] at hrecognized
      split at hrecognized
      · cases hrecognized
      · rename_i hne
        simp only [Portal.serve, gnomeServe, if_neg hne, hrecognized] at hserved
        obtain rfl := Option.some.inj hserved
        refine ⟨⟨fun hnone ↦ (by cases hnone), fun response hresponse ↦ ?_⟩, fun _ ↦ ⟨rfl, rfl⟩⟩
        obtain rfl := Option.some.inj hresponse
        obtain ⟨hkind, hs⟩ := plain_gnomeAnswer point request
        rw [gnomeResponse_eq fun _ ↦ []]
        exact printed_kde _ hkind hs

/-- A request that is said to have succeeded was handled. -/
theorem handled_of_success {p : Portal} {request : CtlRequest} {served : Served}
    {response : CtlResponse} (h : p.Says request served)
    (hresponse : served.response = some response) (hsuccess : kind response = success request) :
    request ∈ served.handled := by
  cases p with
  | common hasCursorFn before during =>
      have hmeans := h response hresponse
      split at hmeans
      · exact hmeans.2
      · refine (hmeans.resolve_left fun htimeout ↦ ?_).2
        rw [htimeout] at hsuccess
        cases request <;> cases hsuccess
  | kde handlers qtNumber =>
      obtain ⟨hhandled, hsaid⟩ := h
      obtain rfl := Option.some.inj (hresponse.symm.trans hsaid)
      exact hhandled ▸ (kde_handle_handled handlers request).2 hsuccess
  | gnome point => exact h.1 ▸ List.mem_singleton_self request

/-- The portal handles the request that was sent or none.  A response that the
daemon gets is of the kind that was meant, even when its end is missing; if replies
are in time and it says that the request succeeded, the portal has handled it.  When
nothing is lost the daemon gets what was meant. -/
theorem portal_exchange_agrees (p : Portal) (h : p.Sound) (t : Transport) (request : CtlRequest)
    {got : Option CtlResponse} {served : Served}
    (hexchange : wpSendCtlRequest t p.serve request = some (got, served)) :
    (∀ handled ∈ served.handled, handled = request) ∧
      (∀ response, got = some response →
        ∃ meant, served.response = some meant ∧ kind response = kind meant) ∧
      (p.InTime (requestText request) → ∀ response, got = some response →
        kind response = success request → request ∈ served.handled) ∧
      ((requestText request).length ≤ t.sent →
        (p.InTime (requestText request) → p.Says request served) ∧
          (served.text.length ≤ t.replied → got = served.response)) := by
  obtain ⟨hpos, hlength⟩ := length_requestText request
  have hencode : wpCtlRequestEncode request 32 = some (requestText request) :=
    if_pos ⟨hpos, by omega⟩
  simp only [wpSendCtlRequest, hencode] at hexchange
  obtain ⟨served', hserved, hpair⟩ := Option.map_eq_some_iff.mp hexchange
  have hhandled : ∀ handled ∈ served'.handled, handled = request := by
    intro handled hmem
    have hrecognized := recognized_of_handled hserved handled hmem
    rcases recognized_front p.reader request t.sent with hnone | hsome
    · exact absurd (hnone.symm.trans hrecognized) (by simp)
    · exact (Option.some.inj (hsome.symm.trans hrecognized)).symm
  by_cases hsent : t.sent < (requestText request).length
  · rw [if_pos hsent] at hpair
    obtain ⟨rfl, rfl⟩ := Prod.mk.inj hpair
    refine ⟨hhandled, fun response hgot ↦ (by cases hgot), fun _ response hgot ↦ (by cases hgot),
      fun hwhole ↦ absurd hwhole (by omega)⟩
  · rw [if_neg hsent] at hpair
    obtain ⟨hgot, rfl⟩ := Prod.mk.inj hpair
    rw [List.take_of_length_le (by omega)] at hserved
    obtain ⟨hprints, hmeans⟩ := served_whole h hserved
    have hkind : ∀ response, got = some response →
        ∃ meant, served'.response = some meant ∧ kind response = kind meant := by
      intro response hresponse
      rw [← hgot] at hresponse
      split at hresponse
      · cases hresponse
      · rename_i hne
        cases hmeant : served'.response with
        | none =>
            rw [hprints.silent hmeant, List.take_nil] at hne
            exact absurd rfl hne
        | some meant =>
            obtain ⟨body, hbody, hprinted⟩ := hprints.line meant hmeant
            rw [hbody] at hne hresponse
            exact ⟨meant, rfl, hprinted.front hne hresponse⟩
    refine ⟨hhandled, hkind, fun hintime response hresponse hsuccess ↦ ?_,
      fun _ ↦ ⟨hmeans, fun hreplied ↦ ?_⟩⟩
    · obtain ⟨meant, hmeant, hsame⟩ := hkind response hresponse
      exact handled_of_success (hmeans hintime) hmeant (hsame.symm.trans hsuccess)
    · rw [← hgot]
      cases hmeant : served'.response with
      | none =>
          rw [hprints.silent hmeant, List.take_nil]
          rfl
      | some meant =>
          obtain ⟨body, hbody, hprinted⟩ := hprints.line meant hmeant
          rw [hbody] at hreplied ⊢
          obtain ⟨hne, hparse⟩ := hprinted.whole hreplied
          rw [if_neg hne, hparse]

/-- A ping comes before, and its reply is taken. -/
def detachAfterPing : Portal :=
  .common true pingRun [.install, .poll, .compute, .reply, .wake false, .write]

theorem portal_exchange_agrees_detach :
    ∃ served, wpSendCtlRequest ⟨7, 3⟩ detachAfterPing.serve .detach = some (some .ok, served) ∧
      .detach ∈ served.handled := by
  have hexchange : wpSendCtlRequest ⟨7, 3⟩ detachAfterPing.serve .detach =
      some (some .ok, ⟨[.detach], some .ok, bytesOf "OK\n"⟩) := by
    decide +kernel
  have hsound : detachAfterPing.Sound := by
    intro response hmem
    simp [pingRun] at hmem
  have hintime : detachAfterPing.InTime (requestText .detach) := by
    unfold detachAfterPing Portal.InTime
    decide +kernel
  exact ⟨_, hexchange,
    (portal_exchange_agrees detachAfterPing hsound _ .detach hexchange).2.2.1 hintime .ok rfl rfl⟩

end Wallpiper.Ctl.Exchange
