import Wallpiper.Capture.WireFormat

/-!
# Receiving into a fixed buffer

The C receiver at the level of its two header buffers of 256 bytes: where the
kernel puts a datagram, where the trim loop looks and terminates the string,
and where the copy is split in place.  Every access goes through a check, so a
run fails at the first index outside a buffer.
-/

namespace Wallpiper.Capture

open Foundations.CText

/-- An access outside a buffer. -/
structure OutOfBounds where
  index : ℕ
  deriving DecidableEq, Repr

structure HeaderBuf where
  bytes : Bytes
  size : bytes.length = 256

namespace HeaderBuf

def read (buf : HeaderBuf) (i : ℕ) : Except OutOfBounds UInt8 :=
  match buf.bytes[i]? with
  | some c => .ok c
  | none => .error ⟨i⟩

def write (buf : HeaderBuf) (i : ℕ) (c : UInt8) : Except OutOfBounds HeaderBuf :=
  if i < 256 then
    .ok { bytes := buf.bytes.set i c
          size := by
            rw [List.length_set]
            exact buf.size }
  else .error ⟨i⟩

/-- The kernel delivers what fits. -/
def fill (buf : HeaderBuf) (data : Bytes) : HeaderBuf :=
  { bytes := data.take 256 ++ buf.bytes.drop (data.take 256).length
    size := by
      have hsize := buf.size
      have htake : (data.take 256).length ≤ 256 := List.length_take_le 256 data
      rw [List.length_append, List.length_drop]
      omega }

/-- The string that starts at an index, read up to its NUL. -/
def stringFrom : Bytes → ℕ → Except OutOfBounds Bytes
  | [], i => .error ⟨i⟩
  | c :: cs, i => if c = 0 then .ok [] else (stringFrom cs (i + 1)).map fun s ↦ c :: s

def string (buf : HeaderBuf) (i : ℕ) : Except OutOfBounds Bytes :=
  stringFrom (buf.bytes.drop i) i

def writeFrom (buf : HeaderBuf) (i : ℕ) : Bytes → Except OutOfBounds HeaderBuf
  | [] => .ok buf
  | c :: cs => do
      let buf ← buf.write i c
      buf.writeFrom (i + 1) cs

/-- `snprintf(buf, 256, "%s", header)`. -/
def copyString (buf header : HeaderBuf) : Except OutOfBounds HeaderBuf := do
  let text ← header.string 0
  buf.writeFrom 0 (snprintf 256 text ++ [0])

end HeaderBuf

def isTrailingBlank (c : UInt8) : Bool := c == 10 || c == 13 || c == 32

/-- The length without the trailing blanks. -/
def HeaderBuf.trimmed (buf : HeaderBuf) : ℕ → Except OutOfBounds ℕ
  | 0 => .ok 0
  | len + 1 => do
      let c ← buf.read len
      if isTrailingBlank c = true then buf.trimmed len else .ok (len + 1)

/-! ## Splitting in place -/

def isFieldBlank (c : UInt8) : Bool := c == 32 || c == 9

/-- The index of the first byte that is not a blank. -/
def skipBlanks : Bytes → ℕ → Except OutOfBounds ℕ
  | [], i => .error ⟨i⟩
  | c :: cs, i => if isFieldBlank c = true then skipBlanks cs (i + 1) else .ok i

/-- The index of the first blank or NUL. -/
def fieldEnd : Bytes → ℕ → Except OutOfBounds ℕ
  | [], i => .error ⟨i⟩
  | c :: cs, i => if c = 0 ∨ isFieldBlank c = true then .ok i else fieldEnd cs (i + 1)

/-- A buffer that is being split, with `saveptr`. -/
structure Splitting where
  buf : HeaderBuf
  save : ℕ

/-- `strtok_r(NULL, " \t", &saveptr)`: the start of the next field. -/
def strtokR (st : Splitting) : Except OutOfBounds (Option ℕ × Splitting) := do
  let tok ← skipBlanks (st.buf.bytes.drop st.save) st.save
  let c ← st.buf.read tok
  if c = 0 then .ok (none, { st with save := tok })
  else
    let stop ← fieldEnd (st.buf.bytes.drop tok) tok
    let c ← st.buf.read stop
    if c = 0 then .ok (some tok, { st with save := stop })
    else
      let buf ← st.buf.write stop 0
      .ok (some tok, { buf := buf, save := stop + 1 })

/-- The fields that successive calls return; behind the last one they return
none. -/
def nextFields : ℕ → Splitting → Except OutOfBounds (List ℕ × Splitting)
  | 0, st => .ok ([], st)
  | n + 1, st => do
      let (field, st) ← strtokR st
      let (fields, st) ← nextFields n st
      .ok (field.toList ++ fields, st)

def HeaderBuf.readU32 (buf : HeaderBuf) (i : ℕ) : Except OutOfBounds UInt32 :=
  (buf.string i).map Capture.readU32

def HeaderBuf.readU64 (buf : HeaderBuf) (i : ℕ) : Except OutOfBounds UInt64 :=
  (buf.string i).map Capture.readU64

def HeaderBuf.readI32 (buf : HeaderBuf) (i : ℕ) : Except OutOfBounds Int32 :=
  (buf.string i).map Capture.readI32

def parseBufIn (st : Splitting) (fds : List ℤ) : Except OutOfBounds (Option CaptureEvent) := do
  let (fields, st) ← nextFields 8 st
  match fields with
  | slotS :: widthS :: heightS :: _ :: strideS :: modifierS :: rest =>
      if fds.length < 1 then .ok none
      else do
        let slot ← st.buf.readU32 slotS
        let width ← st.buf.readU32 widthS
        let height ← st.buf.readU32 heightS
        let stride ← st.buf.readU32 strideS
        let modifier ← st.buf.readU64 modifierS
        let out := { CaptureEvent.zero .buf with
          slot := slot, width := width, height := height, stride := stride
          modifier := modifier, fds := fds.take 2 }
        match rest with
        | geomXS :: geomYS :: _ => do
            let geomX ← st.buf.readI32 geomXS
            let geomY ← st.buf.readI32 geomYS
            .ok (some { out with hasGeometry := true, geomX := geomX, geomY := geomY })
        | _ => .ok (some out)
  | _ => .ok none

def parseFrameIn (st : Splitting) (fds : List ℤ) : Except OutOfBounds (Option CaptureEvent) := do
  let (fields, st) ← nextFields 1 st
  match fields with
  | slotS :: _ => do
      let slot ← st.buf.readU32 slotS
      .ok (some { CaptureEvent.zero .frame with slot := slot, fds := fds.take 1 })
  | [] => .ok none

def parseShmIn (st : Splitting) (fds : List ℤ) : Except OutOfBounds (Option CaptureEvent) := do
  let (fields, st) ← nextFields 3 st
  match fields with
  | widthS :: heightS :: strideS :: _ =>
      if fds.length < 1 then .ok none
      else do
        let width ← st.buf.readU32 widthS
        let height ← st.buf.readU32 heightS
        let stride ← st.buf.readU32 strideS
        .ok (some { CaptureEvent.zero .shm with
          width := width, height := height, stride := stride, fds := fds.take 1 })
  | _ => .ok none

/-- `parse_event` on its own copy of the header; `buf` is what was on the stack
where the copy goes. -/
def parseEventIn (buf header : HeaderBuf) (fds : List ℤ) :
    Except OutOfBounds (Option CaptureEvent) := do
  let buf ← buf.copyString header
  let (tok, st) ← strtokR { buf := buf, save := 0 }
  match tok with
  | none => .ok none
  | some tok => do
      let tag ← st.buf.string tok
      if tag = bytesOf "BUF" then parseBufIn st fds
      else if tag = bytesOf "FRAME" then parseFrameIn st fds
      else if tag = bytesOf "SHM" then parseShmIn st fds
      else .ok none

/-! ## Receiving -/

/-- The descriptors that a control buffer of 64 bytes has room for, behind a
header of 16 bytes. -/
def cmsgMaxFds : ℕ := (64 - 16) / 4

/-- The descriptors that the kernel installs in the process. -/
def installedFds (dgram : Datagram) : List ℤ := dgram.fds.take cmsgMaxFds

/-- What the caller gets, and the descriptors that were closed. -/
structure Receipt where
  event : Option CaptureEvent
  closed : List ℤ
  deriving DecidableEq, Repr

/-- `wp_recv_capture_event` with a datagram in the socket; `header` and `buf` are
what was on the stack before.  A rejected header is logged. -/
def wpRecvCaptureEventIn (header buf : HeaderBuf) (dgram : Datagram) :
    Except OutOfBounds Receipt := do
  let header := header.fill dgram.header
  let fds := (installedFds dgram).take wpCaptureMaxFds
  let len ← header.trimmed (dgram.header.take 256).length
  let header ← header.write len 0
  match ← parseEventIn buf header fds with
  | some event => .ok { event := some event, closed := [] }
  | none => do
      let _ ← header.string 0
      .ok { event := none, closed := fds }

end Wallpiper.Capture
