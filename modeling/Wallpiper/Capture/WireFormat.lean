import Wallpiper.Foundations.CText

/-!
# The capture wire format

The capture layer announces buffers and frames as one-line datagrams with
file descriptors attached.  Three receivers decode them: the C one of the
wlroots portals, the C++ one of the KDE portal and the GLib one of the GNOME
portal.
-/

namespace Wallpiper.Capture

open Foundations.CText

def wpCaptureMaxFds : ℕ := 2

/-- A datagram as handed to `sendmsg`.  Descriptors stand for the open files
they refer to, so a received descriptor is the one that was sent. -/
structure Datagram where
  header : Bytes
  fds : List ℤ
  deriving DecidableEq, Repr

/-! ## The sender -/

/-- `snprintf` into a buffer of the given size. -/
def snprintf (bufLen : ℕ) (text : Bytes) : Bytes := text.take (bufLen - 1)

/-- Fields separated by one blank and ended by a newline. -/
def headerLine (fields : List Bytes) : Bytes := [32].intercalate fields ++ [10]

def bufFields (slot width height formatRaw stride : UInt32) (modifier : UInt64)
    (hasGeometry : Bool) (geomX geomY : Int32) : List Bytes :=
  [bytesOf "BUF", decimal slot.toNat, decimal width.toNat, decimal height.toNat,
    decimal formatRaw.toNat, decimal stride.toNat, decimal modifier.toNat] ++
  if hasGeometry then [decimalInt geomX.toInt, decimalInt geomY.toInt] else []

def frameFields (slot : UInt32) : List Bytes := [bytesOf "FRAME", decimal slot.toNat]

def openFds (fds : List ℤ) : List ℤ := fds.filter fun fd ↦ fd ≥ 0

def wpCaptureLinkSendBuf (slot width height formatRaw stride : UInt32) (modifier : UInt64)
    (hasGeometry : Bool) (geomX geomY : Int32) (imageFd syncFd : ℤ) : Datagram :=
  { header := snprintf 160 (headerLine
      (bufFields slot width height formatRaw stride modifier hasGeometry geomX geomY))
    fds := openFds [imageFd, syncFd] }

def wpCaptureLinkSendFrame (slot : UInt32) (syncFd : ℤ) : Datagram :=
  { header := snprintf 64 (headerLine (frameFields slot)), fds := openFds [syncFd] }

/-! ## The C receiver -/

inductive CaptureEventTag where
  | buf
  | frame
  | shm
  deriving DecidableEq, Repr

/-- `fds` holds the first `nfds` descriptors. -/
structure CaptureEvent where
  tag : CaptureEventTag
  slot : UInt32
  width : UInt32
  height : UInt32
  stride : UInt32
  modifier : UInt64
  hasGeometry : Bool
  geomX : Int32
  geomY : Int32
  fds : List ℤ
  deriving DecidableEq, Repr

def CaptureEvent.zero (tag : CaptureEventTag) : CaptureEvent :=
  { tag := tag, slot := 0, width := 0, height := 0, stride := 0, modifier := 0
    hasGeometry := false, geomX := 0, geomY := 0, fds := [] }

def readU32 (s : Bytes) : UInt32 := UInt32.ofNat (strtoul 10 s)

def readU64 (s : Bytes) : UInt64 := UInt64.ofNat (strtoul 10 s)

def readI32 (s : Bytes) : Int32 := Int32.ofInt (strtol 10 s)

def parseEvent (header : Bytes) (fds : List ℤ) : Option CaptureEvent :=
  let buf := snprintf 256 (cString header)
  match tokens (fun c ↦ c == 32 || c == 9) buf with
  | [] => none
  | tok :: args =>
      if tok = bytesOf "BUF" then
        match args with
        | slotS :: widthS :: heightS :: _ :: strideS :: modifierS :: rest =>
            if fds.length < 1 then none
            else
              let out := { CaptureEvent.zero .buf with
                slot := readU32 slotS
                width := readU32 widthS
                height := readU32 heightS
                stride := readU32 strideS
                modifier := readU64 modifierS
                fds := fds.take 2 }
              match rest with
              | geomXS :: geomYS :: _ =>
                  some { out with
                    hasGeometry := true, geomX := readI32 geomXS, geomY := readI32 geomYS }
              | _ => some out
        | _ => none
      else if tok = bytesOf "FRAME" then
        match args with
        | slotS :: _ =>
            some { CaptureEvent.zero .frame with slot := readU32 slotS, fds := fds.take 1 }
        | [] => none
      else if tok = bytesOf "SHM" then
        match args with
        | widthS :: heightS :: strideS :: _ =>
            if fds.length < 1 then none
            else
              some { CaptureEvent.zero .shm with
                width := readU32 widthS
                height := readU32 heightS
                stride := readU32 strideS
                fds := fds.take 1 }
        | _ => none
      else none

/-- `recvmsg` delivers what fits the header buffer. -/
def recvMsg (headerBufLen maxFds : ℕ) (dgram : Datagram) : Bytes × List ℤ :=
  (dgram.header.take headerBufLen, dgram.fds.take maxFds)

def wpRecvCaptureEvent (dgram : Datagram) : Option CaptureEvent :=
  let (headerBuf, fds) := recvMsg 256 wpCaptureMaxFds dgram
  parseEvent (headerBuf.rdropWhile fun c ↦ c == 10 || c == 13 || c == 32) fds

/-! ## The KDE receiver -/

namespace Kde

structure BufEvent where
  slot : UInt32
  width : UInt32
  height : UInt32
  stride : UInt32
  modifier : UInt64
  hasGeometry : Bool
  geomX : Int32
  geomY : Int32
  fd : ℤ
  syncFd : ℤ
  deriving DecidableEq, Repr

inductive SocketEvent where
  | buf (event : BufEvent)
  | frame (slot : UInt32) (syncFd : ℤ)
  | shm (width height stride : UInt32) (fd : ℤ)
  deriving DecidableEq, Repr

/-- `std::stoul` and `std::stoull`; `none` is an exception. -/
def stoul (s : Bytes) : Option ℕ :=
  match scanNumber 10 s with
  | some (_, m) => if m < 2 ^ 64 then some (strtoul 10 s) else none
  | none => none

/-- `std::stol`. -/
def stol (s : Bytes) : Option ℤ :=
  match scanNumber 10 s with
  | some (neg, m) => if m < 2 ^ 63 ∨ neg ∧ m = 2 ^ 63 then some (strtol 10 s) else none
  | none => none

def stou32 (s : Bytes) : Option UInt32 := (stoul s).map UInt32.ofNat

def parseEvent (header : Bytes) (fds : List ℤ) : Option SocketEvent :=
  match tokens isSpace header with
  | [] => none
  | tag :: args =>
      if tag = bytesOf "BUF" then
        match args, fds with
        | slotS :: widthS :: heightS :: _ :: strideS :: modifierS :: rest, fd :: moreFds => do
            let slot ← stou32 slotS
            let width ← stou32 widthS
            let height ← stou32 heightS
            let stride ← stou32 strideS
            let modifier ← stoul modifierS
            let event : BufEvent := ⟨slot, width, height, stride, UInt64.ofNat modifier,
              false, 0, 0, fd, moreFds.headD (-1)⟩
            match rest with
            | geomXS :: geomYS :: _ =>
                let geomX ← stol geomXS
                let geomY ← stol geomYS
                some (.buf { event with
                  hasGeometry := true
                  geomX := Int32.ofInt geomX
                  geomY := Int32.ofInt geomY })
            | _ => some (.buf event)
        | _, _ => none
      else if tag = bytesOf "FRAME" then
        match args with
        | slotS :: _ => (stou32 slotS).map fun slot ↦ .frame slot (fds.headD (-1))
        | [] => none
      else if tag = bytesOf "SHM" then
        match args, fds with
        | widthS :: heightS :: strideS :: _, fd :: _ => do
            let width ← stou32 widthS
            let height ← stou32 heightS
            let stride ← stou32 strideS
            some (.shm width height stride fd)
        | _, _ => none
      else none

/-- `recvMsg` keeps every descriptor and trims blanks at both ends. -/
def receive (dgram : Datagram) : Option SocketEvent :=
  parseEvent (((dgram.header.take 256).rdropWhile isSpace).dropWhile isSpace) dgram.fds

end Kde

/-! ## The GNOME receiver -/

namespace Gnome

structure BufMessage where
  wireSlot : UInt32
  width : UInt32
  height : UInt32
  stride : UInt32
  modifier : UInt64
  hasGeometry : Bool
  geomX : Int32
  geomY : Int32
  dmabufFd : ℤ
  syncFd : ℤ
  deriving DecidableEq, Repr

inductive Message where
  | buf (message : BufMessage)
  | frame (wireSlot : UInt32) (syncFd : ℤ)
  deriving DecidableEq, Repr

/-- `g_ascii_isspace`, which leaves out the vertical tab. -/
def gAsciiIsspace (c : UInt8) : Bool := c == 32 || c == 9 || c == 10 || c == 12 || c == 13

def gStrstrip (s : Bytes) : Bytes := (s.dropWhile gAsciiIsspace).rdropWhile gAsciiIsspace

/-- `g_strsplit` at single blanks; empty fields are kept. -/
def gStrsplit (s : Bytes) : List Bytes := if s = [] then [] else s.splitOnP (· == 32)

/-- The fields that `handle_buf_message` reads before it looks for a monitor. -/
def readBufMessage (parts : List Bytes) (fds : List ℤ) : Option BufMessage :=
  match parts with
  | _ :: slotS :: widthS :: heightS :: _ :: strideS :: modifierS :: rest =>
      let message : BufMessage := ⟨readU32 slotS, readU32 widthS, readU32 heightS,
        readU32 strideS, readU64 modifierS, false, 0, 0, fds.headD (-1), fds.tail.headD (-1)⟩
      match rest with
      | geomXS :: geomYS :: _ =>
          some { message with
            hasGeometry := true, geomX := readI32 geomXS, geomY := readI32 geomYS }
      | _ => some message
  | _ => none

def readFrameMessage (parts : List Bytes) (fds : List ℤ) : Option Message :=
  match parts with
  | _ :: slotS :: _ => some (.frame (readU32 slotS) (fds.headD (-1)))
  | _ => none

/-- The message that `on_capture_socket_readable` hands to its handlers. -/
def receive (dgram : Datagram) : Option Message :=
  let (headerBuf, fds) := recvMsg 255 2 dgram
  let parts := gStrsplit (gStrstrip (cString headerBuf))
  match parts with
  | [] => none
  | tag :: _ =>
      if tag = bytesOf "BUF" then (readBufMessage parts fds).map .buf
      else if tag = bytesOf "FRAME" then readFrameMessage parts fds
      else none

end Gnome

end Wallpiper.Capture
