import Wallpiper.Capture.WireFormat
import Wallpiper.Foundations.BigEndian

/-!
# The generated 'name' table

A renamed font gets a 'name' table of its own: five strings, once as UTF-16BE
for platform 3 and once as they are for platform 1, behind ten records.
Strings are the bytes before their NUL.
-/

namespace Wallpiper.Fonts

open Foundations Foundations.CText
open Capture (snprintf)

/-! ## Byte buffers -/

/-- What is in use of a buffer fits into what is allocated. -/
structure ByteBuf where
  data : Bytes
  cap : ℕ
  fits : data.length ≤ cap

/-- Double the capacity until it suffices. -/
def growCap (need : ℕ) : ℕ → ℕ → ℕ
  | 0, newCap => newCap
  | fuel + 1, newCap => if newCap < need then growCap need fuel (newCap * 2) else newCap

theorem le_growCap (need : ℕ) {fuel newCap : ℕ} (hpos : 0 < newCap) (h : need ≤ newCap + fuel) :
    need ≤ growCap need fuel newCap := by
  induction fuel generalizing newCap with
  | zero => exact h
  | succ fuel ih =>
      rw [growCap]
      split
      · exact ih (by omega) (by omega)
      · omega

namespace ByteBuf

def init : ByteBuf := ⟨[], 0, Nat.le_refl 0⟩

/-- The capacity after `bytebuf_reserve`. -/
def reserveCap (b : ByteBuf) (extra : ℕ) : ℕ :=
  if b.data.length + extra ≤ b.cap then b.cap
  else
    growCap (b.data.length + extra) (b.data.length + extra) (if b.cap = 0 then 256 else b.cap * 2)

theorem le_reserveCap (b : ByteBuf) (extra : ℕ) : b.data.length + extra ≤ b.reserveCap extra := by
  unfold reserveCap
  split
  · assumption
  · apply le_growCap
    · split <;> omega
    · omega

def append (b : ByteBuf) (bytes : Bytes) : ByteBuf :=
  { data := b.data ++ bytes
    cap := b.reserveCap bytes.length
    fits := by
      rw [List.length_append]
      exact b.le_reserveCap bytes.length }

def appendU16be (b : ByteBuf) (v : UInt16) : ByteBuf := b.append (u16be v)

def appendU32be (b : ByteBuf) (v : UInt32) : ByteBuf := b.append (u32be v)

@[simp] theorem init_data : init.data = [] := rfl

@[simp] theorem append_data (b : ByteBuf) (bytes : Bytes) :
    (b.append bytes).data = b.data ++ bytes := rfl

@[simp] theorem appendU16be_data (b : ByteBuf) (v : UInt16) :
    (b.appendU16be v).data = b.data ++ u16be v := rfl

@[simp] theorem appendU32be_data (b : ByteBuf) (v : UInt32) :
    (b.appendU32be v).data = b.data ++ u32be v := rfl

end ByteBuf

/-! ## UTF-16 -/

/-- The bits of a leading byte and the number of bytes that follow it. -/
def utf8Lead (c : UInt8) : Option (UInt32 × ℕ) :=
  if c < 0x80 then some (c.toUInt32, 0)
  else if c &&& 0xE0 = 0xC0 then some ((c &&& 0x1F).toUInt32, 1)
  else if c &&& 0xF0 = 0xE0 then some ((c &&& 0x0F).toUInt32, 2)
  else if c &&& 0xF8 = 0xF0 then some ((c &&& 0x07).toUInt32, 3)
  else none

/-- The code point with the bytes that follow; the NUL at the end of the
string is none of them. -/
def utf8Tail : ℕ → UInt32 → Bytes → Option (UInt32 × Bytes)
  | 0, cp, p => some (cp, p)
  | _ + 1, _, [] => none
  | extra + 1, cp, c :: p =>
      if c &&& 0xC0 ≠ 0x80 then none
      else utf8Tail extra (cp <<< 6 ||| (c &&& 0x3F).toUInt32) p

theorem length_utf8Tail {extra : ℕ} {cp cp' : UInt32} {p rest : Bytes}
    (h : utf8Tail extra cp p = some (cp', rest)) : rest.length ≤ p.length := by
  induction extra generalizing cp p with
  | zero =>
      obtain ⟨rfl, rfl⟩ := Prod.mk.inj (Option.some.inj h)
      exact Nat.le_refl _
  | succ extra ih =>
      cases p with
      | nil => exact absurd h (by simp [utf8Tail])
      | cons c p =>
          rw [utf8Tail] at h
          split at h
          · exact absurd h (by simp)
          · exact (ih h).trans (Nat.le_succ _)

def appendCodePoint (b : ByteBuf) (cp : UInt32) : ByteBuf :=
  if cp ≤ 0xFFFF then b.appendU16be cp.toUInt16
  else
    (b.appendU16be (0xD800 + (cp - 0x10000) >>> (10 : UInt32)).toUInt16).appendU16be
      (0xDC00 + ((cp - 0x10000) &&& 0x3FF)).toUInt16

/-- A byte that starts no valid sequence is skipped. -/
def appendUtf16be (b : ByteBuf) : Bytes → ByteBuf
  | [] => b
  | c :: p =>
      match utf8Lead c with
      | none => appendUtf16be b p
      | some (bits, extra) =>
          match h : utf8Tail extra bits p with
          | none => appendUtf16be b p
          | some (cp, rest) =>
              have := length_utf8Tail h
              appendUtf16be (appendCodePoint b cp) rest
termination_by s => s.length

/-! ## The table -/

/-- Copying stops when the buffer is full. -/
def stripSpaces (s : Bytes) (outLen : ℕ) : Bytes := (s.filter (· ≠ 32)).take (outLen - 1)

def tolower (c : UInt8) : UInt8 := if 65 ≤ c ∧ c ≤ 90 then c + 32 else c

/-- `strcasecmp(a, b) == 0` in the C locale. -/
def sameIgnoringCase (a b : Bytes) : Bool := a.map tolower == b.map tolower

def fullName (family subfamily : Bytes) : Bytes :=
  if sameIgnoringCase subfamily (bytesOf "regular") then snprintf 512 family
  else snprintf 512 (family ++ [32] ++ subfamily)

def postscriptName (family subfamily : Bytes) : Bytes :=
  snprintf 512 (stripSpaces family 256 ++ [45] ++ stripSpaces subfamily 256)

def uniqueId (family subfamily : Bytes) : Bytes :=
  snprintf 600 (bytesOf "1.000;WLPR;" ++ postscriptName family subfamily)

/-- The name ids with their strings. -/
def nameEntries (family subfamily : Bytes) : List (UInt16 × Bytes) :=
  [(1, family), (2, subfamily), (3, uniqueId family subfamily), (4, fullName family subfamily),
    (6, postscriptName family subfamily)]

structure NameRecord where
  platformId : UInt16
  encodingId : UInt16
  languageId : UInt16
  nameId : UInt16
  length : UInt16
  offset : UInt16
  deriving DecidableEq, Repr

/-- Platform, encoding and language. -/
def namePlatforms : List (UInt16 × UInt16 × UInt16) := [(3, 1, 0x0409), (1, 0, 0)]

/-- Store one string and record where it is. -/
def addNameRecord (platform : UInt16 × UInt16 × UInt16) (st : ByteBuf × List NameRecord)
    (entry : UInt16 × Bytes) : ByteBuf × List NameRecord :=
  let storage :=
    if platform.1 = 3 then appendUtf16be st.1 entry.2 else st.1.append entry.2
  (storage, st.2 ++ [{
    platformId := platform.1
    encodingId := platform.2.1
    languageId := platform.2.2
    nameId := entry.1
    length := UInt16.ofNat (storage.data.length - st.1.data.length)
    offset := UInt16.ofNat st.1.data.length }])

def nameRecords (family subfamily : Bytes) : ByteBuf × List NameRecord :=
  namePlatforms.foldl
    (fun st platform ↦ (nameEntries family subfamily).foldl (addNameRecord platform) st)
    (.init, [])

def NameRecord.bytes (r : NameRecord) : Bytes :=
  u16be r.platformId ++ u16be r.encodingId ++ u16be r.languageId ++ u16be r.nameId ++
    u16be r.length ++ u16be r.offset

def ByteBuf.appendNameRecord (out : ByteBuf) (r : NameRecord) : ByteBuf :=
  (((((out.appendU16be r.platformId).appendU16be r.encodingId).appendU16be
    r.languageId).appendU16be r.nameId).appendU16be r.length).appendU16be r.offset

def buildNameTable (family subfamily : Bytes) (out : ByteBuf) : ByteBuf :=
  let storage := (nameRecords family subfamily).1
  let records := (nameRecords family subfamily).2
  let count := UInt16.ofNat records.length
  let header := ((out.appendU16be 0).appendU16be count).appendU16be (6 + count * 12)
  (records.foldl ByteBuf.appendNameRecord header).append storage.data

theorem appendNameRecord_data (out : ByteBuf) (r : NameRecord) :
    (out.appendNameRecord r).data = out.data ++ r.bytes := by
  simp [ByteBuf.appendNameRecord, NameRecord.bytes]

theorem foldl_appendNameRecord_data (out : ByteBuf) (records : List NameRecord) :
    (records.foldl ByteBuf.appendNameRecord out).data =
      out.data ++ records.flatMap NameRecord.bytes := by
  induction records generalizing out with
  | nil => simp
  | cons r records ih =>
      rw [List.foldl_cons, ih, appendNameRecord_data, List.flatMap_cons, List.append_assoc]

theorem length_nameRecords (family subfamily : Bytes) :
    (nameRecords family subfamily).2.length = 10 := by
  rfl

/-- The header and the ten records come before the strings. -/
theorem length_buildNameTable (family subfamily : Bytes) (out : ByteBuf) :
    (buildNameTable family subfamily out).data.length =
      out.data.length + 126 + (nameRecords family subfamily).1.data.length := by
  have hbytes : ∀ r : NameRecord, r.bytes.length = 12 := fun _ ↦ rfl
  have hrecords : ((nameRecords family subfamily).2.flatMap NameRecord.bytes).length = 120 := by
    rw [List.length_flatMap]
    simp [hbytes, length_nameRecords]
  simp only [buildNameTable, ByteBuf.append_data, foldl_appendNameRecord_data,
    ByteBuf.appendU16be_data, List.length_append, length_u16be, hrecords]

end Wallpiper.Fonts
