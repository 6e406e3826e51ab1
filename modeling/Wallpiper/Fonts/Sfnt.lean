import Wallpiper.Fonts.NameTable

/-!
# Rewriting a font file

A font file is a directory of tables and their contents; a collection has
several directories.  One face is read, its 'name' table replaced, and the
tables are sorted by tag, laid out at multiples of four and written with new
checksums.  Every access to a buffer is checked here; the code checks only
some of them.
-/

namespace Wallpiper.Fonts

open Foundations Foundations.CText

inductive FontFault where
  /-- the code returns false -/
  | rejected
  /-- the code reads or writes outside a buffer -/
  | outOfBounds
  deriving DecidableEq, Repr

def byteAt (buf : Bytes) (off : ℕ) : Except FontFault UInt8 :=
  match buf[off]? with
  | some b => .ok b
  | none => .error .outOfBounds

/-- `memcpy` from `off`. -/
def copyBytes (buf : Bytes) (off n : ℕ) : Except FontFault Bytes :=
  if off + n ≤ buf.length then .ok ((buf.drop off).take n) else .error .outOfBounds

def readU16 (buf : Bytes) (off : ℕ) : Except FontFault UInt16 :=
  if off + 2 > buf.length then .error .rejected
  else do
    let b₀ ← byteAt buf off
    let b₁ ← byteAt buf (off + 1)
    .ok (ofU16be b₀ b₁)

def readU32 (buf : Bytes) (off : ℕ) : Except FontFault UInt32 :=
  if off + 4 > buf.length then .error .rejected
  else do
    let b₀ ← byteAt buf off
    let b₁ ← byteAt buf (off + 1)
    let b₂ ← byteAt buf (off + 2)
    let b₃ ← byteAt buf (off + 3)
    .ok (ofU32be b₀ b₁ b₂ b₃)

structure FontTag where
  b₀ : UInt8
  b₁ : UInt8
  b₂ : UInt8
  b₃ : UInt8
  deriving DecidableEq, Repr

def headTag : FontTag := ⟨0x68, 0x65, 0x61, 0x64⟩

def nameTag : FontTag := ⟨0x6e, 0x61, 0x6d, 0x65⟩

def ttcfTag : FontTag := ⟨0x74, 0x74, 0x63, 0x66⟩

def FontTag.bytes (tag : FontTag) : Bytes := [tag.b₀, tag.b₁, tag.b₂, tag.b₃]

def tagAt (buf : Bytes) (off : ℕ) : Except FontFault FontTag := do
  let b₀ ← byteAt buf off
  let b₁ ← byteAt buf (off + 1)
  let b₂ ← byteAt buf (off + 2)
  let b₃ ← byteAt buf (off + 3)
  .ok ⟨b₀, b₁, b₂, b₃⟩

/-- The start of the directory in a face of a collection. -/
def collectionOffset (input : Bytes) (faceIndex : UInt32) : Except FontFault ℕ := do
  let numFonts ← readU32 input 8
  if faceIndex ≥ numFonts then .error .rejected
  else do
    let offset ← readU32 input (12 + faceIndex.toNat * 4)
    .ok offset.toNat

def faceOffset (input : Bytes) (faceIndex : UInt32) : Except FontFault ℕ :=
  if input.length ≥ 12 then do
    let tag ← tagAt input 0
    if tag = ttcfTag then collectionOffset input faceIndex else .ok 0
  else .ok 0

structure FontTable where
  tag : FontTag
  data : Bytes
  deriving DecidableEq, Repr

def readTable (input : Bytes) (entryOff : ℕ) : Except FontFault FontTable :=
  if entryOff + 16 > input.length then .error .rejected
  else do
    let tag ← tagAt input entryOff
    let offset ← readU32 input (entryOff + 8)
    let length ← readU32 input (entryOff + 12)
    if offset.toNat + length.toNat > input.length then .error .rejected
    else do
      let data ← copyBytes input offset.toNat length.toNat
      .ok ⟨tag, data⟩

/-- The directory entries from the `i`-th on. -/
def readTablesFrom (input : Bytes) (sfntOffset : ℕ) (i : ℕ) :
    ℕ → Except FontFault (List FontTable)
  | 0 => .ok []
  | left + 1 => do
      let table ← readTable input (sfntOffset + 12 + i * 16)
      let tables ← readTablesFrom input sfntOffset (i + 1) left
      .ok (table :: tables)

/-- The version and the tables of the directory at an offset. -/
def readTables (input : Bytes) (sfntOffset : ℕ) : Except FontFault (UInt32 × List FontTable) := do
  let version ← readU32 input sfntOffset
  let numTables ← readU16 input (sfntOffset + 4)
  let tables ← readTablesFrom input sfntOffset 0 numTables.toNat
  .ok (version, tables)

/-! ## Writing -/

def checksumWord (bytes : Bytes) : UInt32 := bytes.foldl (fun word b ↦ word <<< 8 ||| b.toUInt32) 0

/-- The sum of the words, the last one filled up with zeros. -/
def tableChecksumFrom (sum : UInt32) : Bytes → UInt32
  | [] => sum
  | [b₀] => sum + checksumWord [b₀, 0, 0, 0]
  | [b₀, b₁] => sum + checksumWord [b₀, b₁, 0, 0]
  | [b₀, b₁, b₂] => sum + checksumWord [b₀, b₁, b₂, 0]
  | b₀ :: b₁ :: b₂ :: b₃ :: data =>
      tableChecksumFrom (sum + checksumWord [b₀, b₁, b₂, b₃]) data

def tableChecksum (data : Bytes) : UInt32 := tableChecksumFrom 0 data

def compareTags (a b : FontTag) : Ordering :=
  (compare a.b₀ b.b₀).then <| (compare a.b₁ b.b₁).then <|
    (compare a.b₂ b.b₂).then (compare a.b₃ b.b₃)

def TagLe (a b : FontTable) : Prop := compareTags a.tag b.tag ≠ .gt

instance : DecidableRel TagLe := fun a b ↦
  inferInstanceAs (Decidable (compareTags a.tag b.tag ≠ .gt))

/-- `qsort` by tag.  Tables of one tag come out in any order. -/
structure TagSort where
  sort : List FontTable → List FontTable
  perm : ∀ tables, (sort tables).Perm tables
  sorted : ∀ tables, (sort tables).Pairwise TagLe

/-- Clear the checksum adjustment of a 'head' table that has one. -/
def clearAdjustment (t : FontTable) : FontTable :=
  if t.tag = headTag ∧ t.data.length ≥ 12 then { t with data := overwrite t.data 8 [0, 0, 0, 0] }
  else t

/-- The loop over `entry_selector`; a 16-bit count ends it within 16 rounds. -/
def entrySelectorFrom (numTables : UInt16) : ℕ → ℕ → ℕ
  | 0, entrySelector => entrySelector
  | rounds + 1, entrySelector =>
      if 2 ^ (entrySelector + 1) ≤ numTables.toNat then
        entrySelectorFrom numTables rounds (entrySelector + 1)
      else entrySelector

def entrySelector (numTables : UInt16) : ℕ := entrySelectorFrom numTables 16 0

/-- The rounds suffice for the loop to end. -/
theorem lt_entrySelector (numTables : UInt16) :
    numTables.toNat < 2 ^ (entrySelector numTables + 1) := by
  have hends : ∀ rounds e, numTables.toNat < 2 ^ (e + rounds + 1) →
      numTables.toNat < 2 ^ (entrySelectorFrom numTables rounds e + 1) := by
    intro rounds
    induction rounds with
    | zero => exact fun e h ↦ h
    | succ rounds ih =>
        intro e h
        rw [entrySelectorFrom]
        split
        · exact ih (e + 1) (by rwa [Nat.add_right_comm e 1 rounds])
        · omega
  apply hends 16 0
  have hlt := numTables.toNat_lt
  omega

def searchRange (numTables : UInt16) : UInt16 := UInt16.ofNat (2 ^ entrySelector numTables * 16)

structure DirEntry where
  tag : FontTag
  checksum : UInt32
  offset : UInt32
  length : UInt32
  deriving DecidableEq, Repr

/-- The body so far with its directory, and where the last 'head' table has
its checksum adjustment. -/
structure TableLayout where
  body : ByteBuf
  directory : List DirEntry
  headChecksumPos : Option ℕ

def TableLayout.empty : TableLayout := ⟨.init, [], none⟩

/-- Append zeros up to a multiple of four. -/
def ByteBuf.align (b : ByteBuf) : ByteBuf :=
  b.append (List.replicate ((4 - b.data.length % 4) % 4) 0)

def placeTable (headerSize : ℕ) (layout : TableLayout) (t : FontTable) : TableLayout :=
  let body := layout.body.align
  let offset := headerSize + body.data.length
  { body := body.append t.data
    directory := layout.directory ++
      [⟨t.tag, tableChecksum t.data, UInt32.ofNat offset, UInt32.ofNat t.data.length⟩]
    headChecksumPos := if t.tag = headTag then some (offset + 8) else layout.headChecksumPos }

def layoutTables (tables : List FontTable) : TableLayout :=
  tables.foldl (placeTable (12 + tables.length * 16)) .empty

def sfntHeader (version : UInt32) (numTables : UInt16) : ByteBuf :=
  ((((ByteBuf.init.appendU32be version).appendU16be numTables).appendU16be
    (searchRange numTables)).appendU16be (UInt16.ofNat (entrySelector numTables))).appendU16be
      (numTables * 16 - searchRange numTables)

def ByteBuf.appendDirEntry (result : ByteBuf) (e : DirEntry) : ByteBuf :=
  (((result.append e.tag.bytes).appendU32be e.checksum).appendU32be e.offset).appendU32be e.length

/-- The file before the checksum adjustment is written. -/
def layoutFile (version : UInt32) (tables : List FontTable) : ByteBuf :=
  ((layoutTables tables).directory.foldl ByteBuf.appendDirEntry
    (sfntHeader version (UInt16.ofNat tables.length))).append
      (layoutTables tables).body.align.data

def ByteBuf.write (b : ByteBuf) (pos : ℕ) (v : UInt8) : Except FontFault ByteBuf :=
  if pos < b.data.length then
    .ok { data := b.data.set pos v
          cap := b.cap
          fits := by
            rw [List.length_set]
            exact b.fits }
  else .error .outOfBounds

def ByteBuf.writeU32be (b : ByteBuf) (pos : ℕ) (v : UInt32) : Except FontFault ByteBuf := do
  let b ← b.write pos (v >>> 24).toUInt8
  let b ← b.write (pos + 1) (v >>> 16).toUInt8
  let b ← b.write (pos + 2) (v >>> 8).toUInt8
  b.write (pos + 3) v.toUInt8

def headChecksumMagic : UInt32 := 0xB1B0AFBA

/-- Write the adjustment that the last 'head' table gets, if there is one. -/
def adjustChecksum (result : ByteBuf) : Option ℕ → Except FontFault ByteBuf
  | none => .ok result
  | some pos => result.writeU32be pos (headChecksumMagic - tableChecksum result.data)

def serialize (qsort : TagSort) (version : UInt32) (tables : List FontTable) :
    Except FontFault ByteBuf :=
  let tables := qsort.sort (tables.map clearAdjustment)
  adjustChecksum (layoutFile version tables) (layoutTables tables).headChecksumPos

/-- The first 'name' table gets the new contents; without one, it is added at
the end. -/
def replaceName (nameTable : Bytes) : List FontTable → List FontTable
  | [] => [⟨nameTag, nameTable⟩]
  | t :: tables =>
      if t.tag = nameTag then { t with data := nameTable } :: tables
      else t :: replaceName nameTable tables

def wpFontRewriteName (qsort : TagSort) (input : Bytes) (faceIndex : UInt32)
    (family subfamily : Bytes) : Except FontFault Bytes := do
  let sfntOffset ← faceOffset input faceIndex
  let (version, tables) ← readTables input sfntOffset
  let nameTable := buildNameTable family subfamily .init
  let result ← serialize qsort version (replaceName nameTable.data tables)
  .ok result.data

end Wallpiper.Fonts
