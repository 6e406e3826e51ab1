import Wallpiper.Foundations.Utf16
import Wallpiper.Fonts.Layout

/-!
# The generated 'name' table is well formed

The table is read back record by record.  The slices of its records follow
each other in the storage, from its start to the end of the table, and each
of them is the string that is meant, in UTF-16BE or as it is.
-/

namespace Wallpiper.Fonts

open Foundations Foundations.CText Foundations.Unicode
open Capture (snprintf)

/-! ## Valid UTF-8 is transcoded character by character -/

theorem utf8Lead_one : ∀ x : Fin 128, utf8Lead (UInt8.ofNat x.1) = some (UInt32.ofNat x.1, 0) := by
  decide

theorem utf8Lead_two :
    ∀ x : Fin 32, utf8Lead (UInt8.ofNat (x.1 + 0xC0)) = some (UInt32.ofNat x.1, 1) := by
  decide

theorem utf8Lead_three :
    ∀ x : Fin 16, utf8Lead (UInt8.ofNat (x.1 + 0xE0)) = some (UInt32.ofNat x.1, 2) := by
  decide

theorem utf8Lead_four :
    ∀ x : Fin 8, utf8Lead (UInt8.ofNat (x.1 + 0xF0)) = some (UInt32.ofNat x.1, 3) := by
  decide

theorem continuation_bits : ∀ x : Fin 64, UInt8.ofNat (x.1 + 0x80) &&& 0xC0 = 0x80 ∧
    (UInt8.ofNat (x.1 + 0x80) &&& 0x3F).toUInt32 = UInt32.ofNat x.1 := by
  decide

/-- A byte that continues a sequence adds six bits. -/
theorem utf8Tail_succ {a x : ℕ} (ha : a < 2 ^ 26) (hx : x < 64) (extra : ℕ) (p : Bytes) :
    utf8Tail (extra + 1) (UInt32.ofNat a) (UInt8.ofNat (x + 0x80) :: p) =
      utf8Tail extra (UInt32.ofNat (a * 64 + x)) p := by
  obtain ⟨hmark, hbits⟩ := continuation_bits ⟨x, hx⟩
  have hshift : UInt32.ofNat a <<< 6 ||| UInt32.ofNat x = UInt32.ofNat (a * 64 + x) := by
    apply UInt32.toNat_inj.mp
    have hsix : (6 : UInt32).toNat % 32 = 6 := rfl
    rw [UInt32.toNat_or, UInt32.toNat_shiftLeft, hsix, UInt32.toNat_ofNat', UInt32.toNat_ofNat',
      UInt32.toNat_ofNat', Nat.shiftLeft_eq, Nat.mod_eq_of_lt (show a < 2 ^ 32 by omega),
      Nat.mod_eq_of_lt (show a * 2 ^ 6 < 2 ^ 32 by omega),
      Nat.mod_eq_of_lt (show x < 2 ^ 32 by omega),
      Nat.mod_eq_of_lt (show a * 64 + x < 2 ^ 32 by omega), mul_or 6 (by omega)]
    omega
  rw [utf8Tail, if_neg (by simpa using hmark), hbits, hshift]

theorem char_toNat_lt (c : Char) : c.toNat < 0x110000 := by
  have hvalid := c.valid
  simp only [UInt32.isValidChar, Nat.isValidChar] at hvalid
  rw [Char.toNat]
  omega

/-- The bytes of a character are decoded to its code point. -/
theorem decode_utf8EncodeChar (c : Char) (rest : Bytes) :
    ∃ c₀ tail bits extra, String.utf8EncodeChar c = c₀ :: tail ∧
      utf8Lead c₀ = some (bits, extra) ∧
      utf8Tail extra bits (tail ++ rest) = some (UInt32.ofNat c.toNat, rest) := by
  have hmax := char_toNat_lt c
  have hv : c.val.toNat = c.toNat := rfl
  simp only [String.utf8EncodeChar, hv]
  split
  · rename_i h
    exact ⟨_, _, _, _, rfl, utf8Lead_one ⟨c.toNat, by omega⟩, rfl⟩
  · split
    · rename_i h
      refine ⟨_, _, _, _, rfl, utf8Lead_two ⟨c.toNat / 64 % 0x20, by omega⟩, ?_⟩
      rw [List.cons_append, List.nil_append, utf8Tail_succ (by omega) (by omega), utf8Tail,
        show c.toNat / 64 % 0x20 * 64 + c.toNat % 0x40 = c.toNat by omega]
    · split
      · rename_i h
        refine ⟨_, _, _, _, rfl, utf8Lead_three ⟨c.toNat / 4096 % 0x10, by omega⟩, ?_⟩
        rw [List.cons_append, List.cons_append, List.nil_append,
          utf8Tail_succ (by omega) (by omega), utf8Tail_succ (by omega) (by omega), utf8Tail,
          show (c.toNat / 4096 % 0x10 * 64 + c.toNat / 64 % 0x40) * 64 + c.toNat % 0x40 =
            c.toNat by omega]
      · refine ⟨_, _, _, _, rfl, utf8Lead_four ⟨c.toNat / 262144 % 0x08, by omega⟩, ?_⟩
        rw [List.cons_append, List.cons_append, List.cons_append, List.nil_append,
          utf8Tail_succ (by omega) (by omega), utf8Tail_succ (by omega) (by omega),
          utf8Tail_succ (by omega) (by omega), utf8Tail,
          show ((c.toNat / 262144 % 0x08 * 64 + c.toNat / 4096 % 0x40) * 64 +
            c.toNat / 64 % 0x40) * 64 + c.toNat % 0x40 = c.toNat by omega]

theorem appendCodePoint_codeUnits (b : ByteBuf) {cp : ℕ} (h : cp < 2 ^ 32) :
    (appendCodePoint b (UInt32.ofNat cp)).data = b.data ++ (codeUnits cp).flatMap u16be := by
  have hcp : (UInt32.ofNat cp).toNat = cp := by
    rw [UInt32.toNat_ofNat', Nat.mod_eq_of_lt h]
  have hle : UInt32.ofNat cp ≤ 0xFFFF ↔ cp ≤ 0xFFFF := by
    rw [UInt32.le_iff_toNat_le, hcp]
    rfl
  rw [appendCodePoint, codeUnits]
  by_cases hsmall : cp ≤ 0xFFFF
  · have hunit : (UInt32.ofNat cp).toUInt16 = UInt16.ofNat cp := by
      apply UInt16.toNat_inj.mp
      rw [UInt32.toNat_toUInt16, hcp, UInt16.toNat_ofNat']
    rw [if_pos (hle.mpr hsmall), if_pos hsmall, ByteBuf.appendU16be_data, hunit,
      List.flatMap_singleton]
  · have hsub : (UInt32.ofNat cp - 0x10000).toNat = cp - 0x10000 := by
      rw [UInt32.toNat_sub_of_le _ _ (by rw [UInt32.le_iff_toNat_le, hcp]; simp; omega), hcp]
      rfl
    have hhigh : (0xD800 + (UInt32.ofNat cp - 0x10000) >>> (10 : UInt32)).toUInt16 =
        UInt16.ofNat (0xD800 + (cp - 0x10000) / 0x400) := by
      apply UInt16.toNat_inj.mp
      have hten : (10 : UInt32).toNat % 32 = 10 := rfl
      have hbase : (0xD800 : UInt32).toNat = 0xD800 := rfl
      rw [UInt32.toNat_toUInt16, UInt32.toNat_add, UInt32.toNat_shiftRight, hsub, hten, hbase,
        UInt16.toNat_ofNat', Nat.shiftRight_eq_div_pow, Nat.mod_mod_of_dvd _ (by decide)]
    have hlow : (0xDC00 + ((UInt32.ofNat cp - 0x10000) &&& 0x3FF)).toUInt16 =
        UInt16.ofNat (0xDC00 + (cp - 0x10000) % 0x400) := by
      apply UInt16.toNat_inj.mp
      have hmask : (0x3FF : UInt32).toNat = 2 ^ 10 - 1 := rfl
      have hbase : (0xDC00 : UInt32).toNat = 0xDC00 := rfl
      rw [UInt32.toNat_toUInt16, UInt32.toNat_add, UInt32.toNat_and, hsub, hmask, hbase,
        UInt16.toNat_ofNat', Nat.and_two_pow_sub_one_eq_mod, Nat.mod_mod_of_dvd _ (by decide)]
    rw [if_neg (hle.not.mpr hsmall), if_neg hsmall, ByteBuf.appendU16be_data,
      ByteBuf.appendU16be_data, hhigh, hlow, List.append_assoc]
    simp

theorem appendCodePoint_data (b : ByteBuf) (c : Char) :
    (appendCodePoint b (UInt32.ofNat c.toNat)).data = b.data ++ utf16beChar c := by
  have hmax := char_toNat_lt c
  rw [appendCodePoint_codeUnits b (by omega), utf16beChar_eq]

theorem appendUtf16be_data (b : ByteBuf) (s : List Char) :
    (appendUtf16be b (utf8 s)).data = b.data ++ utf16be s := by
  induction s generalizing b with
  | nil =>
      rw [utf8_nil, appendUtf16be]
      simp
  | cons c s ih =>
      obtain ⟨c₀, tail, bits, extra, hbytes, hlead, htail⟩ := decode_utf8EncodeChar c (utf8 s)
      rw [utf8_cons, hbytes, List.cons_append, appendUtf16be, hlead]
      simp only
      split
      · rename_i hnone
        exact absurd (hnone.symm.trans htail) (by simp)
      · rename_i cp rest hsome
        obtain ⟨rfl, rfl⟩ : cp = UInt32.ofNat c.toNat ∧ rest = utf8 s := by
          simpa using hsome.symm.trans htail
        rw [ih, appendCodePoint_data, utf16be_cons, List.append_assoc]

/-! ## The strings that are meant -/

namespace Intended

/-- A regular face is named by its family alone. -/
def fullName (family subfamily : List Char) : List Char :=
  if subfamily.map Char.toLower = "regular".toList then family
  else family ++ ' ' :: subfamily

def postscriptName (family subfamily : List Char) : List Char :=
  family.filter (· ≠ ' ') ++ '-' :: subfamily.filter (· ≠ ' ')

def idMark : List Char := "1.000;WLPR;".toList

def uniqueId (family subfamily : List Char) : List Char :=
  idMark ++ postscriptName family subfamily

def names (family subfamily : List Char) : List (UInt16 × List Char) :=
  [(1, family), (2, subfamily), (3, uniqueId family subfamily), (4, fullName family subfamily),
    (6, postscriptName family subfamily)]

end Intended

theorem utf8EncodeChar_toLower (c : Char) :
    String.utf8EncodeChar c.toLower = (String.utf8EncodeChar c).map tolower := by
  have hascii : ∀ x : Fin 128, String.utf8EncodeChar (Char.ofNat x.1).toLower =
      (String.utf8EncodeChar (Char.ofNat x.1)).map tolower := by
    decide
  by_cases hc : c.toNat < 0x80
  · have hchar := hascii ⟨c.toNat, hc⟩
    rwa [Char.ofNat_toNat] at hchar
  · have hsame : c.toLower = c := by
      apply dif_neg
      rintro ⟨-, hle⟩
      rw [UInt32.le_iff_toNat_le] at hle
      have hz : 'Z'.val.toNat = 90 := rfl
      have hv : c.val.toNat = c.toNat := rfl
      omega
    have hbytes : (String.utf8EncodeChar c).map tolower = String.utf8EncodeChar c := by
      refine (List.map_congr_left fun b hb ↦ ?_).trans (List.map_id _)
      have hle := le_of_mem_utf8EncodeChar (Nat.not_lt.mp hc) hb
      apply if_neg
      rintro ⟨-, hz⟩
      rw [UInt8.le_iff_toNat_le] at hz
      have hz' : (90 : UInt8).toNat = 90 := rfl
      omega
    rw [hsame, hbytes]

theorem sameIgnoringCase_regular (s : List Char) :
    sameIgnoringCase (utf8 s) (bytesOf "regular") = true ↔
      s.map Char.toLower = "regular".toList := by
  have hregular : (bytesOf "regular").map tolower = utf8 "regular".toList := by decide
  rw [sameIgnoringCase, beq_iff_eq, ← utf8_map utf8EncodeChar_toLower, hregular]
  exact ⟨utf8_inj, congrArg utf8⟩

theorem stripSpaces_utf8 {s : List Char} (h : (utf8 s).length < 256) :
    stripSpaces (utf8 s) 256 = utf8 (s.filter (· ≠ ' ')) := by
  have hle := List.length_filter_le (· ≠ 32) (utf8 s)
  rw [stripSpaces, utf8_filter_ne (by decide), List.take_of_length_le (by omega)]
  rfl

section

variable {family subfamily : List Char} (hfamily : (utf8 family).length < 256)
  (hsubfamily : (utf8 subfamily).length < 256)
include hfamily hsubfamily

theorem fullName_utf8 :
    fullName (utf8 family) (utf8 subfamily) = utf8 (Intended.fullName family subfamily) := by
  rw [fullName, Intended.fullName]
  simp only [sameIgnoringCase_regular]
  split
  · exact List.take_of_length_le (by omega)
  · have hspace : utf8 (family ++ ' ' :: subfamily) = utf8 family ++ [32] ++ utf8 subfamily := by
      rw [utf8_append, utf8_cons, List.append_assoc]
      rfl
    rw [hspace]
    exact List.take_of_length_le (by simp only [List.length_append, List.length_singleton]; omega)

theorem length_postscriptName_le :
    (utf8 (Intended.postscriptName family subfamily)).length ≤ 511 := by
  have hf := List.length_filter_le (· ≠ UInt8.ofNat ' '.toNat) (utf8 family)
  have hs := List.length_filter_le (· ≠ UInt8.ofNat ' '.toNat) (utf8 subfamily)
  rw [Intended.postscriptName, utf8_append, utf8_cons, utf8_filter_ne (by decide),
    utf8_filter_ne (by decide), List.length_append, List.length_append]
  have hdash : (String.utf8EncodeChar '-').length = 1 := rfl
  omega

theorem postscriptName_utf8 :
    postscriptName (utf8 family) (utf8 subfamily) =
      utf8 (Intended.postscriptName family subfamily) := by
  have hle := length_postscriptName_le hfamily hsubfamily
  have hdash : utf8 (Intended.postscriptName family subfamily) =
      utf8 (family.filter (· ≠ ' ')) ++ [45] ++ utf8 (subfamily.filter (· ≠ ' ')) := by
    rw [Intended.postscriptName, utf8_append, utf8_cons, List.append_assoc]
    rfl
  rw [postscriptName, stripSpaces_utf8 hfamily, stripSpaces_utf8 hsubfamily, ← hdash]
  exact List.take_of_length_le hle

theorem uniqueId_utf8 :
    uniqueId (utf8 family) (utf8 subfamily) = utf8 (Intended.uniqueId family subfamily) := by
  have hle := length_postscriptName_le hfamily hsubfamily
  have hmark : utf8 Intended.idMark = bytesOf "1.000;WLPR;" := by decide
  have hlength : (bytesOf "1.000;WLPR;").length = 11 := by decide
  rw [uniqueId, postscriptName_utf8 hfamily hsubfamily, Intended.uniqueId, utf8_append, hmark,
    snprintf, List.take_of_length_le]
  rw [List.length_append, hlength]
  omega

/-- No buffer is too small for the string it holds. -/
theorem nameEntries_utf8 :
    nameEntries (utf8 family) (utf8 subfamily) =
      (Intended.names family subfamily).map fun n ↦ (n.1, utf8 n.2) := by
  rw [nameEntries, uniqueId_utf8 hfamily hsubfamily, fullName_utf8 hfamily hsubfamily,
    postscriptName_utf8 hfamily hsubfamily]
  rfl

end

/-! ## The storage and its records -/

/-- A string as it is stored for a platform. -/
structure StoredName where
  platform : UInt16 × UInt16 × UInt16
  nameId : UInt16
  content : Bytes

def storedName (platform : UInt16 × UInt16 × UInt16) (n : UInt16 × List Char) : StoredName where
  platform := platform
  nameId := n.1
  content := if platform.1 = 3 then utf16be n.2 else utf8 n.2

def StoredName.record (offset : ℕ) (n : StoredName) : NameRecord where
  platformId := n.platform.1
  encodingId := n.platform.2.1
  languageId := n.platform.2.2
  nameId := n.nameId
  length := UInt16.ofNat n.content.length
  offset := UInt16.ofNat offset

def storage (stored : List StoredName) : Bytes := stored.flatMap StoredName.content

/-- The records of strings that are stored from an offset on. -/
def recordsFrom (offset : ℕ) : List StoredName → List NameRecord
  | [] => []
  | n :: stored => n.record offset :: recordsFrom (offset + n.content.length) stored

theorem recordsFrom_append (offset : ℕ) (left right : List StoredName) :
    recordsFrom offset (left ++ right) =
      recordsFrom offset left ++ recordsFrom (offset + (storage left).length) right := by
  induction left generalizing offset with
  | nil => rfl
  | cons n left ih =>
      rw [List.cons_append, recordsFrom, ih, recordsFrom, storage, storage, List.flatMap_cons,
        List.length_append, Nat.add_assoc]
      rfl

theorem addNameRecord_utf8 (platform : UInt16 × UInt16 × UInt16) (st : ByteBuf × List NameRecord)
    (n : UInt16 × List Char) :
    (addNameRecord platform st (n.1, utf8 n.2)).1.data =
        st.1.data ++ (storedName platform n).content ∧
      (addNameRecord platform st (n.1, utf8 n.2)).2 =
        st.2 ++ [(storedName platform n).record st.1.data.length] := by
  have hdata : (addNameRecord platform st (n.1, utf8 n.2)).1.data =
      st.1.data ++ (storedName platform n).content := by
    simp only [addNameRecord, storedName]
    split
    · exact appendUtf16be_data st.1 n.2
    · rfl
  refine ⟨hdata, ?_⟩
  have hlength : (addNameRecord platform st (n.1, utf8 n.2)).1.data.length - st.1.data.length =
      (storedName platform n).content.length := by
    rw [hdata, List.length_append, Nat.add_sub_cancel_left]
  rw [StoredName.record, ← hlength]
  rfl

theorem foldl_addNameRecord (platform : UInt16 × UInt16 × UInt16)
    (names : List (UInt16 × List Char)) (st : ByteBuf × List NameRecord) :
    ((names.map fun n ↦ (n.1, utf8 n.2)).foldl (addNameRecord platform) st).1.data =
        st.1.data ++ storage (names.map (storedName platform)) ∧
      ((names.map fun n ↦ (n.1, utf8 n.2)).foldl (addNameRecord platform) st).2 =
        st.2 ++ recordsFrom st.1.data.length (names.map (storedName platform)) := by
  induction names generalizing st with
  | nil => exact ⟨(List.append_nil _).symm, (List.append_nil _).symm⟩
  | cons n names ih =>
      obtain ⟨hdata, hrecords⟩ := addNameRecord_utf8 platform st n
      obtain ⟨hdata', hrecords'⟩ := ih (addNameRecord platform st (n.1, utf8 n.2))
      rw [List.map_cons, List.foldl_cons, List.map_cons]
      refine ⟨?_, ?_⟩
      · rw [hdata', hdata, storage, storage, List.flatMap_cons, List.append_assoc]
      · rw [hrecords', hrecords, hdata, List.length_append, List.append_assoc]
        rfl

/-- The ten strings, in the order of their records. -/
def storedNames (family subfamily : List Char) : List StoredName :=
  namePlatforms.flatMap fun platform ↦
    (Intended.names family subfamily).map (storedName platform)

theorem nameRecords_utf8 {family subfamily : List Char} (hfamily : (utf8 family).length < 256)
    (hsubfamily : (utf8 subfamily).length < 256) :
    (nameRecords (utf8 family) (utf8 subfamily)).1.data = storage (storedNames family subfamily) ∧
      (nameRecords (utf8 family) (utf8 subfamily)).2 =
        recordsFrom 0 (storedNames family subfamily) := by
  rw [nameRecords, nameEntries_utf8 hfamily hsubfamily, namePlatforms, List.foldl_cons,
    List.foldl_cons, List.foldl_nil]
  obtain ⟨hdata₃, hrecords₃⟩ := foldl_addNameRecord (3, 1, 0x0409)
    (Intended.names family subfamily) (.init, [])
  obtain ⟨hdata₁, hrecords₁⟩ := foldl_addNameRecord (1, 0, 0) (Intended.names family subfamily)
    (((Intended.names family subfamily).map fun n ↦ (n.1, utf8 n.2)).foldl
      (addNameRecord (3, 1, 0x0409)) (.init, []))
  have hsplit : storedNames family subfamily =
      (Intended.names family subfamily).map (storedName (3, 1, 0x0409)) ++
        (Intended.names family subfamily).map (storedName (1, 0, 0)) := by
    rw [storedNames, namePlatforms, List.flatMap_cons, List.flatMap_cons, List.flatMap_nil,
      List.append_nil]
  refine ⟨?_, ?_⟩
  · rw [hdata₁, hdata₃, hsplit, storage, storage, storage, List.flatMap_append, ByteBuf.init_data,
      List.nil_append]
  · rw [hrecords₁, hrecords₃, hdata₃, hsplit, recordsFrom_append, ByteBuf.init_data,
      List.nil_append, List.nil_append, List.length_nil, Nat.zero_add]

/-! ## Slices -/

/-- The bytes that a record describes in a table. -/
def NameRecord.slice (r : NameRecord) (table : Bytes) (storageOffset : ℕ) : Bytes :=
  (table.drop (storageOffset + r.offset.toNat)).take r.length.toNat

/-- The slices of records follow each other from a place to another. -/
def Tiles (storageOffset : ℕ) : ℕ → List NameRecord → ℕ → Prop
  | start, [], stop => start = stop
  | start, r :: records, stop =>
      storageOffset + r.offset.toNat = start ∧
        Tiles storageOffset (start + r.length.toNat) records stop

theorem toNat_record {offset : ℕ} {n : StoredName} (h : offset + n.content.length < 65536) :
    (n.record offset).offset.toNat = offset ∧
      (n.record offset).length.toNat = n.content.length := by
  refine ⟨?_, ?_⟩
  · exact UInt16.toNat_ofNat_of_lt' (show offset < 65536 by omega)
  · exact UInt16.toNat_ofNat_of_lt' (show n.content.length < 65536 by omega)

theorem length_storage_cons (n : StoredName) (stored : List StoredName) :
    (storage (n :: stored)).length = n.content.length + (storage stored).length := by
  rw [storage, List.flatMap_cons, List.length_append]
  rfl

theorem tiles_recordsFrom {storageOffset offset : ℕ} {stored : List StoredName}
    (h : offset + (storage stored).length < 65536) :
    Tiles storageOffset (storageOffset + offset) (recordsFrom offset stored)
      (storageOffset + offset + (storage stored).length) := by
  induction stored generalizing offset with
  | nil => exact rfl
  | cons n stored ih =>
      have hlength := length_storage_cons n stored
      obtain ⟨hoffset, hcontent⟩ := @toNat_record offset n (by omega)
      refine ⟨by rw [hoffset], ?_⟩
      have hstop : storageOffset + offset + (storage (n :: stored)).length =
          storageOffset + (offset + n.content.length) + (storage stored).length := by omega
      rw [hcontent, hstop, Nat.add_assoc]
      exact ih (by omega)

theorem slices_recordsFrom {table front pre : Bytes} {stored : List StoredName}
    (htable : table = front ++ (pre ++ storage stored))
    (h : pre.length + (storage stored).length < 65536) :
    (recordsFrom pre.length stored).map
        (fun r ↦ (r.platformId, r.nameId, r.slice table front.length)) =
      stored.map fun n ↦ (n.platform.1, n.nameId, n.content) := by
  induction stored generalizing pre with
  | nil => rfl
  | cons n stored ih =>
      have hlength := length_storage_cons n stored
      obtain ⟨hoffset, hcontent⟩ := @toNat_record pre.length n (by omega)
      have hcons : storage (n :: stored) = n.content ++ storage stored := List.flatMap_cons
      have hfirst : (n.record pre.length).slice table front.length = n.content := by
        rw [NameRecord.slice, hoffset, hcontent, htable, hcons, ← List.append_assoc,
          ← List.length_append, List.drop_left, List.take_left]
      have hrest := @ih (pre ++ n.content) (by rw [htable, hcons, List.append_assoc])
        (by rw [List.length_append]; omega)
      rw [List.length_append] at hrest
      rw [recordsFrom, List.map_cons, List.map_cons, hfirst, hrest]
      rfl

/-! ## Reading a table -/

def readRecord (table : Bytes) (off : ℕ) : Except FontFault NameRecord := do
  let platformId ← readU16 table off
  let encodingId ← readU16 table (off + 2)
  let languageId ← readU16 table (off + 4)
  let nameId ← readU16 table (off + 6)
  let length ← readU16 table (off + 8)
  let offset ← readU16 table (off + 10)
  .ok { platformId, encodingId, languageId, nameId, length, offset }

def readRecordsFrom (table : Bytes) (i : ℕ) : ℕ → Except FontFault (List NameRecord)
  | 0 => .ok []
  | left + 1 => do
      let r ← readRecord table (6 + i * 12)
      let records ← readRecordsFrom table (i + 1) left
      .ok (r :: records)

structure NameTable where
  format : UInt16
  storageOffset : UInt16
  records : List NameRecord
  deriving DecidableEq, Repr

def readNameTable (table : Bytes) : Except FontFault NameTable := do
  let format ← readU16 table 0
  let count ← readU16 table 2
  let storageOffset ← readU16 table 4
  let records ← readRecordsFrom table 0 count.toNat
  .ok { format, storageOffset, records }

theorem length_nameRecord_bytes (r : NameRecord) : r.bytes.length = 12 := rfl

/-- Numbers of two bytes in a row, each read at its place. -/
theorem readU16_words {table pre post : Bytes} {words : List UInt16} {k : ℕ} {v : UInt16}
    (htable : table = pre ++ (words.flatMap u16be ++ post)) (hk : words[k]? = some v) :
    readU16 table (pre.length + 2 * k) = .ok v := by
  induction words generalizing pre k with
  | nil => exact absurd hk (by simp)
  | cons w words ih =>
      have hhere : table = pre ++ (u16be w ++ (words.flatMap u16be ++ post)) := by
        rw [htable, List.flatMap_cons, List.append_assoc]
      cases k with
      | zero =>
          obtain rfl : w = v := by simpa using hk
          rw [hhere]
          exact (readU16_append pre _ 0).trans (readU16_u16be w _)
      | succ k =>
          have hrest : table = (pre ++ u16be w) ++ (words.flatMap u16be ++ post) := by
            rw [hhere, List.append_assoc]
          have hread := ih hrest (by simpa using hk)
          rwa [List.length_append, length_u16be, Nat.add_assoc, Nat.add_comm 2] at hread

/-- The fields of a record, read at its place in a table. -/
theorem readRecord_bytes {table pre post : Bytes} {r : NameRecord}
    (htable : table = pre ++ (r.bytes ++ post)) : readRecord table pre.length = .ok r := by
  have hwords : table = pre ++ ([r.platformId, r.encodingId, r.languageId, r.nameId, r.length,
      r.offset].flatMap u16be ++ post) := htable
  rw [readRecord, show readU16 table pre.length = .ok r.platformId from
      @readU16_words _ _ _ _ 0 _ hwords rfl,
    @readU16_words _ _ _ _ 1 _ hwords rfl, @readU16_words _ _ _ _ 2 _ hwords rfl,
    @readU16_words _ _ _ _ 3 _ hwords rfl, @readU16_words _ _ _ _ 4 _ hwords rfl,
    @readU16_words _ _ _ _ 5 _ hwords rfl]
  rfl

theorem readRecordsFrom_bytes {table pre post : Bytes} {records : List NameRecord} {i : ℕ}
    (htable : table = pre ++ (records.flatMap NameRecord.bytes ++ post))
    (hpre : pre.length = 6 + i * 12) : readRecordsFrom table i records.length = .ok records := by
  induction records generalizing pre i with
  | nil => rfl
  | cons r records ih =>
      have hhere : table = pre ++ (r.bytes ++ (records.flatMap NameRecord.bytes ++ post)) := by
        rw [htable, List.flatMap_cons, List.append_assoc]
      have hrest : table = (pre ++ r.bytes) ++ (records.flatMap NameRecord.bytes ++ post) := by
        rw [hhere, List.append_assoc]
      have hlength : (pre ++ r.bytes).length = 6 + (i + 1) * 12 := by
        rw [List.length_append, length_nameRecord_bytes, hpre]
        omega
      have hrecord := readRecord_bytes hhere
      rw [hpre] at hrecord
      rw [List.length_cons, readRecordsFrom, hrecord, ih hrest hlength]
      rfl

theorem readNameTable_header {table post : Bytes} {format count storageOffset : UInt16}
    {records : List NameRecord} (hcount : count.toNat = records.length)
    (htable : table = [format, count, storageOffset].flatMap u16be ++
      (records.flatMap NameRecord.bytes ++ post)) :
    readNameTable table = .ok { format, storageOffset, records } := by
  have hwords : table = [] ++ ([format, count, storageOffset].flatMap u16be ++
      (records.flatMap NameRecord.bytes ++ post)) := htable
  rw [readNameTable, show readU16 table 0 = .ok format from @readU16_words _ _ _ _ 0 _ hwords rfl,
    show readU16 table 2 = .ok count from @readU16_words _ _ _ _ 1 _ hwords rfl,
    show readU16 table 4 = .ok storageOffset from @readU16_words _ _ _ _ 2 _ hwords rfl]
  have hrecords : readRecordsFrom table 0 count.toNat = .ok records := by
    rw [hcount]
    exact readRecordsFrom_bytes htable rfl
  exact congrArg (· >>= fun records ↦
    (.ok ⟨format, storageOffset, records⟩ : Except FontFault NameTable)) hrecords

/-! ## The table as a whole -/

section

variable {family subfamily : List Char} (hfamily : (utf8 family).length < 256)
  (hsubfamily : (utf8 subfamily).length < 256)
include hfamily hsubfamily

/-- All offsets and lengths fit into 16 bits. -/
theorem length_storage_lt : (storage (storedNames family subfamily)).length < 65536 := by
  have hps := length_postscriptName_le hfamily hsubfamily
  have hmark : (utf8 Intended.idMark).length = 11 := by decide
  have huid : (utf8 (Intended.uniqueId family subfamily)).length ≤ 522 := by
    rw [Intended.uniqueId, utf8_append, List.length_append, hmark]
    omega
  have hfull : (utf8 (Intended.fullName family subfamily)).length ≤ 511 := by
    have hspace : (String.utf8EncodeChar ' ').length = 1 := rfl
    rw [Intended.fullName]
    split
    · omega
    · rw [utf8_append, utf8_cons, List.length_append, List.length_append, hspace]
      omega
  have hcontent : ∀ platform n, (storedName platform n).content.length ≤ 2 * (utf8 n.2).length := by
    intro platform n
    rw [storedName]
    dsimp only
    split
    · exact length_utf16be_le n.2
    · omega
  have hplatform : ∀ platform,
      (storage ((Intended.names family subfamily).map (storedName platform))).length ≤ 5000 := by
    intro platform
    have h₁ := hcontent platform (1, family)
    have h₂ := hcontent platform (2, subfamily)
    have h₃ := hcontent platform (3, Intended.uniqueId family subfamily)
    have h₄ := hcontent platform (4, Intended.fullName family subfamily)
    have h₆ := hcontent platform (6, Intended.postscriptName family subfamily)
    simp only [Intended.names, List.map_cons, List.map_nil, length_storage_cons]
    rw [storage, List.flatMap_nil, List.length_nil]
    dsimp only at *
    omega
  have h₃ := hplatform (3, 1, 0x0409)
  have h₁ := hplatform (1, 0, 0)
  rw [storedNames, namePlatforms, List.flatMap_cons, List.flatMap_cons, List.flatMap_nil,
    List.append_nil, storage, List.flatMap_append, List.length_append]
  rw [storage] at h₁ h₃
  omega

theorem buildNameTable_utf8 :
    (buildNameTable (utf8 family) (utf8 subfamily) .init).data =
      [0, 10, 126].flatMap u16be ++
        ((recordsFrom 0 (storedNames family subfamily)).flatMap NameRecord.bytes ++
          storage (storedNames family subfamily)) := by
  obtain ⟨hdata, hrecords⟩ := nameRecords_utf8 hfamily hsubfamily
  rw [buildNameTable, ByteBuf.append_data, foldl_appendNameRecord_data, hdata, hrecords]
  simp only [ByteBuf.appendU16be_data, ByteBuf.init_data, List.append_assoc]
  rfl

/-- The table has ten records.  Their slices tile the storage from 126 to the
end of the table, and each is the encoding of the string that is meant. -/
theorem buildNameTable_wellFormed :
    ∃ t, readNameTable (buildNameTable (utf8 family) (utf8 subfamily) .init).data = .ok t ∧
      t.storageOffset = 126 ∧ t.records.length = 10 ∧
      Tiles 126 126 t.records (buildNameTable (utf8 family) (utf8 subfamily) .init).data.length ∧
      t.records.map (fun r ↦ (r.platformId, r.nameId,
          r.slice (buildNameTable (utf8 family) (utf8 subfamily) .init).data 126)) =
        [3, 1].flatMap fun platform ↦ (Intended.names family subfamily).map fun n ↦
          (platform, n.1, if platform = 3 then utf16be n.2 else utf8 n.2) := by
  have hlt := length_storage_lt hfamily hsubfamily
  have hbytes := buildNameTable_utf8 hfamily hsubfamily
  have hcount : (recordsFrom 0 (storedNames family subfamily)).length = 10 := rfl
  have hfront : ([0, 10, 126].flatMap u16be ++ (recordsFrom 0
      (storedNames family subfamily)).flatMap NameRecord.bytes).length = 126 := rfl
  rw [← List.append_assoc] at hbytes
  refine ⟨_, @readNameTable_header _ (storage (storedNames family subfamily)) 0 10 126 _
    hcount.symm ?_, rfl, hcount, ?_, ?_⟩
  · rw [hbytes, List.append_assoc]
  · rw [hbytes, List.length_append, hfront]
    exact @tiles_recordsFrom 126 0 (storedNames family subfamily) (by omega)
  · have hslices := @slices_recordsFrom _ _ [] _ hbytes (by simpa using hlt)
    rw [hfront] at hslices
    exact hslices

end

/-- A bold face, and a character outside the basic plane. -/
theorem buildNameTable_wellFormed_bold :
    ∃ t, readNameTable (buildNameTable (utf8 "Sans 𝄞".toList) (utf8 "Bold".toList) .init).data =
      .ok t ∧ t.records.length = 10 := by
  obtain ⟨t, hread, -, hlength, -⟩ :=
    @buildNameTable_wellFormed "Sans 𝄞".toList "Bold".toList (by decide) (by decide)
  exact ⟨t, hread, hlength⟩

end Wallpiper.Fonts
