import Wallpiper.Foundations.Sizes
import Wallpiper.Fonts.Sfnt

/-!
# Reading a font file in 64 bits

The reading half of the font rewriting once more, with its offsets and lengths
in `size_t`.  No file makes it wrap a size or read outside its input, and what
it returns is what the reader over the natural numbers returns.
-/

namespace Wallpiper.Fonts.Sized

open Foundations Foundations.CText Foundations.Sizes

def readU16 (buf : Bytes) (off : UInt64) : Except Fault UInt16 := do
  let last ← add off 2
  if last > bufferSize buf then .error .rejected
  else do
    let b₀ ← load buf off
    let b₁ ← loadAt buf off 1
    .ok (ofU16be b₀ b₁)

def readU32 (buf : Bytes) (off : UInt64) : Except Fault UInt32 := do
  let last ← add off 4
  if last > bufferSize buf then .error .rejected
  else do
    let b₀ ← load buf off
    let b₁ ← loadAt buf off 1
    let b₂ ← loadAt buf off 2
    let b₃ ← loadAt buf off 3
    .ok (ofU32be b₀ b₁ b₂ b₃)

def tagAt (buf : Bytes) (off : UInt64) : Except Fault FontTag := do
  let b₀ ← load buf off
  let b₁ ← loadAt buf off 1
  let b₂ ← loadAt buf off 2
  let b₃ ← loadAt buf off 3
  .ok ⟨b₀, b₁, b₂, b₃⟩

def collectionOffset (input : Bytes) (faceIndex : UInt32) : Except Fault UInt64 := do
  let numFonts ← readU32 input 8
  if faceIndex ≥ numFonts then .error .rejected
  else do
    let skip ← mul faceIndex.toUInt64 4
    let entryOff ← add 12 skip
    let offset ← readU32 input entryOff
    .ok offset.toUInt64

def faceOffset (input : Bytes) (faceIndex : UInt32) : Except Fault UInt64 :=
  if bufferSize input ≥ 12 then do
    let tag ← tagAt input 0
    if tag = ttcfTag then collectionOffset input faceIndex else .ok 0
  else .ok 0

/-- A round of the loop over the directory. -/
def readTable (input : Bytes) (sfntOffset i : UInt64) : Except Fault FontTable := do
  let entries ← add sfntOffset 12
  let skip ← mul i 16
  let entryOff ← add entries skip
  let entryEnd ← add entryOff 16
  if entryEnd > bufferSize input then .error .rejected
  else do
    let tag ← tagAt input entryOff
    let offsetOff ← add entryOff 8
    let offset ← readU32 input offsetOff
    let lengthOff ← add entryOff 12
    let length ← readU32 input lengthOff
    let tableEnd ← add offset.toUInt64 length.toUInt64
    if tableEnd > bufferSize input then .error .rejected
    else do
      let data ← copyOut input offset.toUInt64 length.toUInt64
      .ok ⟨tag, data⟩

def readTables (input : Bytes) (sfntOffset : UInt64) :
    Except Fault (UInt32 × List FontTable) := do
  let version ← readU32 input sfntOffset
  let countOff ← add sfntOffset 4
  let numTables ← readU16 input countOff
  let tables ← collect numTables.toUInt64 (readTable input sfntOffset)
  .ok (version, tables)

/-! ## Each reader does what its counterpart does -/

theorem post_load_byteAt {input : Bytes} {off : UInt64} (h : off.toNat < input.length) :
    Post (load input off) (fun b ↦ byteAt input off.toNat = .ok b) False := by
  apply (post_load h).mono _ id
  intro b hb
  rw [byteAt, hb]

section

variable {input : Bytes} (hlen : input.length < 2 ^ 62)
include hlen

theorem post_loadAt_byteAt {off k : UInt64} (h : off.toNat + k.toNat < input.length) :
    Post (loadAt input off k) (fun b ↦ byteAt input (off.toNat + k.toNat) = .ok b) False := by
  apply (post_loadAt (by omega) h).mono _ id
  intro b hb
  rw [byteAt, hb]

theorem post_readU16 {off : UInt64} (hoff : off.toNat < 2 ^ 63) :
    Post (readU16 input off) (fun v ↦ Fonts.readU16 input off.toNat = .ok v)
      (Fonts.readU16 input off.toNat = .error .rejected) := by
  have hnum : (1 : UInt64).toNat = 1 ∧ (2 : UInt64).toNat = 2 := ⟨rfl, rfl⟩
  apply (post_add (by omega)).step False.elim
  intro last hlast
  split
  · rename_i hend
    rw [gt_bufferSize_iff hlen] at hend
    apply Post.rejected
    rw [Fonts.readU16, if_pos (by omega)]
  · rename_i hend
    rw [gt_bufferSize_iff hlen] at hend
    apply (post_load_byteAt (by omega)).step False.elim
    intro b₀ hb₀
    apply (post_loadAt_byteAt hlen (k := 1) (by omega)).step False.elim
    intro b₁ hb₁
    apply Post.ok
    rw [hnum.1] at hb₁
    rw [Fonts.readU16, if_neg (by omega), hb₀, hb₁]
    rfl

theorem post_tagAt {off : UInt64} (h : off.toNat + 4 ≤ input.length) :
    Post (tagAt input off) (fun tag ↦ Fonts.tagAt input off.toNat = .ok tag) False := by
  have hnum : (1 : UInt64).toNat = 1 ∧ (2 : UInt64).toNat = 2 ∧ (3 : UInt64).toNat = 3 :=
    ⟨rfl, rfl, rfl⟩
  apply (post_load_byteAt (by omega)).step id
  intro b₀ hb₀
  apply (post_loadAt_byteAt hlen (k := 1) (by omega)).step id
  intro b₁ hb₁
  apply (post_loadAt_byteAt hlen (k := 2) (by omega)).step id
  intro b₂ hb₂
  apply (post_loadAt_byteAt hlen (k := 3) (by omega)).step id
  intro b₃ hb₃
  apply Post.ok
  rw [hnum.1] at hb₁
  rw [hnum.2.1] at hb₂
  rw [hnum.2.2] at hb₃
  rw [Fonts.tagAt, hb₀, hb₁, hb₂, hb₃]
  rfl

theorem post_readU32 {off : UInt64} (hoff : off.toNat < 2 ^ 63) :
    Post (readU32 input off) (fun v ↦ Fonts.readU32 input off.toNat = .ok v)
      (Fonts.readU32 input off.toNat = .error .rejected) := by
  have hnum : (1 : UInt64).toNat = 1 ∧ (2 : UInt64).toNat = 2 ∧ (3 : UInt64).toNat = 3 ∧
      (4 : UInt64).toNat = 4 := ⟨rfl, rfl, rfl, rfl⟩
  apply (post_add (by omega)).step False.elim
  intro last hlast
  split
  · rename_i hend
    rw [gt_bufferSize_iff hlen] at hend
    apply Post.rejected
    rw [Fonts.readU32, if_pos (by omega)]
  · rename_i hend
    rw [gt_bufferSize_iff hlen] at hend
    apply (post_load_byteAt (by omega)).step False.elim
    intro b₀ hb₀
    apply (post_loadAt_byteAt hlen (k := 1) (by omega)).step False.elim
    intro b₁ hb₁
    apply (post_loadAt_byteAt hlen (k := 2) (by omega)).step False.elim
    intro b₂ hb₂
    apply (post_loadAt_byteAt hlen (k := 3) (by omega)).step False.elim
    intro b₃ hb₃
    apply Post.ok
    rw [hnum.1] at hb₁
    rw [hnum.2.1] at hb₂
    rw [hnum.2.2.1] at hb₃
    rw [Fonts.readU32, if_neg (by omega), hb₀, hb₁, hb₂, hb₃]
    rfl

theorem post_collectionOffset (faceIndex : UInt32) :
    Post (collectionOffset input faceIndex)
      (fun off ↦ off.toNat < 2 ^ 32 ∧ Fonts.collectionOffset input faceIndex = .ok off.toNat)
      (Fonts.collectionOffset input faceIndex = .error .rejected) := by
  have hface := faceIndex.toNat_lt
  have hfour : faceIndex.toUInt64.toNat * (4 : UInt64).toNat = faceIndex.toNat * 4 := rfl
  have htwelve : (12 : UInt64).toNat = 12 := rfl
  have hcount : Post (readU32 input 8) (fun n ↦ Fonts.readU32 input 8 = .ok n)
      (Fonts.readU32 input 8 = .error .rejected) := post_readU32 hlen (by decide)
  refine Post.bind_as (Q := fun z (off : UInt64) ↦ off.toNat < 2 ^ 32 ∧ z = .ok off.toNat)
    (R := (· = .error .rejected)) hcount rfl fun numFonts ↦ ?_
  split
  · exact Post.rejected rfl
  · apply (post_mul (by omega)).step False.elim
    intro skip hskip
    apply (post_add (by omega)).step False.elim
    intro entryOff hentryOff
    have hplace : 12 + faceIndex.toNat * 4 = entryOff.toNat := by omega
    rw [hplace]
    refine Post.bind_as (Q := fun z (off : UInt64) ↦ off.toNat < 2 ^ 32 ∧ z = .ok off.toNat)
      (R := (· = .error .rejected)) (@post_readU32 input hlen entryOff (by omega)) rfl
      fun offset ↦ ?_
    exact Post.ok ⟨offset.toNat_lt, rfl⟩

theorem post_faceOffset (faceIndex : UInt32) :
    Post (faceOffset input faceIndex)
      (fun off ↦ off.toNat < 2 ^ 32 ∧ Fonts.faceOffset input faceIndex = .ok off.toNat)
      (Fonts.faceOffset input faceIndex = .error .rejected) := by
  have hlong : bufferSize input ≥ 12 ↔ input.length ≥ 12 := by
    rw [ge_iff_le, UInt64.le_iff_toNat_le, toNat_bufferSize hlen]
    rfl
  rw [faceOffset, Fonts.faceOffset]
  split
  · rename_i hsize
    rw [hlong] at hsize
    rw [if_pos hsize]
    have htag : Post (tagAt input 0) (fun tag ↦ Fonts.tagAt input 0 = .ok tag)
        (Fonts.tagAt input 0 = .error .rejected) :=
      (post_tagAt hlen (by simp; omega)).mono (fun _ h ↦ h) False.elim
    refine Post.bind_as (Q := fun z (off : UInt64) ↦ off.toNat < 2 ^ 32 ∧ z = .ok off.toNat)
      (R := (· = .error .rejected)) htag rfl fun tag ↦ ?_
    split
    · exact post_collectionOffset hlen faceIndex
    · exact Post.ok ⟨by decide, rfl⟩
  · rename_i hsize
    rw [hlong] at hsize
    rw [if_neg hsize]
    exact Post.ok ⟨by decide, rfl⟩

theorem post_readTable {sfntOffset i : UInt64} (hoff : sfntOffset.toNat < 2 ^ 32)
    (hi : i.toNat < 2 ^ 16) :
    Post (readTable input sfntOffset i)
      (fun t ↦ Fonts.readTable input (sfntOffset.toNat + 12 + i.toNat * 16) = .ok t)
      (Fonts.readTable input (sfntOffset.toNat + 12 + i.toNat * 16) = .error .rejected) := by
  have hnum : (12 : UInt64).toNat = 12 ∧ (16 : UInt64).toNat = 16 ∧ (8 : UInt64).toNat = 8 :=
    ⟨rfl, rfl, rfl⟩
  have hprod : i.toNat * (16 : UInt64).toNat = i.toNat * 16 := rfl
  apply (post_add (by omega)).step False.elim
  intro entries hentries
  apply (post_mul (by omega)).step False.elim
  intro skip hskip
  apply (post_add (by omega)).step False.elim
  intro entryOff hentryOff
  apply (post_add (by omega)).step False.elim
  intro entryEnd hentryEnd
  have hplace : sfntOffset.toNat + 12 + i.toNat * 16 = entryOff.toNat := by omega
  rw [hplace, Fonts.readTable]
  split
  · rename_i hend
    rw [gt_bufferSize_iff hlen] at hend
    apply Post.rejected
    rw [if_pos (by omega)]
  rename_i hend
  rw [gt_bufferSize_iff hlen] at hend
  rw [if_neg (by omega)]
  have htag : Post (tagAt input entryOff) (fun tag ↦ Fonts.tagAt input entryOff.toNat = .ok tag)
      (Fonts.tagAt input entryOff.toNat = .error .rejected) :=
    (post_tagAt hlen (by omega)).mono (fun _ h ↦ h) False.elim
  refine Post.bind_as (Q := fun z t ↦ z = .ok t) (R := (· = .error .rejected)) htag rfl
    fun tag ↦ ?_
  apply (post_add (by omega)).step False.elim
  intro offsetOff hoffsetOff
  rw [hnum.2.2] at hoffsetOff
  rw [← hoffsetOff]
  refine Post.bind_as (Q := fun z t ↦ z = .ok t) (R := (· = .error .rejected))
    (@post_readU32 input hlen offsetOff (by omega)) rfl fun offset ↦ ?_
  apply (post_add (by omega)).step False.elim
  intro lengthOff hlengthOff
  rw [hnum.1] at hlengthOff
  rw [← hlengthOff]
  refine Post.bind_as (Q := fun z t ↦ z = .ok t) (R := (· = .error .rejected))
    (@post_readU32 input hlen lengthOff (by omega)) rfl fun length ↦ ?_
  have hoffsetLt := offset.toNat_lt
  have hlengthLt := length.toNat_lt
  have hoffsetNat : offset.toUInt64.toNat = offset.toNat := rfl
  have hlengthNat : length.toUInt64.toNat = length.toNat := rfl
  apply (post_add (by omega)).step False.elim
  intro tableEnd htableEnd
  split
  · rename_i hrange
    rw [gt_bufferSize_iff hlen] at hrange
    apply Post.rejected
    exact if_pos (by omega)
  · rename_i hrange
    rw [gt_bufferSize_iff hlen] at hrange
    apply (post_copyOut (by omega)).step False.elim
    intro data hdata
    apply Post.ok
    have hcopy : copyBytes input offset.toNat length.toNat = .ok data := by
      rw [copyBytes, if_pos (by omega), hdata]
      rfl
    have hinside : ¬ offset.toNat + length.toNat > input.length := by omega
    refine (if_neg hinside).trans ?_
    rw [hcopy]
    rfl

/-- A directory that is read completely, entry by entry. -/
structure DirectoryRead (input : Bytes) (sfntOffset : ℕ) (version : UInt32)
    (tables : List FontTable) : Prop where
  version : Fonts.readU32 input sfntOffset = .ok version
  count : ∃ numTables : UInt16, Fonts.readU16 input (sfntOffset + 4) = .ok numTables ∧
    tables.length = numTables.toNat
  tables : ∀ i t, tables[i]? = some t →
    Fonts.readTable input (sfntOffset + 12 + i * 16) = .ok t

/-- A part of the directory is rejected. -/
def DirectoryRejected (input : Bytes) (sfntOffset : ℕ) : Prop :=
  Fonts.readU32 input sfntOffset = .error .rejected ∨
    Fonts.readU16 input (sfntOffset + 4) = .error .rejected ∨
    ∃ (i : ℕ) (numTables : UInt16), Fonts.readU16 input (sfntOffset + 4) = .ok numTables ∧
      i < numTables.toNat ∧
      Fonts.readTable input (sfntOffset + 12 + i * 16) = .error .rejected

theorem post_readTables {sfntOffset : UInt64} (hoff : sfntOffset.toNat < 2 ^ 32) :
    Post (readTables input sfntOffset)
      (fun r ↦ DirectoryRead input sfntOffset.toNat r.1 r.2)
      (DirectoryRejected input sfntOffset.toNat) := by
  have hfour : (4 : UInt64).toNat = 4 := rfl
  apply (post_readU32 hlen (by omega)).step Or.inl
  intro version hversion
  apply (post_add (by omega)).step False.elim
  intro countOff hcountOff
  rw [hfour] at hcountOff
  apply (post_readU16 hlen (by omega)).step
  · rw [hcountOff]
    exact fun h ↦ Or.inr (Or.inl h)
  intro numTables hnumTables
  rw [hcountOff] at hnumTables
  have hcount : numTables.toUInt64.toNat = numTables.toNat := rfl
  have hlt := numTables.toNat_lt
  have hround : ∀ i : UInt64, i.toNat < numTables.toUInt64.toNat →
      Post (readTable input sfntOffset i)
        (fun t ↦ Fonts.readTable input (sfntOffset.toNat + 12 + i.toNat * 16) = .ok t)
        (DirectoryRejected input sfntOffset.toNat) :=
    fun i hi ↦ (post_readTable hlen hoff (by omega)).mono (fun _ h ↦ h)
      fun h ↦ Or.inr (Or.inr ⟨i.toNat, numTables, hnumTables, hi, h⟩)
  apply (post_collect (Q := fun i t ↦
    Fonts.readTable input (sfntOffset.toNat + 12 + i * 16) = .ok t) hround).step id
  rintro tables ⟨hlength, htables⟩
  exact Post.ok ⟨hversion, ⟨numTables, hnumTables, hlength⟩, htables⟩

end

/-! ## The counterpart over the natural numbers -/

theorem readTablesFrom_eq_ok_iff {input : Bytes} {sfntOffset i n : ℕ} {tables : List FontTable} :
    readTablesFrom input sfntOffset i n = .ok tables ↔
      tables.length = n ∧ ∀ k t, tables[k]? = some t →
        Fonts.readTable input (sfntOffset + 12 + (i + k) * 16) = .ok t := by
  induction n generalizing i tables with
  | zero =>
      rw [readTablesFrom, List.length_eq_zero_iff, Except.ok.injEq]
      constructor
      · rintro rfl
        exact ⟨rfl, fun k t ht ↦ absurd ht (by simp)⟩
      · rintro ⟨rfl, -⟩
        rfl
  | succ n ih =>
      have hnext : ∀ k, i + (k + 1) = i + 1 + k := by omega
      rw [readTablesFrom, bind_eq_ok_iff]
      constructor
      · rintro ⟨t, hfirst, hmore⟩
        obtain ⟨rest, hrest, hcons⟩ := bind_eq_ok_iff.mp hmore
        obtain rfl : t :: rest = tables := Except.ok.inj hcons
        obtain ⟨hlength, htables⟩ := ih.mp hrest
        refine ⟨by rw [List.length_cons, hlength], ?_⟩
        rintro (_ | k) u hu
        · obtain rfl : t = u := by simpa using hu
          exact hfirst
        · rw [hnext]
          exact htables k u (by simpa using hu)
      · rintro ⟨hlength, htables⟩
        rcases tables with _ | ⟨t, rest⟩
        · exact absurd hlength (by simp)
        refine ⟨t, htables 0 t rfl,
          bind_eq_ok_iff.mpr ⟨rest, ih.mpr ⟨by simpa using hlength, ?_⟩, rfl⟩⟩
        intro k u hu
        have hk := htables (k + 1) u (by simpa using hu)
        rwa [hnext] at hk

theorem directoryRead_iff {input : Bytes} {sfntOffset : ℕ} {version : UInt32}
    {tables : List FontTable} :
    DirectoryRead input sfntOffset version tables ↔
      Fonts.readTables input sfntOffset = .ok (version, tables) := by
  rw [Fonts.readTables, bind_eq_ok_iff]
  constructor
  · rintro ⟨hversion, ⟨numTables, hnumTables, hlength⟩, htables⟩
    have hall : readTablesFrom input sfntOffset 0 numTables.toNat = .ok tables :=
      readTablesFrom_eq_ok_iff.mpr ⟨hlength, by simpa using htables⟩
    exact ⟨version, hversion, bind_eq_ok_iff.mpr
      ⟨numTables, hnumTables, bind_eq_ok_iff.mpr ⟨tables, hall, rfl⟩⟩⟩
  · rintro ⟨v, hversion, h⟩
    obtain ⟨numTables, hnumTables, h⟩ := bind_eq_ok_iff.mp h
    obtain ⟨all, hall, h⟩ := bind_eq_ok_iff.mp h
    obtain ⟨rfl, rfl⟩ : v = version ∧ all = tables := by simpa using Except.ok.inj h
    obtain ⟨hlength, htables⟩ := readTablesFrom_eq_ok_iff.mp hall
    exact ⟨hversion, ⟨numTables, hnumTables, hlength⟩, by simpa using htables⟩

/-- A directory is read in 64 bits exactly when it is read in the naturals, and
the same tables are returned. -/
theorem readTables_eq_ok_iff {input : Bytes} (hlen : input.length < 2 ^ 62) {sfntOffset : UInt64}
    (hoff : sfntOffset.toNat < 2 ^ 32) {version : UInt32} {tables : List FontTable} :
    readTables input sfntOffset = .ok (version, tables) ↔
      Fonts.readTables input sfntOffset.toNat = .ok (version, tables) := by
  have hread := post_readTables hlen hoff
  constructor
  · intro h
    exact directoryRead_iff.mp (hread.of_eq_ok h)
  · intro h
    have hdirectory := directoryRead_iff.mpr h
    have haccepted : ¬ DirectoryRejected input sfntOffset.toNat := by
      obtain ⟨numTables, hnumTables, hlength⟩ := hdirectory.count
      rintro (hrejected | hrejected | ⟨i, n, hn, hi, hrejected⟩)
      · exact absurd (hdirectory.version.symm.trans hrejected) (by simp)
      · exact absurd (hnumTables.symm.trans hrejected) (by simp)
      · obtain rfl : numTables = n := Except.ok.inj (hnumTables.symm.trans hn)
        have hin : i < tables.length := hlength ▸ hi
        have hread := hdirectory.tables i tables[i] (List.getElem?_eq_getElem hin)
        exact absurd (hread.symm.trans hrejected) (by simp)
    obtain ⟨⟨v, all⟩, hok, hall⟩ := hread.exists_ok haccepted
    have heq := (directoryRead_iff.mp hall).symm.trans h
    rw [hok, Except.ok.inj heq]

/-- The range of a table that is read lies inside the file. -/
theorem readTable_range {input : Bytes} {entryOff : ℕ} {t : FontTable}
    (h : Fonts.readTable input entryOff = .ok t) :
    ∃ offset length : UInt32, Fonts.readU32 input (entryOff + 8) = .ok offset ∧
      Fonts.readU32 input (entryOff + 12) = .ok length ∧
      offset.toNat + length.toNat ≤ input.length ∧
      t.data = (input.drop offset.toNat).take length.toNat := by
  rw [Fonts.readTable] at h
  split at h
  · exact absurd h (by simp)
  obtain ⟨tag, -, h⟩ := bind_eq_ok_iff.mp h
  obtain ⟨offset, hoffset, h⟩ := bind_eq_ok_iff.mp h
  obtain ⟨length, hlength, h⟩ := bind_eq_ok_iff.mp h
  split at h
  · exact absurd h (by simp)
  · rename_i hrange
    rw [copyBytes, if_pos (by omega)] at h
    obtain rfl : (⟨tag, (input.drop offset.toNat).take length.toNat⟩ : FontTable) = t :=
      Except.ok.inj h
    exact ⟨offset, length, hoffset, hlength, by omega, rfl⟩

/-- Reading a face of any file neither wraps a size nor reads outside the
file.  What is returned has as many tables as the directory counts, each with
its range inside the file. -/
theorem readTables_safe {input : Bytes} (hlen : input.length < 2 ^ 62) (faceIndex : UInt32) :
    (faceOffset input faceIndex ≠ .error .wraps ∧
      faceOffset input faceIndex ≠ .error .outOfBounds) ∧
    ∀ sfntOffset, faceOffset input faceIndex = .ok sfntOffset →
      (readTables input sfntOffset ≠ .error .wraps ∧
        readTables input sfntOffset ≠ .error .outOfBounds) ∧
      ∀ version tables, readTables input sfntOffset = .ok (version, tables) →
        (∃ numTables : UInt16, Fonts.readU16 input (sfntOffset.toNat + 4) = .ok numTables ∧
          tables.length = numTables.toNat) ∧
        ∀ i t, tables[i]? = some t → ∃ offset length : UInt32,
          Fonts.readU32 input (sfntOffset.toNat + 12 + i * 16 + 8) = .ok offset ∧
          Fonts.readU32 input (sfntOffset.toNat + 12 + i * 16 + 12) = .ok length ∧
          offset.toNat + length.toNat ≤ input.length ∧
          t.data = (input.drop offset.toNat).take length.toNat := by
  have hface := post_faceOffset hlen faceIndex
  refine ⟨⟨hface.ne_wraps, hface.ne_outOfBounds⟩, ?_⟩
  intro sfntOffset hsfnt
  have hread := post_readTables hlen (hface.of_eq_ok hsfnt).1
  refine ⟨⟨hread.ne_wraps, hread.ne_outOfBounds⟩, ?_⟩
  intro version tables htables
  have hdirectory := hread.of_eq_ok htables
  exact ⟨hdirectory.count, fun i t ht ↦ readTable_range (hdirectory.tables i t ht)⟩

/-- A font whose one table would end beyond the file. -/
theorem readTables_safe_hostile :
    readTables ([0, 1, 0, 0, 0, 1, 0, 0, 0, 0, 0, 0, 110, 97, 109, 101, 0, 0, 0, 0] ++
      [255, 255, 255, 255, 255, 255, 255, 255]) 0 ≠ .error .outOfBounds :=
  ((readTables_safe (by decide) 0).2 0 (by decide +kernel)).1.2

end Wallpiper.Fonts.Sized
