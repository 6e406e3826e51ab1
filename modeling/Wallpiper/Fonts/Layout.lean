import Wallpiper.Fonts.Sfnt

/-!
# Reading a file that was laid out

The loop over the tables puts each of them, filled up with zeros, behind the
others and notes where it starts.  A file with this directory is read back
table by table, whatever bytes its body has by then.
-/

namespace Wallpiper.Fonts

open Foundations Foundations.CText

/-! ## Reading behind a prefix -/

theorem byteAt_append (pre buf : Bytes) (k : ℕ) :
    byteAt (pre ++ buf) (pre.length + k) = byteAt buf k := by
  rw [byteAt, byteAt, List.getElem?_append_right (Nat.le_add_right _ _), Nat.add_sub_cancel_left]

theorem readU16_append (pre buf : Bytes) (k : ℕ) :
    readU16 (pre ++ buf) (pre.length + k) = readU16 buf k := by
  have hiff : pre.length + (k + 2) > (pre ++ buf).length ↔ k + 2 > buf.length := by
    rw [List.length_append]
    omega
  simp only [readU16, Nat.add_assoc, hiff, byteAt_append]

theorem readU32_append (pre buf : Bytes) (k : ℕ) :
    readU32 (pre ++ buf) (pre.length + k) = readU32 buf k := by
  have hiff : pre.length + (k + 4) > (pre ++ buf).length ↔ k + 4 > buf.length := by
    rw [List.length_append]
    omega
  simp only [readU32, Nat.add_assoc, hiff, byteAt_append]

theorem tagAt_append (pre buf : Bytes) (k : ℕ) :
    tagAt (pre ++ buf) (pre.length + k) = tagAt buf k := by
  simp only [tagAt, Nat.add_assoc, byteAt_append]

theorem readU16_u16be (v : UInt16) (post : Bytes) : readU16 (u16be v ++ post) 0 = .ok v := by
  have hlen : ¬ 0 + 2 > (u16be v ++ post).length := by
    rw [List.length_append, length_u16be]
    omega
  rw [readU16, if_neg hlen]
  exact congrArg Except.ok (ofU16be_u16be v)

theorem readU32_u32be (v : UInt32) (post : Bytes) : readU32 (u32be v ++ post) 0 = .ok v := by
  have hlen : ¬ 0 + 4 > (u32be v ++ post).length := by
    rw [List.length_append, length_u32be]
    omega
  rw [readU32, if_neg hlen]
  exact congrArg Except.ok (ofU32be_u32be v)

theorem tagAt_bytes (tag : FontTag) (post : Bytes) : tagAt (tag.bytes ++ post) 0 = .ok tag := rfl

/-! ## The directory -/

def DirEntry.bytes (e : DirEntry) : Bytes :=
  e.tag.bytes ++ u32be e.checksum ++ u32be e.offset ++ u32be e.length

/-- The table that a directory entry describes in a file. -/
def DirEntry.table (e : DirEntry) (file : Bytes) : FontTable :=
  ⟨e.tag, (file.drop e.offset.toNat).take e.length.toNat⟩

/-- The entry lies inside the file. -/
def DirEntry.Fits (e : DirEntry) (file : Bytes) : Prop :=
  e.offset.toNat + e.length.toNat ≤ file.length

theorem length_dirEntry_bytes (e : DirEntry) : e.bytes.length = 16 := rfl

/-- The fields of an entry, read at its place in a file. -/
theorem entry_fields {file pre post : Bytes} {e : DirEntry}
    (hfile : file = pre ++ (e.bytes ++ post)) :
    tagAt file pre.length = .ok e.tag ∧ readU32 file (pre.length + 4) = .ok e.checksum ∧
      readU32 file (pre.length + 8) = .ok e.offset ∧
        readU32 file (pre.length + 12) = .ok e.length := by
  refine ⟨?_, ?_, ?_, ?_⟩
  · rw [hfile, ← Nat.add_zero pre.length, tagAt_append, DirEntry.bytes]
    simp only [List.append_assoc, tagAt_bytes]
  · have hsplit : e.bytes ++ post =
        e.tag.bytes ++ (u32be e.checksum ++ (u32be e.offset ++ (u32be e.length ++ post))) := by
      simp only [DirEntry.bytes, List.append_assoc]
    rw [hfile, readU32_append, hsplit]
    exact (readU32_append e.tag.bytes _ 0).trans (readU32_u32be _ _)
  · have hsplit : e.bytes ++ post =
        (e.tag.bytes ++ u32be e.checksum) ++ (u32be e.offset ++ (u32be e.length ++ post)) := by
      simp only [DirEntry.bytes, List.append_assoc]
    rw [hfile, readU32_append, hsplit]
    exact (readU32_append (e.tag.bytes ++ u32be e.checksum) _ 0).trans (readU32_u32be _ _)
  · have hsplit : e.bytes ++ post =
        (e.tag.bytes ++ u32be e.checksum ++ u32be e.offset) ++ (u32be e.length ++ post) := by
      simp only [DirEntry.bytes, List.append_assoc]
    rw [hfile, readU32_append, hsplit]
    exact (readU32_append (e.tag.bytes ++ u32be e.checksum ++ u32be e.offset) _ 0).trans
      (readU32_u32be _ _)

theorem readTable_entry {file pre post : Bytes} {e : DirEntry}
    (hfile : file = pre ++ (e.bytes ++ post)) (hfits : e.Fits file) :
    readTable file pre.length = .ok (e.table file) := by
  obtain ⟨htag, _, hoffset, hlength⟩ := entry_fields hfile
  have hentry : ¬ pre.length + 16 > file.length := by
    rw [hfile, List.length_append, List.length_append, length_dirEntry_bytes]
    omega
  have hinside : ¬ e.offset.toNat + e.length.toNat > file.length := Nat.not_lt.mpr hfits
  have hcopy : copyBytes file e.offset.toNat e.length.toNat =
      .ok ((file.drop e.offset.toNat).take e.length.toNat) := if_pos hfits
  rw [readTable, if_neg hentry, htag, hoffset, hlength]
  simp only [bind, Except.bind, if_neg hinside, hcopy]
  rfl

theorem readTablesFrom_entries {file pre post : Bytes} {entries : List DirEntry}
    {sfntOffset i : ℕ} (hfile : file = pre ++ (entries.flatMap DirEntry.bytes ++ post))
    (hpre : pre.length = sfntOffset + 12 + i * 16) (hfits : ∀ e ∈ entries, e.Fits file) :
    readTablesFrom file sfntOffset i entries.length =
      .ok (entries.map fun e ↦ e.table file) := by
  induction entries generalizing pre i with
  | nil => rfl
  | cons e entries ih =>
      have hhere : file = pre ++ (e.bytes ++ (entries.flatMap DirEntry.bytes ++ post)) := by
        rw [hfile, List.flatMap_cons, List.append_assoc]
      have hrest : file = (pre ++ e.bytes) ++ (entries.flatMap DirEntry.bytes ++ post) := by
        rw [hhere, List.append_assoc]
      have hlength : (pre ++ e.bytes).length = sfntOffset + 12 + (i + 1) * 16 := by
        rw [List.length_append, length_dirEntry_bytes, hpre]
        omega
      have htable := readTable_entry hhere (hfits e List.mem_cons_self)
      have htables := ih hrest hlength fun e' he' ↦ hfits e' (List.mem_cons_of_mem _ he')
      rw [hpre] at htable
      rw [List.length_cons, readTablesFrom, htable, htables]
      rfl

/-! ## The loop over the tables -/

/-- The contents of a table, filled up to a multiple of four. -/
def FontTable.padded (t : FontTable) : Bytes :=
  t.data ++ List.replicate ((4 - t.data.length % 4) % 4) 0

theorem length_padded (t : FontTable) :
    t.padded.length = t.data.length + (4 - t.data.length % 4) % 4 := by
  rw [FontTable.padded, List.length_append, List.length_replicate]

theorem length_padded_mod (t : FontTable) : t.padded.length % 4 = 0 := by
  rw [length_padded]
  omega

theorem length_align_mod (b : ByteBuf) : b.align.data.length % 4 = 0 := by
  rw [ByteBuf.align, ByteBuf.append_data, List.length_append, List.length_replicate]
  omega

theorem align_append_align (b : ByteBuf) (t : FontTable) :
    (b.align.append t.data).align.data = b.align.data ++ t.padded := by
  have hmod := length_align_mod b
  have hlength : (b.align.append t.data).data.length % 4 = t.data.length % 4 := by
    rw [ByteBuf.append_data, List.length_append]
    omega
  rw [ByteBuf.align, ByteBuf.append_data, hlength, ByteBuf.append_data, FontTable.padded,
    List.append_assoc]

/-- The directory of tables that are laid out from an offset on. -/
def dirFrom (offset : ℕ) : List FontTable → List DirEntry
  | [] => []
  | t :: tables =>
      ⟨t.tag, tableChecksum t.data, UInt32.ofNat offset, UInt32.ofNat t.data.length⟩ ::
        dirFrom (offset + t.padded.length) tables

theorem length_dirFrom (offset : ℕ) (tables : List FontTable) :
    (dirFrom offset tables).length = tables.length := by
  induction tables generalizing offset with
  | nil => rfl
  | cons t tables ih => rw [dirFrom, List.length_cons, List.length_cons, ih]

theorem foldl_placeTable (headerSize : ℕ) (layout : TableLayout) (tables : List FontTable) :
    (tables.foldl (placeTable headerSize) layout).body.align.data =
        layout.body.align.data ++ tables.flatMap FontTable.padded ∧
      (tables.foldl (placeTable headerSize) layout).directory =
        layout.directory ++ dirFrom (headerSize + layout.body.align.data.length) tables := by
  induction tables generalizing layout with
  | nil => simp [dirFrom]
  | cons t tables ih =>
      obtain ⟨hbody, hdirectory⟩ := ih (placeTable headerSize layout t)
      have halign : (placeTable headerSize layout t).body.align.data =
          layout.body.align.data ++ t.padded := align_append_align layout.body t
      have hplaced : (placeTable headerSize layout t).directory = layout.directory ++
          [⟨t.tag, tableChecksum t.data,
            UInt32.ofNat (headerSize + layout.body.align.data.length),
            UInt32.ofNat t.data.length⟩] := rfl
      constructor
      · rw [List.foldl_cons, hbody, halign, List.flatMap_cons, List.append_assoc]
      · rw [List.foldl_cons, hdirectory, halign, hplaced, dirFrom, List.length_append,
          List.append_assoc, List.singleton_append, Nat.add_assoc]

/-- The last 'head' table decides where the adjustment goes. -/
theorem foldl_placeTable_noHead (headerSize : ℕ) (layout : TableLayout) {tables : List FontTable}
    (h : ∀ t ∈ tables, t.tag ≠ headTag) :
    (tables.foldl (placeTable headerSize) layout).headChecksumPos = layout.headChecksumPos := by
  induction tables generalizing layout with
  | nil => rfl
  | cons t tables ih =>
      rw [List.foldl_cons, ih _ fun t' ht' ↦ h t' (List.mem_cons_of_mem _ ht')]
      exact if_neg (h t List.mem_cons_self)

/-- The header and the directory of a file. -/
def layoutHead (version : UInt32) (tables : List FontTable) : Bytes :=
  (sfntHeader version (UInt16.ofNat tables.length)).data ++
    (dirFrom (12 + tables.length * 16) tables).flatMap DirEntry.bytes

theorem length_sfntHeader (version : UInt32) (numTables : UInt16) :
    (sfntHeader version numTables).data.length = 12 := rfl

theorem length_layoutHead (version : UInt32) (tables : List FontTable) :
    (layoutHead version tables).length = 12 + tables.length * 16 := by
  rw [layoutHead, List.length_append, length_sfntHeader, List.length_flatMap]
  simp [length_dirEntry_bytes, length_dirFrom]

theorem foldl_appendDirEntry_data (result : ByteBuf) (entries : List DirEntry) :
    (entries.foldl ByteBuf.appendDirEntry result).data =
      result.data ++ entries.flatMap DirEntry.bytes := by
  induction entries generalizing result with
  | nil => simp
  | cons e entries ih =>
      have happend : (result.appendDirEntry e).data = result.data ++ e.bytes := by
        simp [ByteBuf.appendDirEntry, DirEntry.bytes]
      rw [List.foldl_cons, ih, happend, List.flatMap_cons, List.append_assoc]

theorem layoutFile_data (version : UInt32) (tables : List FontTable) :
    (layoutFile version tables).data =
      layoutHead version tables ++ tables.flatMap FontTable.padded := by
  obtain ⟨hbody, hdirectory⟩ := foldl_placeTable (12 + tables.length * 16) .empty tables
  have halign : TableLayout.empty.body.align.data = [] := rfl
  rw [halign, List.nil_append] at hbody
  rw [halign, List.length_nil, Nat.add_zero] at hdirectory
  have hnone : TableLayout.empty.directory = [] := rfl
  rw [hnone, List.nil_append] at hdirectory
  rw [layoutFile, ByteBuf.append_data, foldl_appendDirEntry_data, layoutTables, hdirectory, hbody,
    layoutHead]

/-! ## Reading it back -/

/-- The tables that the directory finds in a body. -/
def tablesIn (body : Bytes) : List FontTable → List FontTable
  | [] => []
  | t :: tables =>
      ⟨t.tag, body.take t.data.length⟩ :: tablesIn (body.drop t.padded.length) tables

/-- The size of a laid out body. -/
def bodySize (tables : List FontTable) : ℕ := (tables.flatMap FontTable.padded).length

theorem bodySize_cons (t : FontTable) (tables : List FontTable) :
    bodySize (t :: tables) = t.padded.length + bodySize tables := by
  rw [bodySize, List.flatMap_cons, List.length_append, bodySize]

theorem dirFrom_fits {file : Bytes} {offset : ℕ} {tables : List FontTable}
    (hinside : offset + bodySize tables ≤ file.length) (hsize : file.length < 2 ^ 32) :
    ∀ e ∈ dirFrom offset tables, e.Fits file := by
  induction tables generalizing offset with
  | nil => simp [dirFrom]
  | cons t tables ih =>
      rw [bodySize_cons] at hinside
      have hlength := length_padded t
      intro e he
      rcases List.mem_cons.mp he with rfl | he
      · rw [DirEntry.Fits, UInt32.toNat_ofNat', UInt32.toNat_ofNat',
          Nat.mod_eq_of_lt (by omega), Nat.mod_eq_of_lt (by omega)]
        omega
      · exact ih (by omega) e he

theorem dirFrom_tables {file : Bytes} {offset : ℕ} {tables : List FontTable}
    (hinside : offset + bodySize tables ≤ file.length) (hsize : file.length < 2 ^ 32) :
    (dirFrom offset tables).map (fun e ↦ e.table file) = tablesIn (file.drop offset) tables := by
  induction tables generalizing offset with
  | nil => rfl
  | cons t tables ih =>
      rw [bodySize_cons] at hinside
      have hlength := length_padded t
      have hoffset : (UInt32.ofNat offset).toNat = offset := by
        rw [UInt32.toNat_ofNat', Nat.mod_eq_of_lt (by omega)]
      have hdata : (UInt32.ofNat t.data.length).toNat = t.data.length := by
        rw [UInt32.toNat_ofNat', Nat.mod_eq_of_lt (by omega)]
      rw [dirFrom, List.map_cons, ih (by omega), tablesIn, DirEntry.table, hoffset, hdata,
        List.drop_drop]

theorem readU16_layoutHead (version : UInt32) {tables : List FontTable} (body : Bytes)
    (hcount : tables.length < 2 ^ 16) :
    ∃ numTables, readU16 (layoutHead version tables ++ body) 4 = .ok numTables ∧
      numTables.toNat = tables.length := by
  obtain ⟨rest, hrest⟩ : ∃ rest, layoutHead version tables ++ body =
      u32be version ++ (u16be (UInt16.ofNat tables.length) ++ rest) := by
    simp [layoutHead, sfntHeader]
  refine ⟨UInt16.ofNat tables.length, ?_, ?_⟩
  · rw [hrest]
    exact (readU16_append (u32be version) _ 0).trans (readU16_u16be _ _)
  · rw [UInt16.toNat_ofNat', Nat.mod_eq_of_lt hcount]

/-- The directory stands behind the header. -/
theorem layoutHead_split (version : UInt32) (tables : List FontTable) (body : Bytes) :
    layoutHead version tables ++ body = (sfntHeader version (UInt16.ofNat tables.length)).data ++
      ((dirFrom (12 + tables.length * 16) tables).flatMap DirEntry.bytes ++ body) := by
  rw [layoutHead, List.append_assoc]

/-- A file with the directory of some tables is read back, whatever its body
holds. -/
theorem readTables_layoutHead (version : UInt32) {tables : List FontTable} {body : Bytes}
    (hcount : tables.length < 2 ^ 16) (hbody : body.length = bodySize tables)
    (hsize : 12 + tables.length * 16 + body.length < 2 ^ 32) :
    readTables (layoutHead version tables ++ body) 0 = .ok (version, tablesIn body tables) := by
  have hlength : (layoutHead version tables ++ body).length =
      12 + tables.length * 16 + body.length := by
    rw [List.length_append, length_layoutHead]
  have hinside : 12 + tables.length * 16 + bodySize tables ≤
      (layoutHead version tables ++ body).length := by
    rw [hlength, hbody]
  have hversion : readU32 (layoutHead version tables ++ body) 0 = .ok version := by
    obtain ⟨rest, hrest⟩ : ∃ rest, layoutHead version tables ++ body = u32be version ++ rest := by
      simp [layoutHead, sfntHeader]
    rw [hrest, readU32_u32be]
  obtain ⟨numTables, hnumTables, hnum⟩ := readU16_layoutHead version body hcount
  have hheader : (sfntHeader version (UInt16.ofNat tables.length)).data.length = 0 + 12 + 0 * 16 :=
    length_sfntHeader version _
  have hentries := readTablesFrom_entries (layoutHead_split version tables body) hheader
    (dirFrom_fits hinside (hlength ▸ hsize))
  rw [length_dirFrom, dirFrom_tables hinside (hlength ▸ hsize)] at hentries
  have hdrop : (layoutHead version tables ++ body).drop (12 + tables.length * 16) = body := by
    rw [← length_layoutHead version tables, List.drop_left]
  rw [hdrop] at hentries
  rw [readTables, hversion]
  simp only [bind, Except.bind, Nat.zero_add, hnumTables, hnum, hentries]

end Wallpiper.Fonts
