import Wallpiper.Fonts.TablePreservation

/-!
# Checksums and the layout of a rewritten file

The checksum adjustment is computed before it is written: the sum over the
file with the field cleared is completed to the magic number.  The sum of a
table is the sum of its words, and the sum of the file is the sum over its
pieces, since each of them fills its words.
-/

namespace Wallpiper.Fonts

open Foundations Foundations.CText

/-- The directory entry at a place of a file. -/
def readEntry (file : Bytes) (entryOff : ℕ) : Except FontFault DirEntry := do
  let tag ← tagAt file entryOff
  let checksum ← readU32 file (entryOff + 4)
  let offset ← readU32 file (entryOff + 8)
  let length ← readU32 file (entryOff + 12)
  .ok ⟨tag, checksum, offset, length⟩

def readEntriesFrom (file : Bytes) (i : ℕ) : ℕ → Except FontFault (List DirEntry)
  | 0 => .ok []
  | left + 1 => do
      let entry ← readEntry file (12 + i * 16)
      let entries ← readEntriesFrom file (i + 1) left
      .ok (entry :: entries)

/-- The directory of a font file with one face. -/
def readDirectory (file : Bytes) : Except FontFault (List DirEntry) := do
  let numTables ← readU16 file 4
  readEntriesFrom file 0 numTables.toNat

/-- The checksum of a table: the sum of its words, filled up with zeros, with
the adjustment of a 'head' table taken as zero. -/
def DirEntry.wordSum (e : DirEntry) (file : Bytes) : UInt32 :=
  Foundations.wordSum (maskAdjustment (e.table file)).padded

/-- The checksums of a file are right, and its tables lie at multiples of four,
behind the directory, inside the file and apart from each other. -/
structure SoundFile (file : Bytes) (entries : List DirEntry) : Prop where
  directory : readDirectory file = .ok entries
  words : file.length % 4 = 0
  fileSum : wordSum file = headChecksumMagic
  checksum : ∀ e ∈ entries, e.checksum = e.wordSum file
  aligned : ∀ e ∈ entries, e.offset.toNat % 4 = 0
  behind : ∀ e ∈ entries, 12 + entries.length * 16 ≤ e.offset.toNat
  inside : ∀ e ∈ entries, e.offset.toNat + e.length.toNat ≤ file.length
  apart : entries.Pairwise fun a b ↦ a.offset.toNat + a.length.toNat ≤ b.offset.toNat ∨
    b.offset.toNat + b.length.toNat ≤ a.offset.toNat

/-! ## Sums -/

theorem checksumWord_eq (b₀ b₁ b₂ b₃ : UInt8) :
    checksumWord [b₀, b₁, b₂, b₃] = ofU32be b₀ b₁ b₂ b₃ := by
  have hstep : ∀ (word : UInt32) (b : UInt8), word.toNat < 2 ^ 24 →
      (word <<< 8 ||| b.toUInt32).toNat = word.toNat * 2 ^ 8 + b.toNat := by
    intro word b hword
    have hb := b.toNat_lt
    have hmod : (8 : UInt32).toNat % 32 = 8 := rfl
    have hshift : (word <<< 8).toNat = word.toNat * 2 ^ 8 := by
      rw [UInt32.toNat_shiftLeft, hmod, Nat.shiftLeft_eq, Nat.mod_eq_of_lt (by omega)]
    rw [UInt32.toNat_or, hshift, UInt8.toNat_toUInt32, mul_or 8 hb]
  have h₀ := b₀.toNat_lt
  have h₁ := b₁.toNat_lt
  have h₂ := b₂.toNat_lt
  have hword : ∀ w₁ w₂ w₃ : UInt32, w₁ = (0 : UInt32) <<< 8 ||| b₀.toUInt32 →
      w₂ = w₁ <<< 8 ||| b₁.toUInt32 → w₃ = w₂ <<< 8 ||| b₂.toUInt32 →
      (w₃ <<< 8 ||| b₃.toUInt32).toNat = (ofU32be b₀ b₁ b₂ b₃).toNat := by
    intro w₁ w₂ w₃ hw₁ hw₂ hw₃
    have h₁' : w₁.toNat = 0 * 2 ^ 8 + b₀.toNat := hw₁ ▸ hstep 0 b₀ (by decide)
    have h₂' : w₂.toNat = w₁.toNat * 2 ^ 8 + b₁.toNat := hw₂ ▸ hstep w₁ b₁ (by omega)
    have h₃' : w₃.toNat = w₂.toNat * 2 ^ 8 + b₂.toNat := hw₃ ▸ hstep w₂ b₂ (by omega)
    rw [hstep w₃ b₃ (by omega), toNat_ofU32be]
    omega
  exact UInt32.toNat_inj.mp (hword _ _ _ rfl rfl rfl)

theorem tableChecksumFrom_eq (sum : UInt32) (data : Bytes) :
    tableChecksumFrom sum data =
      sum + wordSum (data ++ List.replicate ((4 - data.length % 4) % 4) 0) := by
  induction sum, data using tableChecksumFrom.induct with
  | case1 sum => simp [tableChecksumFrom]
  | case2 sum b₀ => simp [tableChecksumFrom, checksumWord_eq, wordSum, List.replicate]
  | case3 sum b₀ b₁ => simp [tableChecksumFrom, checksumWord_eq, wordSum, List.replicate]
  | case4 sum b₀ b₁ b₂ => simp [tableChecksumFrom, checksumWord_eq, wordSum]
  | case5 sum b₀ b₁ b₂ b₃ data ih =>
      have hmod : (b₀ :: b₁ :: b₂ :: b₃ :: data).length % 4 = data.length % 4 := by
        simp only [List.length_cons]
        omega
      rw [tableChecksumFrom, ih, hmod, checksumWord_eq]
      simp only [List.cons_append, wordSum, add_assoc]

/-- The checksum that is computed for a table is the sum of its words. -/
theorem tableChecksum_eq (t : FontTable) : tableChecksum t.data = wordSum t.padded := by
  rw [tableChecksum, tableChecksumFrom_eq, zero_add, FontTable.padded]

theorem tableChecksum_of_words {data : Bytes} (h : data.length % 4 = 0) :
    tableChecksum data = wordSum data := by
  have hnone : (4 - data.length % 4) % 4 = 0 := by omega
  rw [tableChecksum, tableChecksumFrom_eq, hnone, List.replicate_zero, List.append_nil, zero_add]

/-! ## The directory of the written file -/

theorem readEntry_entry {file pre post : Bytes} {e : DirEntry}
    (hfile : file = pre ++ (e.bytes ++ post)) : readEntry file pre.length = .ok e := by
  obtain ⟨htag, hchecksum, hoffset, hlength⟩ := entry_fields hfile
  rw [readEntry, htag, hchecksum, hoffset, hlength]
  rfl

theorem readEntriesFrom_entries {file pre post : Bytes} {entries : List DirEntry} {i : ℕ}
    (hfile : file = pre ++ (entries.flatMap DirEntry.bytes ++ post))
    (hpre : pre.length = 12 + i * 16) : readEntriesFrom file i entries.length = .ok entries := by
  induction entries generalizing pre i with
  | nil => rfl
  | cons e entries ih =>
      have hhere : file = pre ++ (e.bytes ++ (entries.flatMap DirEntry.bytes ++ post)) := by
        rw [hfile, List.flatMap_cons, List.append_assoc]
      have hrest : file = (pre ++ e.bytes) ++ (entries.flatMap DirEntry.bytes ++ post) := by
        rw [hhere, List.append_assoc]
      have hlength : (pre ++ e.bytes).length = 12 + (i + 1) * 16 := by
        rw [List.length_append, length_dirEntry_bytes, hpre]
        omega
      have hentry := readEntry_entry hhere
      rw [hpre] at hentry
      rw [List.length_cons, readEntriesFrom, hentry, ih hrest hlength]
      rfl

theorem readDirectory_layoutHead (version : UInt32) {tables : List FontTable} (body : Bytes)
    (hcount : tables.length < 2 ^ 16) :
    readDirectory (layoutHead version tables ++ body) =
      .ok (dirFrom (12 + tables.length * 16) tables) := by
  obtain ⟨numTables, hnumTables, hnum⟩ := readU16_layoutHead version body hcount
  have hheader : (sfntHeader version (UInt16.ofNat tables.length)).data.length = 12 + 0 * 16 :=
    length_sfntHeader version _
  have hentries := readEntriesFrom_entries (layoutHead_split version tables body) hheader
  rw [length_dirFrom] at hentries
  rw [readDirectory, hnumTables]
  simp only [bind, Except.bind, hnum, hentries]

/-- The entries of a directory that starts at a multiple of four, in order. -/
theorem dirFrom_order {offset : ℕ} {tables : List FontTable} (hword : offset % 4 = 0)
    (hsize : offset + bodySize tables < 2 ^ 32) :
    (∀ e ∈ dirFrom offset tables, offset ≤ e.offset.toNat ∧ e.offset.toNat % 4 = 0) ∧
      (dirFrom offset tables).Pairwise fun a b ↦
        a.offset.toNat + a.length.toNat ≤ b.offset.toNat := by
  induction tables generalizing offset with
  | nil => simp [dirFrom]
  | cons t tables ih =>
      rw [bodySize_cons] at hsize
      have hlength := length_padded t
      have hmod := length_padded_mod t
      obtain ⟨hplaces, hapart⟩ := @ih (offset + t.padded.length) (by omega) (by omega)
      have hoffset : (UInt32.ofNat offset).toNat = offset := by
        rw [UInt32.toNat_ofNat', Nat.mod_eq_of_lt (by omega)]
      have hdata : (UInt32.ofNat t.data.length).toNat = t.data.length := by
        rw [UInt32.toNat_ofNat', Nat.mod_eq_of_lt (by omega)]
      constructor
      · intro e he
        rcases List.mem_cons.mp he with rfl | he
        · exact ⟨hoffset.ge, by rw [hoffset, hword]⟩
        · obtain ⟨hle, he⟩ := hplaces e he
          exact ⟨by omega, he⟩
      · refine List.pairwise_cons.mpr ⟨?_, hapart⟩
        intro e he
        have hle := (hplaces e he).1
        rw [hoffset, hdata]
        omega

theorem checksum_dirFrom (offset : ℕ) (tables : List FontTable) :
    (dirFrom offset tables).map DirEntry.checksum =
      tables.map fun t ↦ Foundations.wordSum t.padded := by
  induction tables generalizing offset with
  | nil => rfl
  | cons t tables ih => rw [dirFrom, List.map_cons, List.map_cons, ih, tableChecksum_eq]

/-! ## Cleared adjustments -/

/-- The tables have cleared adjustments, and the 'head' tables reach over
them. -/
def Cleared (tables : List FontTable) : Prop :=
  ∀ t ∈ tables, t.tag = headTag →
    ∃ first rest, first.length = 8 ∧ t.data = first ++ ([0, 0, 0, 0] ++ rest)

theorem clearAdjustment_head {t : FontTable} (htag : t.tag = headTag)
    (hlength : 12 ≤ t.data.length) :
    ∃ first rest, first.length = 8 ∧
      (clearAdjustment t).data = first ++ ([0, 0, 0, 0] ++ rest) := by
  have hfirst : (t.data.take 8).length = 8 := by
    rw [List.length_take]
    omega
  have hold : ((t.data.drop 8).take 4).length = 4 := by
    rw [List.length_take, List.length_drop]
    omega
  have hsplit : t.data = t.data.take 8 ++ ((t.data.drop 8).take 4 ++ t.data.drop 12) := by
    have hrest : t.data.drop 12 = (t.data.drop 8).drop 4 := by rw [List.drop_drop]
    rw [hrest, List.take_append_drop, List.take_append_drop]
  have hzeros : overwrite t.data 8 [0, 0, 0, 0] =
      t.data.take 8 ++ ([0, 0, 0, 0] ++ t.data.drop 12) := by
    have hmiddle := @overwrite_middle (t.data.take 8) ((t.data.drop 8).take 4) (t.data.drop 12)
      [0, 0, 0, 0] hold.symm
    rwa [← hsplit, hfirst] at hmiddle
  refine ⟨t.data.take 8, t.data.drop 12, hfirst, ?_⟩
  rw [clearAdjustment, if_pos ⟨htag, hlength⟩]
  exact hzeros

theorem Cleared.mask_eq {tables : List FontTable} (h : Cleared tables) :
    tables.map maskAdjustment = tables := by
  have hmask : ∀ t ∈ tables, maskAdjustment t = id t := by
    intro t ht
    by_cases htag : t.tag = headTag
    · obtain ⟨first, rest, hfirst, hdata⟩ := h t ht htag
      have hsame : t.data.mapIdx (fun i b ↦ if 8 ≤ i ∧ i < 12 then 0 else b) = t.data := by
        rw [List.mapIdx_eq_iff]
        intro i
        by_cases hi : 8 ≤ i ∧ i < 12
        · have hzero : t.data[i]? = some 0 := by
            rw [hdata, List.getElem?_append_right (by omega), hfirst,
              List.getElem?_append_left (by simp; omega)]
            have hplaces : i - 8 = 0 ∨ i - 8 = 1 ∨ i - 8 = 2 ∨ i - 8 = 3 := by omega
            rcases hplaces with hk | hk | hk | hk
            all_goals rw [hk]; rfl
          simp [hzero, hi]
        · simp [hi]
      rw [maskAdjustment, if_pos htag, hsame]
      rfl
    · exact maskAdjustment_of_ne htag
  rw [List.map_congr_left hmask, List.map_id]

/-! ## The written file -/

/-- The adjustment completes the sum of the file. -/
theorem LastHead.wordSum_file {tables before after : List FontTable} {h : FontTable}
    (hl : LastHead tables before h after) (hcleared : Cleared tables) (version : UInt32) :
    wordSum (layoutHead version tables ++ adjustedBody version tables) = headChecksumMagic := by
  obtain ⟨first, rest, hfirst, hdata⟩ := hcleared h (by simp [hl.split]) hl.head
  have hpadded : h.padded = first ++ ([0, 0, 0, 0] ++
      (rest ++ List.replicate ((4 - h.data.length % 4) % 4) 0)) := by
    rw [FontTable.padded, hdata]
    simp only [List.append_assoc]
  have hhead : (layoutHead version tables).length % 4 = 0 := by
    rw [length_layoutHead]
    omega
  have hbefore := bodySize_mod before
  have hbody : tables.flatMap FontTable.padded = (before.flatMap FontTable.padded ++ first) ++
      ([0, 0, 0, 0] ++ (rest ++ List.replicate ((4 - h.data.length % 4) % 4) 0 ++
        after.flatMap FontTable.padded)) := by
    rw [hl.split, List.flatMap_append, List.flatMap_cons, hpadded]
    simp only [List.append_assoc]
  have hplace : (before.flatMap FontTable.padded ++ first).length = bodySize before + 8 := by
    rw [List.length_append, hfirst, bodySize]
  have hover := @overwrite_middle (before.flatMap FontTable.padded ++ first) [0, 0, 0, 0]
    (rest ++ List.replicate ((4 - h.data.length % 4) % 4) 0 ++ after.flatMap FontTable.padded)
    (u32be (adjustment version tables)) (length_u32be _)
  rw [← hbody, hplace] at hover
  have hwords : (layoutHead version tables ++
      (before.flatMap FontTable.padded ++ first)).length % 4 = 0 := by
    rw [List.length_append, hplace]
    omega
  have hfile : tableChecksum (layoutFile version tables).data =
      wordSum (layoutHead version tables ++ tables.flatMap FontTable.padded) := by
    rw [layoutFile_data]
    apply tableChecksum_of_words
    have hmod := bodySize_mod tables
    rw [List.length_append, ← bodySize]
    omega
  rw [hl.adjustedBody_eq, hover, ← List.append_assoc, wordSum_middle hwords, List.append_assoc,
    ← hbody, adjustment, hfile, add_sub_cancel]

theorem LastHead.tablesIn_mask {tables before after : List FontTable} {h : FontTable}
    (hl : LastHead tables before h after) (hcleared : Cleared tables) (version : UInt32) :
    (tablesIn (adjustedBody version tables) tables).map maskAdjustment = tables := by
  obtain ⟨first, rest, hfirst, hdata⟩ := hcleared h (by simp [hl.split]) hl.head
  have hlength : 8 < h.padded.length := by
    have hdataLength := congrArg List.length hdata
    have hpadded := length_padded h
    simp only [List.length_append, hfirst, List.length_cons, List.length_nil] at hdataLength
    omega
  have hat : tableAt tables (bodySize before + 8) = some (h, 8) := by
    rw [hl.split, tableAt_append, tableAt, if_pos hlength]
  have hword : (bodySize before + 8) % 4 = 0 := by
    have hmod := bodySize_mod before
    omega
  obtain ⟨left, right, hsplit, hin⟩ :=
    tablesIn_overwrite hword (length_u32be (adjustment version tables)) hat
  have hmask := maskAdjustment_overwrite hl.head (length_u32be (adjustment version tables))
  calc
    (tablesIn (adjustedBody version tables) tables).map maskAdjustment =
        (left ++ h :: right).map maskAdjustment := by
      rw [hl.adjustedBody_eq, hin, List.map_append, List.map_append, List.map_cons, List.map_cons,
        hmask]
    _ = tables.map maskAdjustment := by rw [← hsplit]
    _ = tables := hcleared.mask_eq

/-- A written file with cleared 'head' tables, one at least, is sound. -/
theorem LastHead.soundFile {tables before after : List FontTable} {h : FontTable}
    (hl : LastHead tables before h after) (hcleared : Cleared tables) (version : UInt32)
    (hcount : tables.length < 2 ^ 16)
    (hsize : (layoutHead version tables ++ adjustedBody version tables).length < 2 ^ 32) :
    SoundFile (layoutHead version tables ++ adjustedBody version tables)
      (dirFrom (12 + tables.length * 16) tables) := by
  have hbody := length_adjustedBody version tables
  have hmod := bodySize_mod tables
  have hlength : (layoutHead version tables ++ adjustedBody version tables).length =
      12 + tables.length * 16 + bodySize tables := by
    rw [List.length_append, length_layoutHead, hbody]
  have hinside := hlength.ge
  obtain ⟨hplaces, hapart⟩ := @dirFrom_order (12 + tables.length * 16) tables (by omega) (by omega)
  refine
    { directory := readDirectory_layoutHead version _ hcount
      words := by omega
      fileSum := hl.wordSum_file hcleared version
      checksum := ?_
      aligned := fun e he ↦ (hplaces e he).2
      behind := ?_
      inside := dirFrom_fits hinside hsize
      apart := hapart.imp Or.inl }
  · -- entry by entry, the sums of the masked tables are those of the tables laid out
    have hdrop : (layoutHead version tables ++ adjustedBody version tables).drop
        (12 + tables.length * 16) = adjustedBody version tables := by
      rw [← length_layoutHead version tables, List.drop_left]
    have htables := dirFrom_tables hinside hsize
    rw [hdrop] at htables
    have hsums : (dirFrom (12 + tables.length * 16) tables).map (fun e ↦
        e.wordSum (layoutHead version tables ++ adjustedBody version tables)) =
          (dirFrom (12 + tables.length * 16) tables).map DirEntry.checksum := by
      rw [checksum_dirFrom]
      conv_rhs => rw [← hl.tablesIn_mask hcleared version, ← htables]
      rw [List.map_map, List.map_map]
      rfl
    intro e he
    exact (List.map_inj_left.mp hsums e he).symm
  · intro e he
    rw [length_dirFrom]
    exact (hplaces e he).1

/-! ## Rewriting -/

def headTables (tables : List FontTable) : List FontTable :=
  tables.filter fun t ↦ t.tag = headTag

theorem mem_headTables {tables : List FontTable} {t : FontTable} :
    t ∈ headTables tables ↔ t ∈ tables ∧ t.tag = headTag := by
  rw [headTables, List.mem_filter, decide_eq_true_iff]

theorem headTables_replaceName (nameTable : Bytes) (tables : List FontTable) :
    headTables (replaceName nameTable tables) = headTables tables := by
  have hname : nameTag ≠ headTag := by decide
  induction tables with
  | nil => exact List.filter_cons_of_neg (by simp [hname])
  | cons t tables ih =>
      rw [replaceName]
      split
      · rename_i ht
        have hhead : ¬ t.tag = headTag := fun h ↦ hname (ht.symm.trans h)
        simp only [headTables, List.filter_cons, hhead, decide_false, Bool.false_eq_true, if_false]
      · simp only [headTables] at ih
        simp only [headTables, List.filter_cons, ih]

theorem clearAdjustment_tag (t : FontTable) : (clearAdjustment t).tag = t.tag := by
  unfold clearAdjustment
  split
  · rfl
  · rfl

theorem headTables_outputTables (qsort : TagSort) (nameTable : Bytes) (tables : List FontTable) :
    (headTables (outputTables qsort nameTable tables)).Perm
      ((headTables tables).map clearAdjustment) := by
  have hclear : headTables ((replaceName nameTable tables).map clearAdjustment) =
      (headTables tables).map clearAdjustment := by
    rw [← headTables_replaceName nameTable tables, headTables, headTables, List.filter_map]
    congr 1
    apply List.filter_congr
    intro t _
    simp [clearAdjustment_tag]
  rw [← hclear]
  exact (qsort.perm _).filter _

/-- A font with one 'head' table, of at least 12 bytes, and fewer than 65535
tables is rewritten to a file that is sound if it is below 4 GiB. -/
theorem rewrite_sound (qsort : TagSort) {input : Bytes} {faceIndex : UInt32}
    (family subfamily : Bytes) {sfntOffset : ℕ} {version : UInt32} {tables : List FontTable}
    {head : FontTable} (hface : faceOffset input faceIndex = .ok sfntOffset)
    (hread : readTables input sfntOffset = .ok (version, tables))
    (hcount : tables.length < 65535) (hhead : headTables tables = [head])
    (hlength : 12 ≤ head.data.length) :
    ∃ out, wpFontRewriteName qsort input faceIndex family subfamily = .ok out ∧
      (out.length < 2 ^ 32 → ∃ entries, SoundFile out entries) := by
  have hheads := headTables_outputTables qsort (nameTableOf family subfamily) tables
  rw [hhead, List.map_singleton, List.perm_singleton] at hheads
  have hmem : ∀ t, t ∈ outputTables qsort (nameTableOf family subfamily) tables ∧
      t.tag = headTag ↔ t = clearAdjustment head := by
    intro t
    rw [← mem_headTables, hheads, List.mem_singleton]
  have htag : head.tag = headTag :=
    (mem_headTables.mp (hhead ▸ List.mem_cons_self : head ∈ headTables tables)).2
  have hcleared : Cleared (outputTables qsort (nameTableOf family subfamily) tables) := by
    intro t ht hthead
    rw [(hmem t).mp ⟨ht, hthead⟩]
    exact clearAdjustment_head htag hlength
  obtain ⟨before, h, after, hl⟩ :=
    (noHead_or_lastHead (outputTables qsort (nameTableOf family subfamily) tables)).resolve_left
      fun hnone ↦ by
        obtain ⟨hin, heq⟩ := (hmem _).mpr rfl
        exact hnone _ hin heq
  obtain ⟨result, hresult, hdata⟩ := adjustChecksum_layoutFile version (qsort.sorted _)
    (name_outputTables qsort family subfamily tables)
  refine ⟨result.data, ?_, ?_⟩
  · exact wpFontRewriteName_eq hface hread hresult
  · intro hsize
    have hcount' := length_outputTables qsort (nameTableOf family subfamily) tables
    rw [hdata] at hsize ⊢
    exact ⟨_, hl.soundFile hcleared version (by omega) hsize⟩

/-- A rewritten font with an empty 'head' table of 54 bytes. -/
theorem rewrite_sound_head :
    ∃ out, wpFontRewriteName stableTagSort (oneTableFont (blankHead 54)) 0 [65] [66] = .ok out ∧
      (out.length < 2 ^ 32 → ∃ entries, SoundFile out entries) :=
  rewrite_sound stableTagSort [65] [66]
    (show faceOffset (oneTableFont (blankHead 54)) 0 = .ok 0 by decide +kernel)
    (show readTables (oneTableFont (blankHead 54)) 0 = .ok (0x00010000, [blankHead 54]) by
      decide +kernel)
    (by decide) (show headTables [blankHead 54] = [blankHead 54] by decide) (by decide)

end Wallpiper.Fonts
