import Mathlib.Data.List.Sort
import Wallpiper.Fonts.Layout

/-!
# What rewriting keeps

Rewriting keeps every table but the 'name' table, up to the checksum
adjustment in 'head' tables, provided that the place where the adjustment is
written lies in the 'head' table it is meant for.  Clearing the adjustment
checks the table's length and writing it does not.
-/

namespace Wallpiper.Fonts

open Foundations Foundations.CText

/-- A table up to the checksum adjustment, bytes 8 to 11 of a 'head' table. -/
def maskAdjustment (t : FontTable) : FontTable :=
  if t.tag = headTag then
    { t with data := t.data.mapIdx fun i b ↦ if 8 ≤ i ∧ i < 12 then 0 else b }
  else t

/-- The tables with the first 'name' table replaced, or one added. -/
def withName (nameTable : Bytes) (tables : List FontTable) : List FontTable :=
  match tables.findIdx? fun t ↦ t.tag == nameTag with
  | some i => tables.set i ⟨nameTag, nameTable⟩
  | none => tables ++ [⟨nameTag, nameTable⟩]

/-- The file is read as these tables, sorted by tag. -/
def TablesPreserved (out : Bytes) (expected : List FontTable) : Prop :=
  match readTables out 0 with
  | .ok (_, tables) =>
      tables.Pairwise TagLe ∧ (tables.map maskAdjustment).Perm (expected.map maskAdjustment)
  | .error _ => False

instance (out : Bytes) (expected : List FontTable) : Decidable (TablesPreserved out expected) :=
  match h : readTables out 0 with
  | .ok (_, tables) =>
      decidable_of_iff
        (tables.Pairwise TagLe ∧ (tables.map maskAdjustment).Perm (expected.map maskAdjustment))
        (by rw [TablesPreserved, h])
  | .error _ => isFalse (by simp [TablesPreserved, h])

/-- The tables in the order in which they are written. -/
def outputTables (qsort : TagSort) (nameTable : Bytes) (tables : List FontTable) :
    List FontTable :=
  qsort.sort ((replaceName nameTable tables).map clearAdjustment)

def lastHead (tables : List FontTable) : Option FontTable :=
  (tables.filter fun t ↦ t.tag = headTag).getLast?

/-- The last 'head' table reaches to its checksum adjustment. -/
def HeadFits (tables : List FontTable) : Prop :=
  ∀ h, lastHead tables = some h → 9 ≤ h.data.length

/-- The table at a place of the body, with the place in the table. -/
def tableAt : List FontTable → ℕ → Option (FontTable × ℕ)
  | [], _ => none
  | t :: tables, k =>
      if k < t.padded.length then some (t, k) else tableAt tables (k - t.padded.length)

def adjustment (version : UInt32) (tables : List FontTable) : UInt32 :=
  headChecksumMagic - tableChecksum (layoutFile version tables).data

/-- The table where the adjustment is written has these bytes there already. -/
def AdjustmentThere (version : UInt32) (tables : List FontTable) : Prop :=
  ∀ pos, (layoutTables tables).headChecksumPos = some pos →
    ∀ t r, tableAt tables (pos - (12 + tables.length * 16)) = some (t, r) →
      overwrite t.data r (u32be (adjustment version tables)) = t.data

/-! ## Overwriting a laid out body -/

theorem bodySize_append (left right : List FontTable) :
    bodySize (left ++ right) = bodySize left + bodySize right := by
  rw [bodySize, List.flatMap_append, List.length_append, bodySize, bodySize]

theorem bodySize_mod (tables : List FontTable) : bodySize tables % 4 = 0 := by
  induction tables with
  | nil => rfl
  | cons t tables ih =>
      have ht := length_padded_mod t
      rw [bodySize_cons]
      omega

theorem take_padded (t : FontTable) (rest : Bytes) :
    (t.padded ++ rest).take t.data.length = t.data := by
  rw [FontTable.padded, List.append_assoc, List.take_left]

theorem tablesIn_flatMap (tables : List FontTable) :
    tablesIn (tables.flatMap FontTable.padded) tables = tables := by
  induction tables with
  | nil => rfl
  | cons t tables ih => rw [List.flatMap_cons, tablesIn, take_padded, List.drop_left, ih]

/-- A word written over the body changes one table at most. -/
theorem tablesIn_overwrite {tables : List FontTable} {k r : ℕ} {t : FontTable} {bytes : Bytes}
    (hword : k % 4 = 0) (hbytes : bytes.length = 4) (hat : tableAt tables k = some (t, r)) :
    ∃ before after, tables = before ++ t :: after ∧
      tablesIn (overwrite (tables.flatMap FontTable.padded) k bytes) tables =
        before ++ ⟨t.tag, overwrite t.data r bytes⟩ :: after := by
  induction tables generalizing k with
  | nil => exact absurd hat (by simp [tableAt])
  | cons u tables ih =>
      have hmod := length_padded_mod u
      rw [tableAt] at hat
      split at hat
      · rename_i hlt
        obtain ⟨rfl, rfl⟩ := Prod.mk.inj (Option.some.inj hat)
        refine ⟨[], tables, rfl, ?_⟩
        have hinside : k + bytes.length ≤ u.padded.length := by omega
        have hdata : (overwrite u.padded k bytes ++ tables.flatMap FontTable.padded).take
            u.data.length = overwrite u.data k bytes := by
          rw [← overwrite_append_of_add_le hinside, take_overwrite, take_padded]
        have hrest : (overwrite u.padded k bytes ++ tables.flatMap FontTable.padded).drop
            u.padded.length = tables.flatMap FontTable.padded := by
          rw [← length_overwrite u.padded k bytes, List.drop_left]
        rw [List.flatMap_cons, overwrite_append_of_add_le hinside, tablesIn, hdata, hrest,
          tablesIn_flatMap]
        rfl
      · rename_i hge
        have hle : u.padded.length ≤ k := Nat.le_of_not_lt hge
        obtain ⟨before, after, htables, hin⟩ := ih (by omega) hat
        refine ⟨u :: before, after, by rw [htables, List.cons_append], ?_⟩
        rw [List.flatMap_cons, overwrite_append_of_le hle, tablesIn, take_padded, List.drop_left,
          hin, List.cons_append]

theorem tableAt_append {left right : List FontTable} {k : ℕ} :
    tableAt (left ++ right) (bodySize left + k) = tableAt right k := by
  induction left generalizing k with
  | nil => rw [List.nil_append, bodySize, List.flatMap_nil, List.length_nil, Nat.zero_add]
  | cons t left ih =>
      have hnot : ¬ t.padded.length + bodySize left + k < t.padded.length := by omega
      have hsub : t.padded.length + bodySize left + k - t.padded.length = bodySize left + k := by
        omega
      rw [List.cons_append, bodySize_cons, tableAt, if_neg hnot, hsub, ih]

theorem exists_tableAt {tables : List FontTable} {k : ℕ} (h : k < bodySize tables) :
    ∃ t r, tableAt tables k = some (t, r) := by
  induction tables generalizing k with
  | nil => exact absurd h (Nat.not_lt_zero k)
  | cons t tables ih =>
      rw [tableAt]
      split
      · exact ⟨t, k, rfl⟩
      · rw [bodySize_cons] at h
        exact ih (by omega)

theorem mem_of_tableAt {tables : List FontTable} {k r : ℕ} {t : FontTable}
    (hat : tableAt tables k = some (t, r)) : t ∈ tables := by
  induction tables generalizing k with
  | nil => exact absurd hat (by simp [tableAt])
  | cons u tables ih =>
      rw [tableAt] at hat
      split at hat
      · obtain ⟨rfl, _⟩ := Prod.mk.inj (Option.some.inj hat)
        exact List.mem_cons_self
      · exact List.mem_cons_of_mem _ (ih hat)

/-! ## The last 'head' table -/

/-- Tables with a last 'head' table between others. -/
structure LastHead (tables before : List FontTable) (h : FontTable) (after : List FontTable) :
    Prop where
  split : tables = before ++ h :: after
  head : h.tag = headTag
  noHead : ∀ t ∈ after, t.tag ≠ headTag

theorem noHead_or_lastHead (tables : List FontTable) :
    (∀ t ∈ tables, t.tag ≠ headTag) ∨ ∃ before h after, LastHead tables before h after := by
  induction tables with
  | nil => exact .inl fun t ht ↦ absurd ht List.not_mem_nil
  | cons t tables ih =>
      rcases ih with hnone | ⟨before, h, after, hlast⟩
      · by_cases ht : t.tag = headTag
        · exact .inr ⟨[], t, tables, rfl, ht, hnone⟩
        · exact .inl (List.forall_mem_cons.mpr ⟨ht, hnone⟩)
      · refine .inr ⟨t :: before, h, after, ?_, hlast.head, hlast.noHead⟩
        rw [hlast.split, List.cons_append]

theorem lastHead_of_noHead {tables : List FontTable} (h : ∀ t ∈ tables, t.tag ≠ headTag) :
    lastHead tables = none := by
  have hnil : tables.filter (fun t ↦ t.tag = headTag) = [] :=
    List.filter_eq_nil_iff.mpr fun t ht ↦ by simpa using h t ht
  rw [lastHead, hnil]
  rfl

theorem headChecksumPos_of_noHead {tables : List FontTable} (h : ∀ t ∈ tables, t.tag ≠ headTag) :
    (layoutTables tables).headChecksumPos = none :=
  foldl_placeTable_noHead _ _ h

theorem length_le_bodySize {tables : List FontTable} {t : FontTable} (ht : t ∈ tables) :
    t.data.length ≤ bodySize tables := by
  obtain ⟨before, after, rfl⟩ := List.append_of_mem ht
  have hlength := length_padded t
  rw [bodySize_append, bodySize_cons]
  omega

namespace LastHead

variable {tables before after : List FontTable} {h : FontTable}

theorem lastHead_eq (hl : LastHead tables before h after) : lastHead tables = some h := by
  have hnil : after.filter (fun t ↦ t.tag = headTag) = [] :=
    List.filter_eq_nil_iff.mpr fun t ht ↦ by simpa using hl.noHead t ht
  have hkeep : (h :: after).filter (fun t ↦ t.tag = headTag) = [h] := by
    rw [List.filter_cons_of_pos (by simpa using hl.head), hnil]
  rw [lastHead, hl.split, List.filter_append, hkeep, List.getLast?_append]
  rfl

theorem headFits_iff (hl : LastHead tables before h after) :
    HeadFits tables ↔ 8 < h.padded.length := by
  have hlength := length_padded h
  constructor
  · intro hfits
    have hnine := hfits h hl.lastHead_eq
    omega
  · intro hlt h' hh'
    obtain rfl := Option.some.inj (hl.lastHead_eq.symm.trans hh')
    omega

/-- The adjustment goes to the place 8 bytes into the last 'head' table. -/
theorem headChecksumPos_eq (hl : LastHead tables before h after) :
    (layoutTables tables).headChecksumPos =
      some (12 + tables.length * 16 + (bodySize before + 8)) := by
  have hfold : layoutTables tables = after.foldl (placeTable (12 + tables.length * 16))
      (placeTable (12 + tables.length * 16)
        (before.foldl (placeTable (12 + tables.length * 16)) .empty) h) := by
    rw [layoutTables, ← List.foldl_cons, ← List.foldl_append, ← hl.split]
  have hbody := (foldl_placeTable (12 + tables.length * 16) .empty before).1
  have halign : TableLayout.empty.body.align.data = [] := rfl
  rw [halign, List.nil_append] at hbody
  rw [hfold, foldl_placeTable_noHead _ _ hl.noHead]
  simp only [placeTable, if_pos hl.head, hbody, bodySize, Nat.add_assoc]

/-- The place of the adjustment is in the 'head' table itself if that is long
enough, else in a table after it. -/
theorem tableAt_adjustment (hl : LastHead tables before h after) {t : FontTable} {r : ℕ}
    (hat : tableAt tables (bodySize before + 8) = some (t, r)) :
    8 < h.padded.length ∧ t = h ∧ r = 8 ∨ ¬ 8 < h.padded.length ∧ t.tag ≠ headTag := by
  rw [hl.split, tableAt_append, tableAt] at hat
  split at hat
  · rename_i hlt
    obtain ⟨rfl, rfl⟩ := Prod.mk.inj (Option.some.inj hat)
    exact .inl ⟨hlt, rfl, rfl⟩
  · rename_i hge
    refine .inr ⟨hge, ?_⟩
    exact hl.noHead t (mem_of_tableAt hat)

/-- A 'name' table comes after the 'head' tables. -/
theorem name_mem_after (hl : LastHead tables before h after) (hsorted : tables.Pairwise TagLe)
    {t : FontTable} (ht : t ∈ tables) (hname : t.tag = nameTag) : t ∈ after := by
  rw [hl.split] at ht hsorted
  rcases List.mem_append.mp ht with hbefore | hafter
  · have hle := (List.pairwise_append.mp hsorted).2.2 t hbefore h List.mem_cons_self
    rw [TagLe, hname, hl.head] at hle
    exact absurd (by decide) hle
  · rcases List.mem_cons.mp hafter with rfl | hafter
    · exact absurd (hname.symm.trans hl.head) (by decide)
    · exact hafter

/-- The place of the adjustment is inside the body, since a 'name' table
follows. -/
theorem adjustment_inside (hl : LastHead tables before h after) (hsorted : tables.Pairwise TagLe)
    (hname : ∃ t ∈ tables, t.tag = nameTag ∧ 12 ≤ t.data.length) :
    bodySize before + 12 ≤ bodySize tables := by
  obtain ⟨t, ht, htag, hlength⟩ := hname
  have hafter := length_le_bodySize (hl.name_mem_after hsorted ht htag)
  rw [hl.split, bodySize_append, bodySize_cons]
  omega

end LastHead

/-! ## The adjustment is masked -/

/-- Four bytes written at the adjustment are masked. -/
theorem maskAdjustment_overwrite {t : FontTable} (ht : t.tag = headTag) {bytes : Bytes}
    (hbytes : bytes.length = 4) :
    maskAdjustment { t with data := overwrite t.data 8 bytes } = maskAdjustment t := by
  have hdata : (overwrite t.data 8 bytes).mapIdx (fun i b ↦ if 8 ≤ i ∧ i < 12 then 0 else b) =
      t.data.mapIdx (fun i b ↦ if 8 ≤ i ∧ i < 12 then 0 else b) := by
    apply List.ext_getElem?
    intro i
    rw [List.getElem?_mapIdx, List.getElem?_mapIdx, getElem?_overwrite]
    cases hi : t.data[i]? with
    | none => rfl
    | some b =>
        by_cases hin : 8 ≤ i ∧ i < 12
        · simp [hin]
        · have hout : 8 ≤ i → bytes[i - 8]? = none := fun hle ↦ List.getElem?_eq_none (by omega)
          by_cases hle : 8 ≤ i
          · simp [hle, List.getD, hout hle]
          · simp [hle]
  unfold maskAdjustment
  rw [if_pos ht, if_pos ht, hdata]

theorem maskAdjustment_clearAdjustment (t : FontTable) :
    maskAdjustment (clearAdjustment t) = maskAdjustment t := by
  unfold clearAdjustment
  split
  · rename_i h
    exact maskAdjustment_overwrite h.1 rfl
  · rfl

theorem maskAdjustment_of_ne {t : FontTable} (ht : t.tag ≠ headTag) : maskAdjustment t = t :=
  if_neg ht

theorem perm_map_insert {α β : Type*} (f : α → β) (before after : List α) (x y : α) :
    ((before ++ x :: after).map f).Perm ((before ++ y :: after).map f) ↔ f x = f y := by
  have hsplit : ∀ z, (before ++ z :: after).map f =
      before.map f ++ ([f z] ++ after.map f) := by
    intro z
    rw [List.map_append, List.map_cons, List.singleton_append]
  rw [hsplit, hsplit, List.perm_append_left_iff, List.perm_append_right_iff,
    List.singleton_perm_singleton]

/-! ## The written file -/

theorem write_ok (b : ByteBuf) (pos : ℕ) (v : UInt8) (h : pos < b.data.length) :
    ∃ b', b.write pos v = .ok b' ∧ b'.data = b.data.set pos v := by
  rw [ByteBuf.write, if_pos h]
  exact ⟨_, rfl, rfl⟩

theorem writeU32be_ok {b : ByteBuf} {pos : ℕ} (h : pos + 4 ≤ b.data.length) (v : UInt32) :
    ∃ b', b.writeU32be pos v = .ok b' ∧ b'.data = overwrite b.data pos (u32be v) := by
  obtain ⟨b₁, h₁, hdata₁⟩ := write_ok b pos (v >>> 24).toUInt8 (by omega)
  have hlen₁ : b₁.data.length = b.data.length := by rw [hdata₁, List.length_set]
  obtain ⟨b₂, h₂, hdata₂⟩ := write_ok b₁ (pos + 1) (v >>> 16).toUInt8 (by omega)
  have hlen₂ : b₂.data.length = b.data.length := by rw [hdata₂, List.length_set, hlen₁]
  obtain ⟨b₃, h₃, hdata₃⟩ := write_ok b₂ (pos + 2) (v >>> 8).toUInt8 (by omega)
  have hlen₃ : b₃.data.length = b.data.length := by rw [hdata₃, List.length_set, hlen₂]
  obtain ⟨b₄, h₄, hdata₄⟩ := write_ok b₃ (pos + 3) v.toUInt8 (by omega)
  refine ⟨b₄, ?_, ?_⟩
  · simp only [ByteBuf.writeU32be, bind, Except.bind, h₁, h₂, h₃, h₄]
  · rw [hdata₄, hdata₃, hdata₂, hdata₁, u32be, overwrite_cons, overwrite_cons, overwrite_cons,
      overwrite_cons, overwrite_nil]

/-- The body of the file once the adjustment is written. -/
def adjustedBody (version : UInt32) (tables : List FontTable) : Bytes :=
  match (layoutTables tables).headChecksumPos with
  | none => tables.flatMap FontTable.padded
  | some pos => overwrite (tables.flatMap FontTable.padded) (pos - (12 + tables.length * 16))
      (u32be (adjustment version tables))

theorem length_adjustedBody (version : UInt32) (tables : List FontTable) :
    (adjustedBody version tables).length = bodySize tables := by
  unfold adjustedBody
  split
  · rfl
  · rw [length_overwrite, bodySize]

/-- Every write is inside the file, since a 'name' table follows the 'head'
tables. -/
theorem adjustChecksum_layoutFile (version : UInt32) {tables : List FontTable}
    (hsorted : tables.Pairwise TagLe)
    (hname : ∃ t ∈ tables, t.tag = nameTag ∧ 12 ≤ t.data.length) :
    ∃ result, adjustChecksum (layoutFile version tables) (layoutTables tables).headChecksumPos =
        .ok result ∧
      result.data = layoutHead version tables ++ adjustedBody version tables := by
  rcases noHead_or_lastHead tables with hnone | ⟨before, h, after, hl⟩
  · have hpos := headChecksumPos_of_noHead hnone
    refine ⟨layoutFile version tables, ?_, ?_⟩
    · rw [hpos, adjustChecksum]
    · rw [layoutFile_data, adjustedBody, hpos]
  · have hpos := hl.headChecksumPos_eq
    have hbody := hl.adjustment_inside hsorted hname
    have hinside : 12 + tables.length * 16 + (bodySize before + 8) + 4 ≤
        (layoutFile version tables).data.length := by
      rw [layoutFile_data, List.length_append, length_layoutHead, ← bodySize]
      omega
    obtain ⟨result, hresult, hdata⟩ := writeU32be_ok hinside (adjustment version tables)
    refine ⟨result, ?_, ?_⟩
    · rw [hpos]
      exact hresult
    · have hle : (layoutHead version tables).length ≤
          12 + tables.length * 16 + (bodySize before + 8) := by
        rw [length_layoutHead]
        omega
      rw [hdata, layoutFile_data, overwrite_append_of_le hle, length_layoutHead, adjustedBody, hpos]

/-- The written file is read back as the tables that are in its body. -/
theorem adjusted_readTables (version : UInt32) {tables : List FontTable}
    (hsorted : tables.Pairwise TagLe)
    (hname : ∃ t ∈ tables, t.tag = nameTag ∧ 12 ≤ t.data.length) :
    ∃ result, adjustChecksum (layoutFile version tables) (layoutTables tables).headChecksumPos =
        .ok result ∧
      (tables.length < 2 ^ 16 → result.data.length < 2 ^ 32 →
        readTables result.data 0 =
          .ok (version, tablesIn (adjustedBody version tables) tables)) := by
  obtain ⟨result, hresult, hdata⟩ := adjustChecksum_layoutFile version hsorted hname
  refine ⟨result, hresult, ?_⟩
  intro hcount hsize
  rw [hdata] at hsize ⊢
  rw [List.length_append, length_layoutHead] at hsize
  exact readTables_layoutHead version hcount (length_adjustedBody version tables) hsize

/-! ## Rewriting -/

theorem replaceName_eq (nameTable : Bytes) (tables : List FontTable) :
    replaceName nameTable tables = withName nameTable tables := by
  induction tables with
  | nil => rfl
  | cons t tables ih =>
      by_cases ht : t.tag = nameTag
      · have hfind : (t :: tables).findIdx? (fun t ↦ t.tag == nameTag) = some 0 := by
          simp [List.findIdx?_cons, ht]
        rw [replaceName, if_pos ht, withName, hfind, ht]
        rfl
      · have hfind : (t :: tables).findIdx? (fun t ↦ t.tag == nameTag) =
            (tables.findIdx? fun t ↦ t.tag == nameTag).map (· + 1) := by
          simp [List.findIdx?_cons, ht]
        rw [replaceName, if_neg ht, ih, withName, withName, hfind]
        cases tables.findIdx? fun t ↦ t.tag == nameTag with
        | none => rfl
        | some i => rfl

theorem mem_replaceName (nameTable : Bytes) (tables : List FontTable) :
    ⟨nameTag, nameTable⟩ ∈ replaceName nameTable tables := by
  induction tables with
  | nil => exact List.mem_singleton.mpr rfl
  | cons t tables ih =>
      rw [replaceName]
      split
      · rename_i ht
        rw [ht]
        exact List.mem_cons_self
      · exact List.mem_cons_of_mem _ ih

theorem length_replaceName (nameTable : Bytes) (tables : List FontTable) :
    (replaceName nameTable tables).length ≤ tables.length + 1 := by
  induction tables with
  | nil => exact Nat.le_refl 1
  | cons t tables ih =>
      rw [replaceName]
      split
      · exact Nat.le_succ _
      · exact Nat.succ_le_succ ih

section

variable (qsort : TagSort) (nameTable : Bytes) (tables : List FontTable)

theorem length_outputTables :
    (outputTables qsort nameTable tables).length ≤ tables.length + 1 := by
  rw [outputTables, (qsort.perm _).length_eq, List.length_map]
  exact length_replaceName nameTable tables

/-- Up to the adjustments, the tables that are written are those expected. -/
theorem outputTables_perm : ((outputTables qsort nameTable tables).map maskAdjustment).Perm
    ((withName nameTable tables).map maskAdjustment) := by
  have hclear : ((replaceName nameTable tables).map clearAdjustment).map maskAdjustment =
      (withName nameTable tables).map maskAdjustment := by
    rw [List.map_map, replaceName_eq]
    exact List.map_congr_left fun t _ ↦ maskAdjustment_clearAdjustment t
  rw [outputTables, ← hclear]
  exact (qsort.perm _).map maskAdjustment

theorem name_mem_outputTables : ⟨nameTag, nameTable⟩ ∈ outputTables qsort nameTable tables := by
  have hclear : clearAdjustment ⟨nameTag, nameTable⟩ = ⟨nameTag, nameTable⟩ :=
    if_neg fun h ↦ absurd h.1 (show nameTag ≠ headTag by decide)
  rw [outputTables, (qsort.perm _).mem_iff, ← hclear]
  exact List.mem_map_of_mem (mem_replaceName nameTable tables)

end

/-- The tables found in the file keep their order. -/
theorem pairwise_tagLe_of_tags {left right : List FontTable}
    (htags : left.map FontTable.tag = right.map FontTable.tag) (h : right.Pairwise TagLe) :
    left.Pairwise TagLe := by
  have hmap : ∀ tables : List FontTable, tables.Pairwise TagLe ↔
      (tables.map FontTable.tag).Pairwise fun a b ↦ compareTags a b ≠ .gt := by
    intro tables
    rw [List.pairwise_map]
    rfl
  rw [hmap, htags, ← hmap]
  exact h

theorem tags_tablesIn (body : Bytes) (tables : List FontTable) :
    (tablesIn body tables).map FontTable.tag = tables.map FontTable.tag := by
  induction tables generalizing body with
  | nil => rfl
  | cons t tables ih => rw [tablesIn, List.map_cons, List.map_cons, ih]

namespace LastHead

variable {tables before after : List FontTable} {h : FontTable}

theorem adjustment_place :
    12 + tables.length * 16 + (bodySize before + 8) - (12 + tables.length * 16) =
      bodySize before + 8 :=
  Nat.add_sub_cancel_left ..

theorem adjustedBody_eq (hl : LastHead tables before h after) (version : UInt32) :
    adjustedBody version tables = overwrite (tables.flatMap FontTable.padded)
      (bodySize before + 8) (u32be (adjustment version tables)) := by
  rw [adjustedBody, hl.headChecksumPos_eq]
  simp only [adjustment_place]

theorem adjustmentThere_iff (hl : LastHead tables before h after) (version : UInt32)
    {t : FontTable} {r : ℕ} (hat : tableAt tables (bodySize before + 8) = some (t, r)) :
    AdjustmentThere version tables ↔
      overwrite t.data r (u32be (adjustment version tables)) = t.data := by
  constructor
  · intro hthere
    exact hthere _ hl.headChecksumPos_eq t r (by rw [adjustment_place, hat])
  · intro heq pos hpos t' r' hat'
    obtain rfl := Option.some.inj (hl.headChecksumPos_eq.symm.trans hpos)
    rw [adjustment_place] at hat'
    obtain ⟨rfl, rfl⟩ := Prod.mk.inj (Option.some.inj (hat.symm.trans hat'))
    exact heq

end LastHead

/-- The tables in the body are those that were laid out, up to the adjustments,
exactly if the adjustment falls on a long enough 'head' table or on bytes that
it does not change. -/
theorem adjustedBody_perm_iff (version : UInt32) {tables : List FontTable}
    (hsorted : tables.Pairwise TagLe)
    (hname : ∃ t ∈ tables, t.tag = nameTag ∧ 12 ≤ t.data.length) :
    ((tablesIn (adjustedBody version tables) tables).map maskAdjustment).Perm
        (tables.map maskAdjustment) ↔
      HeadFits tables ∨ AdjustmentThere version tables := by
  rcases noHead_or_lastHead tables with hnone | ⟨before, h, after, hl⟩
  · have hbody : adjustedBody version tables = tables.flatMap FontTable.padded := by
      rw [adjustedBody, headChecksumPos_of_noHead hnone]
    have hfits : HeadFits tables := fun h hh ↦
      absurd ((lastHead_of_noHead hnone).symm.trans hh) (by simp)
    rw [hbody, tablesIn_flatMap]
    exact ⟨fun _ ↦ .inl hfits, fun _ ↦ List.Perm.refl _⟩
  · have hbody := hl.adjustedBody_eq version
    have hinside := hl.adjustment_inside hsorted hname
    obtain ⟨u, r, hat⟩ : ∃ u r, tableAt tables (bodySize before + 8) = some (u, r) :=
      exists_tableAt (by omega)
    have hword : (bodySize before + 8) % 4 = 0 := by
      have hmod := bodySize_mod before
      omega
    obtain ⟨left, right, hsplit, hin⟩ :=
      tablesIn_overwrite hword (length_u32be (adjustment version tables)) hat
    have hperm : ((tablesIn (adjustedBody version tables) tables).map maskAdjustment).Perm
        (tables.map maskAdjustment) ↔
        maskAdjustment ⟨u.tag, overwrite u.data r (u32be (adjustment version tables))⟩ =
          maskAdjustment u := by
      have hmap : tables.map maskAdjustment = (left ++ u :: right).map maskAdjustment :=
        congrArg (List.map maskAdjustment) hsplit
      rw [hbody, hin, hmap]
      exact perm_map_insert maskAdjustment left right _ u
    rw [hperm, hl.headFits_iff, hl.adjustmentThere_iff version hat]
    rcases hl.tableAt_adjustment hat with ⟨hfits, rfl, rfl⟩ | ⟨hshort, hnotHead⟩
    · exact ⟨fun _ ↦ .inl hfits,
        fun _ ↦ maskAdjustment_overwrite hl.head (length_u32be (adjustment version tables))⟩
    · have hmask : maskAdjustment ⟨u.tag, overwrite u.data r (u32be (adjustment version tables))⟩ =
          ⟨u.tag, overwrite u.data r (u32be (adjustment version tables))⟩ :=
        maskAdjustment_of_ne hnotHead
      rw [hmask, maskAdjustment_of_ne hnotHead]
      constructor
      · intro heq
        exact .inr (congrArg FontTable.data heq)
      · rintro (hfits | heq)
        · exact absurd hfits hshort
        · rw [heq]

def nameTableOf (family subfamily : Bytes) : Bytes := (buildNameTable family subfamily .init).data

theorem name_outputTables (qsort : TagSort) (family subfamily : Bytes) (tables : List FontTable) :
    ∃ t ∈ outputTables qsort (nameTableOf family subfamily) tables,
      t.tag = nameTag ∧ 12 ≤ t.data.length := by
  have hlength := length_buildNameTable family subfamily .init
  have hlong : 12 ≤ (nameTableOf family subfamily).length := by
    rw [nameTableOf]
    omega
  exact ⟨_, name_mem_outputTables qsort (nameTableOf family subfamily) tables, rfl, hlong⟩

/-- What a rewritten font is, once its face and tables are read. -/
theorem wpFontRewriteName_eq {qsort : TagSort} {input : Bytes} {faceIndex : UInt32}
    {family subfamily : Bytes} {sfntOffset : ℕ} {version : UInt32} {tables : List FontTable}
    {result : ByteBuf} (hface : faceOffset input faceIndex = .ok sfntOffset)
    (hread : readTables input sfntOffset = .ok (version, tables))
    (hresult : adjustChecksum
      (layoutFile version (outputTables qsort (nameTableOf family subfamily) tables))
      (layoutTables (outputTables qsort (nameTableOf family subfamily) tables)).headChecksumPos =
        .ok result) :
    wpFontRewriteName qsort input faceIndex family subfamily = .ok result.data := by
  simp only [outputTables, nameTableOf] at hresult
  simp only [wpFontRewriteName, bind, Except.bind, hface, hread, serialize, hresult]

/-- Every input whose face and tables can be read is rewritten without a write
outside the file, and a file below 4 GiB is read back as the input's tables
exactly if the adjustment is where it belongs or changes nothing. -/
theorem rewrite_preserves_tables (qsort : TagSort) {input : Bytes} {faceIndex : UInt32}
    (family subfamily : Bytes) {sfntOffset : ℕ} {version : UInt32} {tables : List FontTable}
    (hface : faceOffset input faceIndex = .ok sfntOffset)
    (hread : readTables input sfntOffset = .ok (version, tables))
    (hcount : tables.length < 65535) :
    ∃ out, wpFontRewriteName qsort input faceIndex family subfamily = .ok out ∧
      (out.length < 2 ^ 32 →
        (TablesPreserved out (withName (nameTableOf family subfamily) tables) ↔
          HeadFits (outputTables qsort (nameTableOf family subfamily) tables) ∨
            AdjustmentThere version
              (outputTables qsort (nameTableOf family subfamily) tables))) := by
  have hsorted : (outputTables qsort (nameTableOf family subfamily) tables).Pairwise TagLe :=
    qsort.sorted _
  have hname := name_outputTables qsort family subfamily tables
  obtain ⟨result, hresult, hback⟩ := adjusted_readTables version hsorted hname
  refine ⟨result.data, ?_, ?_⟩
  · exact wpFontRewriteName_eq hface hread hresult
  · intro hsize
    have hlength := length_outputTables qsort (nameTableOf family subfamily) tables
    have hperm := outputTables_perm qsort (nameTableOf family subfamily) tables
    rw [TablesPreserved, hback (by omega) hsize, ← adjustedBody_perm_iff version hsorted hname]
    constructor
    · rintro ⟨_, htables⟩
      exact htables.trans hperm.symm
    · intro htables
      refine ⟨?_, htables.trans hperm⟩
      exact pairwise_tagLe_of_tags (tags_tablesIn _ _) hsorted

/-! ## Two fonts -/

instance : Std.TransCmp compareTags :=
  inferInstanceAs (Std.TransCmp (compareLex (compareOn FontTag.b₀) (compareLex
    (compareOn FontTag.b₁) (compareLex (compareOn FontTag.b₂) (compareOn FontTag.b₃)))))

theorem tagLe_iff_isLE {a b : FontTable} : TagLe a b ↔ (compareTags a.tag b.tag).isLE := by
  unfold TagLe
  cases compareTags a.tag b.tag <;> decide

instance : IsTrans FontTable TagLe where
  trans a b c hab hbc := by
    rw [tagLe_iff_isLE] at hab hbc ⊢
    exact Std.TransCmp.isLE_trans hab hbc

instance : Std.Total TagLe where
  total a b := by
    rw [tagLe_iff_isLE, tagLe_iff_isLE]
    by_cases hab : (compareTags a.tag b.tag).isLE
    · exact .inl hab
    · have hlt := Std.OrientedCmp.lt_of_not_isLE hab
      exact .inr (by rw [hlt]; rfl)

/-- A sort that keeps the order of tables of one tag. -/
def stableTagSort : TagSort :=
  { sort := List.insertionSort TagLe
    perm := List.perm_insertionSort TagLe
    sorted := List.pairwise_insertionSort TagLe }

/-- A font file with one table. -/
def oneTableFont (t : FontTable) : Bytes :=
  u32be 0x00010000 ++ u16be 1 ++ u16be 16 ++ u16be 0 ++ u16be 0 ++ t.tag.bytes ++
    u32be (tableChecksum t.data) ++ u32be 28 ++ u32be (UInt32.ofNat t.data.length) ++ t.data

/-- A 'head' table of a length, without any content. -/
def blankHead (length : ℕ) : FontTable := ⟨headTag, List.replicate length 0⟩

theorem rewrite_preserves_tables_head :
    ∃ out, wpFontRewriteName stableTagSort (oneTableFont (blankHead 54)) 0 [65] [66] = .ok out ∧
      (out.length < 2 ^ 32 →
        (TablesPreserved out (withName (nameTableOf [65] [66]) [blankHead 54]) ↔
          HeadFits (outputTables stableTagSort (nameTableOf [65] [66]) [blankHead 54]) ∨
            AdjustmentThere 0x00010000
              (outputTables stableTagSort (nameTableOf [65] [66]) [blankHead 54]))) :=
  rewrite_preserves_tables stableTagSort [65] [66]
    (show faceOffset (oneTableFont (blankHead 54)) 0 = .ok 0 by decide +kernel)
    (show readTables (oneTableFont (blankHead 54)) 0 = .ok (0x00010000, [blankHead 54]) by
      decide +kernel)
    (by decide)

/-- The adjustment of a 'head' table of eight bytes is written over the start
of the 'name' table. -/
theorem adjustment_overwrites_name :
    readTables (oneTableFont (blankHead 8)) 0 = .ok (0x00010000, [blankHead 8]) ∧
      ∃ out, wpFontRewriteName stableTagSort (oneTableFont (blankHead 8)) 0 [65] [66] = .ok out ∧
        out.length < 2 ^ 32 ∧
          ¬ TablesPreserved out (withName (nameTableOf [65] [66]) [blankHead 8]) := by
  have hrun : (wpFontRewriteName stableTagSort (oneTableFont (blankHead 8)) 0 [65] [66]).map
      (fun out ↦ decide (out.length < 2 ^ 32 ∧
        ¬ TablesPreserved out (withName (nameTableOf [65] [66]) [blankHead 8]))) = .ok true := by
    decide +kernel
  refine ⟨by decide +kernel, ?_⟩
  cases hout : wpFontRewriteName stableTagSort (oneTableFont (blankHead 8)) 0 [65] [66] with
  | error e =>
      rw [hout] at hrun
      exact absurd hrun (by simp [Except.map])
  | ok out =>
      rw [hout] at hrun
      exact ⟨out, rfl, of_decide_eq_true (Except.ok.inj hrun)⟩

end Wallpiper.Fonts
