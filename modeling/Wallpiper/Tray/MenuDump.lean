import Wallpiper.Foundations.FirstFit
import Wallpiper.Foundations.Forest
import Wallpiper.Tray.Entry

/-!
# The menu dump and its parser

The loader writes one line for each item of a Win32 menu, in preorder, and
the daemon reads the lines back.  A dump that fits its buffer is read back
exactly: the only change is that tabs, newlines and carriage returns in the
item texts are now spaces.
-/

namespace Wallpiper.Tray

open Foundations Foundations.CText

/-! ## The loader's side -/

/-- What `GetMenuItemInfoW` reports of an item.  The text is the item's
string in UTF-8; a string has no NUL inside. -/
structure MenuItem where
  wID : UInt32
  fState : UInt32
  fType : UInt32
  text : Bytes
  text_nonul : ∀ b ∈ text, b ≠ 0
  deriving DecidableEq, Repr

/-- A menu is the list of its items, each with its submenu. -/
abbrev Menu := Forest MenuItem

def blankByte (b : UInt8) : UInt8 := if b = 9 ∨ b = 10 ∨ b = 13 then 32 else b

/-- `WideCharToMultiByte` into 256 bytes fails on longer texts. -/
def itemText (item : MenuItem) : Bytes :=
  let textutf8 := if item.text.length + 1 ≤ 256 then item.text else []
  textutf8.map blankByte

/-- A line of the dump without its newline. -/
def menuFields (depth : ℕ) (item : MenuItem) : Bytes :=
  decimalInt depth ++ 9 :: (decimal item.wID.toNat ++
    9 :: (bytesOf "0x" ++ hexLower item.fState.toNat ++
      9 :: (bytesOf "0x" ++ hexLower item.fType.toNat ++ 9 :: itemText item)))

def menuLine (depth : ℕ) (item : MenuItem) : Bytes := menuFields depth item ++ [10]

def appendStr (bufCap : ℕ) (buf s : Bytes) : Bytes :=
  if buf.length + s.length ≥ bufCap then buf else buf ++ s

def serializeMenu (bufCap : ℕ) : Menu → ℕ → Bytes → Bytes
  | .nil, _, buf => buf
  | .cons item hSubMenu rest, depth, buf =>
      if depth > 4 then buf
      else
        let buf := appendStr bufCap buf (menuLine depth item)
        let buf := serializeMenu bufCap hSubMenu (depth + 1) buf
        serializeMenu bufCap rest depth buf

/-- The bytes that `dump_menu_to_file` writes. -/
def dumpMenuToFile (menu : Menu) : Bytes := serializeMenu 16384 menu 0 []

/-! ## The daemon's side -/

/-- The explicit skip of a leading `0x`. -/
def skipHexMark : Bytes → Bytes
  | 48 :: x :: rest => if x = 120 ∨ x = 88 then rest else 48 :: x :: rest
  | s => s

def parseHexField (s : Bytes) : Option UInt32 :=
  if s.length ≥ 32 then none
  else
    let p := skipHexMark s
    if (scanNumber 16 p).isSome then some (UInt32.ofNat (strtoul 16 p)) else none

def parseMenuLine (line : Bytes) : Option TrayEntry := do
  let (depthBuf, rest) ← cutAt 9 line
  let (idBuf, rest) ← cutAt 9 rest
  let (stateBuf, rest) ← cutAt 9 rest
  let (typeBuf, text) ← cutAt 9 rest
  if depthBuf.length < 32 ∧ idBuf.length < 32 then
    let stateV ← parseHexField stateBuf
    let typeV ← parseHexField typeBuf
    if (scanNumber 10 depthBuf).isSome ∧ (scanNumber 10 idBuf).isSome then
      some { depth := (Int32.ofInt (strtol 10 depthBuf)).toInt
             id := UInt32.ofNat (strtoul 10 idBuf)
             state := stateV
             typeFlags := typeV
             text := text.take 255
             dbusId := 0 }
    else none
  else none

def addMenuLine (out : List TrayEntry) (line : Bytes) : List TrayEntry :=
  let line := if line.getLast? = some 13 then line.dropLast else line
  if line ≠ [] ∧ out.length < wpTrayMaxEntries then
    match parseMenuLine line with
    | some e => out ++ [e]
    | none => out
  else out

/-- The text is what was read from the file, up to its first NUL. -/
def wpTrayParseMenuDump (text : Bytes) : List TrayEntry :=
  ((cString text).splitOnP (· == 10)).foldl addMenuLine []

/-! ## One line -/

/-- The entry that an item of the given depth stands for. -/
def menuEntry (depth : ℕ) (item : MenuItem) : TrayEntry :=
  { depth := depth, id := item.wID, state := item.fState, typeFlags := item.fType
    text := item.text.map blankByte, dbusId := 0 }

theorem not_blank_of_isNumeralByte {b : UInt8} (hb : isNumeralByte b = true) :
    b ≠ 9 ∧ b ≠ 10 ∧ b ≠ 13 ∧ b ≠ 0 := by
  refine ⟨?_, ?_, ?_, ?_⟩
  all_goals
    rintro rfl
    exact absurd hb (by decide)

theorem decimalInt_clean (z : ℤ) :
    ∀ b ∈ decimalInt z, b ≠ 9 ∧ b ≠ 10 ∧ b ≠ 13 ∧ b ≠ 0 :=
  fun _ hb ↦ not_blank_of_isNumeralByte (isNumeralByte_of_mem_decimalInt hb)

theorem decimal_clean (n : ℕ) : ∀ b ∈ decimal n, b ≠ 9 ∧ b ≠ 10 ∧ b ≠ 13 ∧ b ≠ 0 :=
  fun _ hb ↦ not_blank_of_isNumeralByte (isNumeralByte_of_mem_numeral (by omega) (by omega) hb)

theorem hexField_clean (n : ℕ) :
    ∀ b ∈ bytesOf "0x" ++ hexLower n, b ≠ 9 ∧ b ≠ 10 ∧ b ≠ 13 ∧ b ≠ 0 := by
  intro b hb
  rcases List.mem_append.mp hb with hb | hb
  · have key : ∀ b ∈ bytesOf "0x", b ≠ 9 ∧ b ≠ 10 ∧ b ≠ 13 ∧ b ≠ 0 := by decide +kernel
    exact key b hb
  · exact not_blank_of_isNumeralByte (isNumeralByte_of_mem_numeral (by omega) (by omega) hb)

theorem blankByte_clean (b : UInt8) :
    blankByte b ≠ 9 ∧ blankByte b ≠ 10 ∧ blankByte b ≠ 13 ∧ (b ≠ 0 → blankByte b ≠ 0) := by
  unfold blankByte
  split
  · exact ⟨by decide, by decide, by decide, fun _ ↦ by decide⟩
  · rename_i h
    simp only [not_or] at h
    exact ⟨h.1, h.2.1, h.2.2, id⟩

theorem itemText_clean (item : MenuItem) :
    ∀ b ∈ itemText item, b ≠ 9 ∧ b ≠ 10 ∧ b ≠ 13 ∧ b ≠ 0 := by
  intro b hb
  obtain ⟨c, hc, rfl⟩ := List.mem_map.mp hb
  have hmem : c ∈ item.text := by
    split at hc
    · exact hc
    · exact absurd hc List.not_mem_nil
  obtain ⟨h₁, h₂, h₃, h₄⟩ := blankByte_clean c
  exact ⟨h₁, h₂, h₃, h₄ (item.text_nonul c hmem)⟩

theorem itemText_of_length_le {item : MenuItem} (h : item.text.length ≤ 255) :
    itemText item = item.text.map blankByte := by
  rw [itemText, if_pos (by omega)]

/-- A line holds no newline, carriage return or NUL before its end. -/
theorem menuFields_clean (depth : ℕ) (item : MenuItem) :
    ∀ b ∈ menuFields depth item, b ≠ 10 ∧ b ≠ 13 ∧ b ≠ 0 := by
  intro b hb
  simp only [menuFields, List.mem_append, List.mem_cons] at hb
  have htab : (9 : UInt8) ≠ 10 ∧ (9 : UInt8) ≠ 13 ∧ (9 : UInt8) ≠ 0 := by decide
  rcases hb with hb | rfl | hb | rfl | hb | rfl | hb | rfl | hb
  · exact (decimalInt_clean _ b hb).2
  · exact htab
  · exact (decimal_clean _ b hb).2
  · exact htab
  · exact (hexField_clean _ b (List.mem_append.mpr hb)).2
  · exact htab
  · exact (hexField_clean _ b (List.mem_append.mpr hb)).2
  · exact htab
  · exact (itemText_clean item b hb).2

theorem parseHexField_hexLower (n : UInt32) :
    parseHexField (bytesOf "0x" ++ hexLower n.toNat) = some n := by
  have hlen : (hexLower n.toNat).length ≤ 8 :=
    numeral_length_le (by omega) (by omega) (n.toNat_lt)
  have hscan : scanNumber 16 (hexLower n.toNat) = some (false, n.toNat) :=
    scanNumber_numeral (by omega) (by omega) n.toNat
  have hval : strtoul 16 (hexLower n.toNat) = n.toNat :=
    strtoul_hexLower (n.toNat_lt.trans (by omega))
  have hmark : skipHexMark (bytesOf "0x" ++ hexLower n.toNat) = hexLower n.toNat := rfl
  have hshort : ¬ (bytesOf "0x" ++ hexLower n.toNat).length ≥ 32 := by
    rw [List.length_append, show (bytesOf "0x").length = 2 from rfl]
    omega
  simp only [parseHexField, if_neg hshort, hmark, hscan, hval, Option.isSome_some, if_true,
    UInt32.ofNat_toNat]

theorem parseMenuLine_menuFields {depth : ℕ} (hdepth : depth ≤ 4) {item : MenuItem}
    (htext : item.text.length ≤ 255) :
    parseMenuLine (menuFields depth item) = some (menuEntry depth item) := by
  have hcut₁ := cutAt_append_cons (c := 9) (fun b hb ↦ (decimalInt_clean depth b hb).1)
    (decimal item.wID.toNat ++ 9 :: (bytesOf "0x" ++ hexLower item.fState.toNat ++
      9 :: (bytesOf "0x" ++ hexLower item.fType.toNat ++ 9 :: itemText item)))
  have hcut₂ := cutAt_append_cons (c := 9) (fun b hb ↦ (decimal_clean item.wID.toNat b hb).1)
    (bytesOf "0x" ++ hexLower item.fState.toNat ++
      9 :: (bytesOf "0x" ++ hexLower item.fType.toNat ++ 9 :: itemText item))
  have hcut₃ := cutAt_append_cons (c := 9) (fun b hb ↦ (hexField_clean item.fState.toNat b hb).1)
    (bytesOf "0x" ++ hexLower item.fType.toNat ++ 9 :: itemText item)
  have hcut₄ := cutAt_append_cons (c := 9) (fun b hb ↦ (hexField_clean item.fType.toNat b hb).1)
    (itemText item)
  have hdepthLen : (decimalInt depth).length ≤ 1 := by
    rw [decimalInt, if_neg (by omega)]
    exact numeral_length_le (by omega) (by omega) (by simp; omega)
  have hidLen : (decimal item.wID.toNat).length ≤ 10 :=
    numeral_length_le (by omega) (by omega) (item.wID.toNat_lt.trans (by omega))
  have hdepthVal : strtol 10 (decimalInt depth) = depth :=
    strtol_decimalInt (by omega) (by omega)
  have hidVal : strtoul 10 (decimal item.wID.toNat) = item.wID.toNat :=
    strtoul_decimal (item.wID.toNat_lt.trans (by omega))
  have hidScan : scanNumber 10 (decimal item.wID.toNat) = some (false, item.wID.toNat) :=
    scanNumber_numeral (by omega) (by omega) _
  have hint : (Int32.ofInt (depth : ℤ)).toInt = depth :=
    Int32.toInt_ofInt_of_le (by omega) (by omega)
  have htake : (itemText item).take 255 = item.text.map blankByte := by
    rw [itemText_of_length_le htext, List.take_of_length_le (by simpa using htext)]
  have hfits : (decimalInt depth).length < 32 ∧ (decimal item.wID.toNat).length < 32 :=
    ⟨by omega, by omega⟩
  simp only [parseMenuLine, menuFields, hcut₁, hcut₂, hcut₃, hcut₄, Option.bind_eq_bind,
    Option.bind_some, if_pos hfits, parseHexField_hexLower, scanNumber_decimalInt, hidScan,
    Option.isSome_some, and_self, if_true, hdepthVal, hidVal, hint, htake, UInt32.ofNat_toNat]
  rfl

/-! ## The whole dump -/

/-- The lines of a menu in preorder. -/
def menuLines (menu : Menu) (depth : ℕ) : List Bytes :=
  (menu.preorderDepthsFrom depth).map fun p ↦ menuLine p.1 p.2

theorem menuLines_cons (item : MenuItem) (hSubMenu rest : Menu) (depth : ℕ) :
    menuLines (.cons item hSubMenu rest) depth =
      menuLine depth item :: (menuLines hSubMenu (depth + 1) ++ menuLines rest depth) := by
  simp [menuLines, Forest.preorderDepthsFrom]

theorem appendStr_eq_append (limit : ℕ) (buf s : Bytes) :
    appendStr (limit + 1) buf s = FirstFit.append limit buf s := by
  unfold appendStr FirstFit.append
  by_cases h : buf.length + s.length ≤ limit
  · rw [if_neg (by omega), if_pos h]
  · rw [if_pos (by omega), if_neg h]

/-- Within the depth limit the serializer offers every line to the buffer. -/
theorem serializeMenu_eq_foldl (limit : ℕ) {menu : Menu} {depth : ℕ}
    (hdepths : ∀ d ∈ menu.depthsFrom depth, d ≤ 4) (buf : Bytes) :
    serializeMenu (limit + 1) menu depth buf =
      (menuLines menu depth).foldl (FirstFit.append limit) buf := by
  induction menu generalizing depth buf with
  | nil => rfl
  | cons item hSubMenu rest hsub hrest =>
      simp only [Forest.depthsFrom, List.mem_cons, List.mem_append] at hdepths
      have hdepth : ¬ depth > 4 := Nat.not_lt_of_le (hdepths depth (Or.inl rfl))
      rw [serializeMenu, if_neg hdepth, menuLines_cons, List.foldl_cons, List.foldl_append,
        ← appendStr_eq_append, ← hsub fun d hd ↦ hdepths d (Or.inr (Or.inl hd)),
        ← hrest fun d hd ↦ hdepths d (Or.inr (Or.inr hd))]

theorem addMenuLine_menuFields {depth : ℕ} (hdepth : depth ≤ 4) {item : MenuItem}
    (htext : item.text.length ≤ 255) {out : List TrayEntry}
    (hroom : out.length < wpTrayMaxEntries) :
    addMenuLine out (menuFields depth item) = out ++ [menuEntry depth item] := by
  have hlast : (menuFields depth item).getLast? ≠ some 13 := by
    intro h
    exact (menuFields_clean depth item 13 (List.mem_of_getLast? h)).2.1 rfl
  have hne : menuFields depth item ≠ [] := by
    simp [menuFields]
  simp only [addMenuLine, if_neg hlast, if_pos (And.intro hne hroom),
    parseMenuLine_menuFields hdepth htext]

theorem foldl_addMenuLine {items : List (ℕ × MenuItem)} (hdepth : ∀ p ∈ items, p.1 ≤ 4)
    (htext : ∀ p ∈ items, p.2.text.length ≤ 255) {out : List TrayEntry}
    (hroom : out.length + items.length ≤ wpTrayMaxEntries) :
    (items.map fun p ↦ menuFields p.1 p.2).foldl addMenuLine out =
      out ++ items.map fun p ↦ menuEntry p.1 p.2 := by
  induction items generalizing out with
  | nil => simp
  | cons p ps ih =>
      rw [List.length_cons] at hroom
      have hnext : out.length < wpTrayMaxEntries := by omega
      have hline := addMenuLine_menuFields (hdepth p List.mem_cons_self)
        (htext p List.mem_cons_self) hnext
      rw [List.map_cons, List.foldl_cons, hline,
        ih (fun q hq ↦ hdepth q (List.mem_cons_of_mem p hq))
          (fun q hq ↦ htext q (List.mem_cons_of_mem p hq)) (by
            rw [List.length_append, List.length_singleton]
            omega)]
      simp

theorem wpTrayParseMenuDump_lines {items : List (ℕ × MenuItem)} (hdepth : ∀ p ∈ items, p.1 ≤ 4)
    (htext : ∀ p ∈ items, p.2.text.length ≤ 255) (hlen : items.length ≤ wpTrayMaxEntries) :
    wpTrayParseMenuDump (items.map fun p ↦ menuLine p.1 p.2).flatten =
      items.map fun p ↦ menuEntry p.1 p.2 := by
  have hnonul : ∀ b ∈ (items.map fun p ↦ menuLine p.1 p.2).flatten, b ≠ 0 := by
    intro b hb
    obtain ⟨l, hl, hbl⟩ := List.mem_flatten.mp hb
    obtain ⟨p, _, rfl⟩ := List.mem_map.mp hl
    rcases List.mem_append.mp hbl with hbl | hbl
    · exact (menuFields_clean p.1 p.2 b hbl).2.2
    · obtain rfl : b = 10 := by simpa using hbl
      decide
  have hlines : (items.map fun p ↦ menuLine p.1 p.2).flatten =
      ((items.map fun p ↦ menuFields p.1 p.2).map fun l ↦ l ++ [10]).flatten := by
    rw [List.map_map]
    rfl
  have hfields : ∀ l ∈ items.map fun p ↦ menuFields p.1 p.2, ∀ b ∈ l, b ≠ 10 := by
    intro l hl b hb
    obtain ⟨p, _, rfl⟩ := List.mem_map.mp hl
    exact (menuFields_clean p.1 p.2 b hb).1
  have hempty : ∀ out, addMenuLine out [] = out := fun out ↦ by simp [addMenuLine]
  rw [wpTrayParseMenuDump, cString_of_nonul hnonul, hlines, splitOn_lines hfields,
    List.foldl_append, foldl_addMenuLine hdepth htext (by simpa using hlen),
    List.foldl_cons, hempty]
  simp

/-- A menu that fits the buffer is read back item by item. -/
theorem wpTrayParseMenuDump_dumpMenuToFile {menu : Menu} (hdepths : ∀ d ∈ menu.depths, d ≤ 4)
    (hsize : menu.size ≤ wpTrayMaxEntries)
    (htext : ∀ item ∈ menu.preorder, item.text.length ≤ 255)
    (hbytes : (menuLines menu 0).flatten.length ≤ 16383) :
    wpTrayParseMenuDump (dumpMenuToFile menu) =
      (menu.preorderDepthsFrom 0).map fun p ↦ menuEntry p.1 p.2 := by
  have hdump : dumpMenuToFile menu = (menuLines menu 0).flatten := by
    rw [dumpMenuToFile, serializeMenu_eq_foldl 16383 hdepths,
      FirstFit.foldl_append_of_le _ _ (by simpa using hbytes), List.nil_append]
  have hzip := Forest.preorderDepthsFrom_eq_zip menu 0
  rw [hdump]
  apply wpTrayParseMenuDump_lines
  · intro p hp
    rw [hzip] at hp
    exact hdepths p.1 (List.of_mem_zip hp).1
  · intro p hp
    rw [hzip] at hp
    exact htext p.2 (List.of_mem_zip hp).2
  · rw [hzip, List.length_zip]
    simpa using hsize

/-- A checked item above a submenu with a tab in its text and a separator. -/
theorem wpTrayParseMenuDump_dumpMenuToFile_submenu :
    let item := fun (id fState fType : UInt32) (text : String)
        (h : ∀ b ∈ bytesOf text, b ≠ 0) ↦ (⟨id, fState, fType, bytesOf text, h⟩ : MenuItem)
    let menu : Menu := .cons (item 7 8 0 "Mute" (by decide +kernel)) .nil
      (.cons (item 4294967295 0 0 "Rate\t2" (by decide +kernel))
        (.cons (item 0 0 2048 "" (by decide +kernel)) .nil .nil) .nil)
    wpTrayParseMenuDump (dumpMenuToFile menu) =
      [⟨0, 7, 8, 0, bytesOf "Mute", 0⟩, ⟨0, 4294967295, 0, 0, bytesOf "Rate 2", 0⟩,
        ⟨1, 0, 0, 2048, [], 0⟩] :=
  wpTrayParseMenuDump_dumpMenuToFile (by decide) (by decide) (by decide) (by decide)

end Wallpiper.Tray
