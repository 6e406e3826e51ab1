import Wallpiper.Tray.IconFile

/-!
# Written icons are read back

The parser on a file that the loader has written, and on what is there of the
file while it is being written.
-/

namespace Wallpiper.Tray

open Foundations Foundations.CText Foundations.Sizes

theorem Pixel.bgra_inj {p q : Pixel} {s t : Bytes} (h : p.bgra ++ s = q.bgra ++ t) :
    p = q ∧ s = t := by
  obtain ⟨b, g, r, a⟩ := p
  obtain ⟨b', g', r', a'⟩ := q
  simpa [Pixel.bgra, and_assoc] using h

theorem flatMap_bgra_inj {ps qs : List Pixel}
    (h : ps.flatMap Pixel.bgra = qs.flatMap Pixel.bgra) : ps = qs := by
  induction ps generalizing qs with
  | nil =>
      cases qs with
      | nil => rfl
      | cons q qs => exact absurd h.symm (by simp [Pixel.bgra])
  | cons p ps ih =>
      cases qs with
      | nil => exact absurd h (by simp [Pixel.bgra])
      | cons q qs =>
          rw [List.flatMap_cons, List.flatMap_cons] at h
          obtain ⟨rfl, hrest⟩ := Pixel.bgra_inj h
          rw [ih hrest]

theorem length_flatMap_bgra (ps : List Pixel) : (ps.flatMap Pixel.bgra).length = 4 * ps.length := by
  induction ps with
  | nil => rfl
  | cons p ps ih =>
      rw [List.flatMap_cons, List.length_append, ih, List.length_cons, Nat.mul_add, Nat.add_comm]
      rfl

/-! ## The fields of a written file -/

section

variable (nid : NotifyIconData) (bmp : IconBitmap)

theorem length_iconTooltip_le : (iconTooltip nid).length ≤ 127 := by
  unfold iconTooltip
  split
  · omega
  · exact Nat.zero_le _

theorem length_iconFile : (iconFile nid bmp).length =
    36 + (iconTooltip nid).length + 4 * bmp.pixels.length := by
  simp only [iconFile, iconFileHead, List.length_append, length_u32le, length_u64le,
    length_flatMap_bgra]
  omega

theorem iconWidth_iconFile : iconWidth (iconFile nid bmp) = bmp.width.toInt := by
  rw [iconWidth, iconFile, @u32leAt_append _ 24 rfl]
  rfl

theorem iconHeight_iconFile : iconHeight (iconFile nid bmp) = bmp.height.toInt := by
  rw [iconHeight, iconFile, ← List.append_assoc, @u32leAt_append _ 28 rfl]
  rfl

theorem iconTooltipLen_iconFile :
    iconTooltipLen (iconFile nid bmp) = (iconTooltip nid).length := by
  have hle := length_iconTooltip_le nid
  rw [iconTooltipLen, iconFile, ← List.append_assoc, ← List.append_assoc, @u32leAt_append _ 32 rfl,
    UInt32.toNat_ofNat', Nat.mod_eq_of_lt (by omega)]

theorem take_iconFile : (iconFile nid bmp).take 4 = bytesOf "TRAY" := by
  have hmagic : u32le iconMagic = bytesOf "TRAY" := by decide
  rw [← hmagic]
  rfl

theorem drop_iconFile :
    (iconFile nid bmp).drop 36 = iconTooltip nid ++ bmp.pixels.flatMap Pixel.bgra := rfl

/-- The size field and the length of the file agree. -/
theorem length_eq_fields : ((iconFile nid bmp).length : ℤ) =
    36 + iconTooltipLen (iconFile nid bmp) +
      4 * iconWidth (iconFile nid bmp) * iconHeight (iconFile nid bmp) := by
  have hw := Int.toNat_of_nonneg bmp.width_nonneg
  have hh := Int.toNat_of_nonneg bmp.height_nonneg
  rw [iconWidth_iconFile, iconHeight_iconFile, iconTooltipLen_iconFile, length_iconFile,
    bmp.pixels_length, mul_assoc]
  push_cast
  rw [hw, hh]

theorem isIconFile_iconFile : IsIconFile (iconFile nid bmp) where
  header := by
    rw [length_iconFile]
    omega
  magic := take_iconFile nid bmp
  width_nonneg := by
    rw [iconWidth_iconFile]
    exact bmp.width_nonneg
  height_nonneg := by
    rw [iconHeight_iconFile]
    exact bmp.height_nonneg
  fits := (length_eq_fields nid bmp).ge

/-- What is there before the file is complete is no icon file: the fields are
there and ask for more, or the fields are not there. -/
theorem not_isIconFile_take {n : ℕ} (hn : n < (iconFile nid bmp).length) :
    ¬ IsIconFile ((iconFile nid bmp).take n) := by
  intro h
  have hlength : ((iconFile nid bmp).take n).length = n := by
    rw [List.length_take]
    omega
  have hheader := h.header
  have hfits := h.fits
  rw [hlength] at hheader hfits
  rw [iconWidth, iconHeight, iconTooltipLen, u32leAt_take (by omega), u32leAt_take (by omega),
    u32leAt_take (by omega)] at hfits
  have hfields := length_eq_fields nid bmp
  rw [iconWidth, iconHeight, iconTooltipLen] at hfields
  omega

/-- The icon that is read from the file. -/
theorem iconOf_iconFile {icon : TrayIcon} (h : IconOf (iconFile nid bmp) icon) :
    icon.width = bmp.width ∧ icon.height = bmp.height ∧
      icon.tooltip.take ((iconTooltip nid).length + 1) = iconTooltip nid ++ [0] ∧
      icon.pixelsArgb = bmp.pixels.flatMap Pixel.argb := by
  have htooltip := h.tooltip
  have hle := length_iconTooltip_le nid
  rw [iconTooltipLen_iconFile, Nat.min_eq_left (by omega), drop_iconFile,
    List.take_left] at htooltip
  refine ⟨Int32.toInt_inj.mp ?_, Int32.toInt_inj.mp ?_, htooltip, ?_⟩
  · rw [h.width, iconWidth_iconFile]
  · rw [h.height, iconHeight_iconFile]
  · obtain ⟨pixels, hread, hargb⟩ := h.pixels
    rw [iconTooltipLen_iconFile, iconWidth_iconFile, iconHeight_iconFile, ← bmp.pixels_length,
      ← List.drop_drop, drop_iconFile, List.drop_left, ← length_flatMap_bgra, List.take_length]
      at hread
    rw [hargb, flatMap_bgra_inj hread]

end

/-! ## The round trip -/

/-- A file that is written has the exact size: the product did not wrap. -/
theorem eq_iconFile_of_written {calls : IconCalls} {nid : NotifyIconData} {file : Bytes}
    (h : writeTrayIconFile calls nid = .ok (some file)) :
    ∃ bmp, calls.bitmap = some bmp ∧ file = iconFile nid bmp ∧ 4 * bmp.pixels.length < 2 ^ 32 := by
  rw [writeTrayIconFile] at h
  split at h
  · split at h
    · exact absurd h (by simp)
    · rename_i bmp hbmp
      simp only at h
      split at h
      · split at h
        · exact absurd h (by simp)
        · rename_i hroom
          have hlt := (bmp.width.toUInt32 * bmp.height.toUInt32 * 4).toNat_lt
          split at h
          · obtain rfl : iconFile nid bmp = file := by simpa using h
            exact ⟨bmp, hbmp, rfl, by omega⟩
          · exact absurd h (by simp)
      · exact absurd h (by simp)
  · exact absurd h (by simp)

/-- A string in front of its NUL. -/
theorem cString_of_take {buf s : Bytes} (hs : ∀ b ∈ s, b ≠ 0)
    (h : buf.take (s.length + 1) = s ++ [0]) : cString buf = s := by
  rw [← List.take_append_drop (s.length + 1) buf, h, cString, List.append_assoc,
    List.takeWhile_append_of_pos (by simpa using hs)]
  simp

theorem iconTooltip_of_le {nid : NotifyIconData} (h : nid.szTip.length ≤ 127) :
    iconTooltip nid = nid.szTip :=
  if_pos (by omega)

theorem iconTooltip_nonul (nid : NotifyIconData) : ∀ b ∈ iconTooltip nid, b ≠ 0 := by
  unfold iconTooltip
  split
  · exact nid.szTip_nonul
  · simp

theorem length_lt_of_written {nid : NotifyIconData} {bmp : IconBitmap}
    (hsize : 4 * bmp.pixels.length < 2 ^ 32) : (iconFile nid bmp).length < 2 ^ 62 := by
  have htooltip := length_iconTooltip_le nid
  rw [length_iconFile]
  omega

/-- A file of which the end is missing is rejected. -/
theorem parse_torn {nid : NotifyIconData} {bmp : IconBitmap} {part : Bytes}
    (hsize : 4 * bmp.pixels.length < 2 ^ 32) (hpart : part <+: iconFile nid bmp)
    (hne : part ≠ iconFile nid bmp) (out : TrayIcon) :
    wpTrayParseIconFile part out = .error .rejected := by
  have hlength := @length_lt_of_written nid bmp hsize
  have hlt : part.length < (iconFile nid bmp).length := by
    rcases Nat.lt_or_eq_of_le hpart.length_le with hlt | heq
    · exact hlt
    · exact absurd (hpart.eq_of_length heq) hne
  have hnot := not_isIconFile_take nid bmp hlt
  rw [← List.prefix_iff_eq_take.mp hpart] at hnot
  exact (post_wpTrayParseIconFile (by omega) out).eq_rejected fun icon h ↦ hnot h.1

/-- After a look at an unfinished file the time of the last icon is kept, so
the file is read again when it is looked at the next time. -/
theorem tryLoadIcon_torn {nid : NotifyIconData} {bmp : IconBitmap} {part : Bytes}
    (hsize : 4 * bmp.pixels.length < 2 ^ 32) (hpart : part <+: iconFile nid bmp)
    (hne : part ≠ iconFile nid bmp) (stat : Option Timespec) (lastMtime : Timespec)
    (out : TrayIcon) : tryLoadIcon stat (some part) lastMtime out = .ok (none, lastMtime) := by
  cases stat with
  | none => rfl
  | some mtime =>
      simp only [tryLoadIcon, parse_torn hsize hpart hne]
      split <;> rfl

/-- A written icon is read back with its pixels reordered, and no strict part
of the file from its start is accepted. -/
theorem writeTrayIconFile_readBack {calls : IconCalls} {nid : NotifyIconData} {file : Bytes}
    (hwritten : writeTrayIconFile calls nid = .ok (some file)) (out : TrayIcon) :
    (∃ bmp icon, calls.bitmap = some bmp ∧ wpTrayParseIconFile file out = .ok icon ∧
      icon.width = bmp.width ∧ icon.height = bmp.height ∧
      cString icon.tooltip = iconTooltip nid ∧
      (nid.szTip.length ≤ 127 → cString icon.tooltip = nid.szTip) ∧
      icon.pixelsArgb = bmp.pixels.flatMap Pixel.argb) ∧
    ∀ part, part <+: file → part ≠ file → wpTrayParseIconFile part out = .error .rejected := by
  obtain ⟨bmp, hbmp, rfl, hsize⟩ := eq_iconFile_of_written hwritten
  refine ⟨?_, fun part hpart hne ↦ parse_torn hsize hpart hne out⟩
  have hpost := post_wpTrayParseIconFile (@length_lt_of_written nid bmp hsize) out
  obtain ⟨icon, hicon, -, hof⟩ := hpost.exists_ok (not_not.mpr (isIconFile_iconFile nid bmp))
  obtain ⟨hwidth, hheight, htext, hpixels⟩ := iconOf_iconFile nid bmp hof
  have htooltip := cString_of_take (iconTooltip_nonul nid) htext
  exact ⟨bmp, icon, hbmp, hicon, hwidth, hheight, htooltip,
    fun htip ↦ htooltip.trans (iconTooltip_of_le htip), hpixels⟩

def onePixelBitmap : IconBitmap where
  width := 1
  height := 1
  width_nonneg := by decide
  height_nonneg := by decide
  pixels := [⟨10, 20, 30, 255⟩]
  pixels_length := rfl

def shortTip : NotifyIconData where
  hWnd := 0x30058
  uID := 7
  uCallbackMessage := 1025
  hasIcon := true
  szTip := bytesOf "Hi"
  szTip_nonul := by
    rw [show bytesOf "Hi" = [72, 105] from rfl]
    simp

theorem writeTrayIconFile_readBack_onePixel :
    ∃ icon, wpTrayParseIconFile (iconFile shortTip onePixelBitmap) emptyIcon = .ok icon ∧
      cString icon.tooltip = bytesOf "Hi" ∧ icon.pixelsArgb = [255, 30, 20, 10] := by
  have hwritten : writeTrayIconFile ⟨true, some onePixelBitmap, true, true, true⟩ shortTip =
      .ok (some (iconFile shortTip onePixelBitmap)) := rfl
  obtain ⟨⟨bmp, icon, hbmp, hicon, -, -, -, htip, hpixels⟩, -⟩ :=
    writeTrayIconFile_readBack hwritten emptyIcon
  obtain rfl : onePixelBitmap = bmp := Option.some.inj hbmp
  exact ⟨icon, hicon, htip (by decide), hpixels⟩

end Wallpiper.Tray
