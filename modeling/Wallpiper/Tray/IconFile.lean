import Wallpiper.Foundations.CText
import Wallpiper.Foundations.LittleEndian

/-!
# The tray icon file

The loader writes the program's tray icon to a file of little-endian fields, a
tooltip and the pixels; the daemon reads it back.  The daemon may look at the
file while it is being written, and at a file with any contents at all.
-/

namespace Wallpiper.Tray

open Foundations Foundations.CText Foundations.Sizes

def iconMagic : UInt32 := 0x59415254

structure Pixel where
  b : UInt8
  g : UInt8
  r : UInt8
  a : UInt8
  deriving DecidableEq, Repr

def Pixel.bgra (p : Pixel) : Bytes := [p.b, p.g, p.r, p.a]

def Pixel.argb (p : Pixel) : Bytes := [p.a, p.r, p.g, p.b]

/-! ## The loader's side -/

/-- The colour bitmap of an icon, its lines from the top. -/
structure IconBitmap where
  width : Int32
  height : Int32
  width_nonneg : 0 ≤ width.toInt
  height_nonneg : 0 ≤ height.toInt
  pixels : List Pixel
  pixels_length : pixels.length = width.toInt.toNat * height.toInt.toNat

/-- What the program passes to `Shell_NotifyIconW`.  The tip is in UTF-8; a
string has no NUL inside. -/
structure NotifyIconData where
  hWnd : UInt64
  uID : UInt32
  uCallbackMessage : UInt32
  /-- `NIF_ICON` is set and there is an icon -/
  hasIcon : Bool
  szTip : Bytes
  szTip_nonul : ∀ b ∈ szTip, b ≠ 0

/-- The answers of Windows while the file is written. -/
structure IconCalls where
  getTrayIconFilePath : Bool
  /-- `GetIconInfo` and `GetObjectW` -/
  bitmap : Option IconBitmap
  malloc : Bool
  getDIBits : Bool
  createFile : Bool

/-- `WideCharToMultiByte` into 128 bytes fails on longer tips. -/
def iconTooltip (nid : NotifyIconData) : Bytes :=
  if nid.szTip.length + 1 ≤ 128 then nid.szTip else []

/-- The fields in front of the size. -/
def iconFileHead (nid : NotifyIconData) : Bytes :=
  u32le iconMagic ++ (u32le 1 ++ (u64le nid.hWnd ++ (u32le nid.uID ++ u32le nid.uCallbackMessage)))

def iconFile (nid : NotifyIconData) (bmp : IconBitmap) : Bytes :=
  iconFileHead nid ++ (u32le bmp.width.toUInt32 ++ (u32le bmp.height.toUInt32 ++
    (u32le (UInt32.ofNat (iconTooltip nid).length) ++
      (iconTooltip nid ++ bmp.pixels.flatMap Pixel.bgra))))

/-- The bytes of the file, if it is written.  The size of the pixel buffer is a
product in 32 bits, and `GetDIBits` draws all pixels into the buffer. -/
def writeTrayIconFile (calls : IconCalls) (nid : NotifyIconData) : Except Fault (Option Bytes) :=
  if calls.getTrayIconFilePath ∧ nid.hasIcon then
    match calls.bitmap with
    | none => .ok none
    | some bmp =>
        let pixelBytes := bmp.width.toUInt32 * bmp.height.toUInt32 * 4
        if calls.malloc ∧ calls.getDIBits then
          if pixelBytes.toNat < 4 * bmp.pixels.length then .error .outOfBounds
          else .ok (if calls.createFile then some (iconFile nid bmp) else none)
        else .ok none
  else .ok none

/-! ## The daemon's side -/

/-- A `wp_tray_icon_t`. -/
structure TrayIcon where
  width : Int32
  height : Int32
  tooltip : Bytes
  tooltip_size : tooltip.length = 256
  pixelsArgb : Bytes
  deriving DecidableEq

/-- Write bytes over the tooltip buffer. -/
def TrayIcon.storeTooltip (out : TrayIcon) (pos : UInt64) (bytes : Bytes) : Except Fault TrayIcon :=
  if pos.toNat + bytes.length ≤ 256 then
    .ok { out with
      tooltip := overwrite out.tooltip pos.toNat bytes
      tooltip_size := by
        rw [length_overwrite]
        exact out.tooltip_size }
  else .error .outOfBounds

def readU32le (buf : Bytes) (off : UInt64) : Except Fault UInt32 := do
  let b₀ ← load buf off
  let b₁ ← loadAt buf off 1
  let b₂ ← loadAt buf off 2
  let b₃ ← loadAt buf off 3
  .ok (ofU32le b₀ b₁ b₂ b₃)

/-- A round of the loop over the pixels, up to the writing of the result. -/
def readPixel (bgra : Bytes) (i : UInt64) : Except Fault Pixel := do
  let k ← mul i 4
  let b ← loadAt bgra k 0
  let g ← loadAt bgra k 1
  let r ← loadAt bgra k 2
  let a ← loadAt bgra k 3
  .ok ⟨b, g, r, a⟩

/-- The parser from the check of the size on. -/
def parseIconPixels (buf : Bytes) (len : UInt64) (width height : Int32) (pixelsStart : UInt64)
    (out : TrayIcon) : Except Fault TrayIcon :=
  if width < 0 ∨ height < 0 then .error .rejected
  else do
    let pixelCount ← mul width.toInt64.toUInt64 height.toInt64.toUInt64
    let pixelBytes ← mul pixelCount 4
    let pixelsEnd ← add pixelsStart pixelBytes
    if pixelsEnd > len then .error .rejected
    else do
      let pixels ← collect pixelCount (readPixel (buf.drop pixelsStart.toNat))
      .ok { out with width, height, pixelsArgb := pixels.flatMap Pixel.argb }

/-- What is left in `out` when the file is rejected is not used. -/
def wpTrayParseIconFile (buf : Bytes) (out : TrayIcon) : Except Fault TrayIcon :=
  let len := bufferSize buf
  if len < 36 then .error .rejected
  else do
    let magic ← readU32le buf 0
    if magic ≠ iconMagic then .error .rejected
    else do
      let width ← readU32le buf 24
      let height ← readU32le buf 28
      let tooltipLen ← readU32le buf 32
      let tooltipStart : UInt64 := 36
      let pixelsStart ← add tooltipStart tooltipLen.toUInt64
      if pixelsStart > len then .error .rejected
      else do
        let ttCopy := if tooltipLen.toUInt64 ≥ 256 then 255 else tooltipLen.toUInt64
        let text ← copyOut buf tooltipStart ttCopy
        let out ← out.storeTooltip 0 text
        let out ← out.storeTooltip ttCopy [0]
        parseIconPixels buf len width.toInt32 height.toInt32 pixelsStart out

structure Timespec where
  sec : ℤ
  nsec : ℤ
  deriving DecidableEq, Repr

/-- The icon, if there is a new one, and the time of the file last read.  The
contents are what `fread` delivers, if the file can be read. -/
def tryLoadIcon (stat : Option Timespec) (contents : Option Bytes) (lastMtime : Timespec)
    (out : TrayIcon) : Except Fault (Option TrayIcon × Timespec) :=
  match stat, contents with
  | some mtime, some buf =>
      if mtime = lastMtime then .ok (none, lastMtime)
      else match wpTrayParseIconFile buf out with
        | .ok icon => .ok (some icon, mtime)
        | .error .rejected => .ok (none, lastMtime)
        | .error fault => .error fault
  | _, _ => .ok (none, lastMtime)

/-! ## Which files are accepted -/

def iconWidth (buf : Bytes) : ℤ := (u32leAt buf 24).toInt32.toInt

def iconHeight (buf : Bytes) : ℤ := (u32leAt buf 28).toInt32.toInt

def iconTooltipLen (buf : Bytes) : ℕ := (u32leAt buf 32).toNat

/-- The magic is the text `TRAY`, and the size is compared in the exact
integers. -/
structure IsIconFile (buf : Bytes) : Prop where
  header : 36 ≤ buf.length
  magic : buf.take 4 = bytesOf "TRAY"
  width_nonneg : 0 ≤ iconWidth buf
  height_nonneg : 0 ≤ iconHeight buf
  fits : 36 + iconTooltipLen buf + 4 * iconWidth buf * iconHeight buf ≤ buf.length

/-- What the parser returns of a file it accepts. -/
structure IconOf (buf : Bytes) (icon : TrayIcon) : Prop where
  width : icon.width.toInt = iconWidth buf
  height : icon.height.toInt = iconHeight buf
  tooltip : icon.tooltip.take (min (iconTooltipLen buf) 255 + 1) =
    (buf.drop 36).take (min (iconTooltipLen buf) 255) ++ [0]
  pixels : ∃ pixels : List Pixel,
    (buf.drop (36 + iconTooltipLen buf)).take
        (4 * ((iconWidth buf).toNat * (iconHeight buf).toNat)) =
      pixels.flatMap Pixel.bgra ∧
    icon.pixelsArgb = pixels.flatMap Pixel.argb

theorem take_four_eq_iff {buf : Bytes} (h : 36 ≤ buf.length) :
    buf.take 4 = bytesOf "TRAY" ↔ u32leAt buf 0 = iconMagic := by
  obtain ⟨b₀, b₁, b₂, b₃, rest, rfl⟩ : ∃ b₀ b₁ b₂ b₃ rest, buf = b₀ :: b₁ :: b₂ :: b₃ :: rest := by
    match buf, h with
    | b₀ :: b₁ :: b₂ :: b₃ :: rest, _ => exact ⟨b₀, b₁, b₂, b₃, rest, rfl⟩
  have htray : bytesOf "TRAY" = [0x54, 0x52, 0x41, 0x59] := by decide
  have hmagic : iconMagic = ofU32le 0x54 0x52 0x41 0x59 := by decide
  have hnumber : u32leAt (b₀ :: b₁ :: b₂ :: b₃ :: rest) 0 = ofU32le b₀ b₁ b₂ b₃ := rfl
  rw [htray, hmagic, hnumber, ofU32le_inj]
  simp

/-! ## The steps of the parser -/

theorem post_readU32le {buf : Bytes} {off : UInt64} (hlen : buf.length < 2 ^ 62)
    (h : off.toNat + 4 ≤ buf.length) :
    Post (readU32le buf off) (· = u32leAt buf off.toNat) False := by
  have hbyte : ∀ k b, buf[k]? = some b → b = buf.getD k 0 := by
    intro k b hb
    rw [List.getD_eq_getElem?_getD, hb, Option.getD_some]
  have hone : (1 : UInt64).toNat = 1 ∧ (2 : UInt64).toNat = 2 ∧ (3 : UInt64).toNat = 3 :=
    ⟨rfl, rfl, rfl⟩
  apply (post_load (by omega)).step id
  intro b₀ hb₀
  apply (post_loadAt (k := 1) (by omega) (by omega)).step id
  intro b₁ hb₁
  apply (post_loadAt (k := 2) (by omega) (by omega)).step id
  intro b₂ hb₂
  apply (post_loadAt (k := 3) (by omega) (by omega)).step id
  intro b₃ hb₃
  apply Post.ok
  rw [hbyte _ _ hb₀, hbyte _ _ hb₁, hbyte _ _ hb₂, hbyte _ _ hb₃]
  rfl

/-- The four bytes of a pixel are inside the pixels. -/
theorem post_readPixel {bgra : Bytes} {i : UInt64} (hlen : bgra.length < 2 ^ 62)
    (h : 4 * i.toNat + 4 ≤ bgra.length) :
    Post (readPixel bgra i) (fun p ↦ (bgra.drop (4 * i.toNat)).take 4 = p.bgra) False := by
  have hnum : (0 : UInt64).toNat = 0 ∧ (1 : UInt64).toNat = 1 ∧ (2 : UInt64).toNat = 2 ∧
      (3 : UInt64).toNat = 3 := ⟨rfl, rfl, rfl, rfl⟩
  have hprod : i.toNat * (4 : UInt64).toNat = 4 * i.toNat := Nat.mul_comm _ _
  apply (post_mul (b := 4) (by omega)).step id
  intro k hk
  apply (post_loadAt (k := 0) (by omega) (by omega)).step id
  intro b hb
  apply (post_loadAt (k := 1) (by omega) (by omega)).step id
  intro g hg
  apply (post_loadAt (k := 2) (by omega) (by omega)).step id
  intro r hr
  apply (post_loadAt (k := 3) (by omega) (by omega)).step id
  intro a ha
  apply Post.ok
  rw [hk, hprod] at hb hg hr ha
  apply List.ext_getElem?
  rintro (_ | _ | _ | _ | j)
  · simpa [Pixel.bgra] using hb
  · simpa [Pixel.bgra] using hg
  · simpa [Pixel.bgra] using hr
  · simpa [Pixel.bgra] using ha
  · simp [Pixel.bgra]

/-- Pixels read one after the other are the bytes in front. -/
theorem take_eq_flatMap {bgra : Bytes} {pixels : List Pixel}
    (h : ∀ i p, pixels[i]? = some p → (bgra.drop (4 * i)).take 4 = p.bgra) :
    bgra.take (4 * pixels.length) = pixels.flatMap Pixel.bgra := by
  induction pixels generalizing bgra with
  | nil => simp
  | cons p pixels ih =>
      have hfirst : bgra.take 4 = p.bgra := by simpa using h 0 p rfl
      have hrest : (bgra.drop 4).take (4 * pixels.length) = pixels.flatMap Pixel.bgra := by
        apply ih
        intro i q hq
        have hnext := h (i + 1) q (by simpa using hq)
        rwa [Nat.mul_add, Nat.add_comm, Nat.mul_one, ← List.drop_drop] at hnext
      rw [List.length_cons, Nat.mul_add, Nat.mul_one, Nat.add_comm, List.take_add, hfirst, hrest,
        List.flatMap_cons]

/-- A size that is not negative is extended without a change. -/
theorem toNat_sizeOf {z : Int32} (h : 0 ≤ z.toInt) : z.toInt64.toUInt64.toNat = z.toInt.toNat := by
  have hnonneg : 0 ≤ z.toInt64 := by
    rw [Int64.le_iff_toInt_le, Int32.toInt_toInt64]
    exact h
  rw [Int64.toNat_toUInt64_of_le hnonneg]
  exact congrArg Int.toNat z.toInt_toInt64

theorem post_parseIconPixels {buf : Bytes} {width height : Int32} {pixelsStart : UInt64}
    (hlen : buf.length < 2 ^ 62) (hstart : pixelsStart.toNat ≤ buf.length)
    (hsmall : pixelsStart.toNat < 2 ^ 33) (out : TrayIcon) :
    Post (parseIconPixels buf (bufferSize buf) width height pixelsStart out)
      (fun icon ↦ (0 ≤ width.toInt ∧ 0 ≤ height.toInt ∧
          pixelsStart.toNat + 4 * (width.toInt.toNat * height.toInt.toNat) ≤ buf.length) ∧
        icon.width = width ∧ icon.height = height ∧ icon.tooltip = out.tooltip ∧
        ∃ pixels : List Pixel,
          (buf.drop pixelsStart.toNat).take (4 * (width.toInt.toNat * height.toInt.toNat)) =
            pixels.flatMap Pixel.bgra ∧
          icon.pixelsArgb = pixels.flatMap Pixel.argb)
      ¬ (0 ≤ width.toInt ∧ 0 ≤ height.toInt ∧
        pixelsStart.toNat + 4 * (width.toInt.toNat * height.toInt.toNat) ≤ buf.length) := by
  have hbuf := toNat_bufferSize hlen
  have hneg : ∀ z : Int32, z < 0 ↔ ¬ 0 ≤ z.toInt := by
    intro z
    rw [Int32.lt_iff_toInt_lt]
    exact (not_le).symm
  rw [parseIconPixels]
  split
  · rename_i hsize
    rw [hneg, hneg] at hsize
    exact Post.rejected fun h ↦ hsize.elim (· h.1) (· h.2.1)
  · rename_i hsize
    rw [hneg, hneg, not_or, not_not, not_not] at hsize
    obtain ⟨hwidth, hheight⟩ := hsize
    have hw : width.toInt.toNat < 2 ^ 31 := by have := width.toInt_lt; omega
    have hh : height.toInt.toNat < 2 ^ 31 := by have := height.toInt_lt; omega
    -- the largest product and sum stay below 2⁶⁴
    have hcount : width.toInt.toNat * height.toInt.toNat ≤ (2 ^ 31 - 1) * (2 ^ 31 - 1) :=
      Nat.mul_le_mul (by omega) (by omega)
    have hfour : (4 : UInt64).toNat = 4 := rfl
    apply (post_mul (by rw [toNat_sizeOf hwidth, toNat_sizeOf hheight]; omega)).step False.elim
    intro pixelCount hpixelCount
    rw [toNat_sizeOf hwidth, toNat_sizeOf hheight] at hpixelCount
    apply (post_mul (by rw [hfour]; omega)).step False.elim
    intro pixelBytes hpixelBytes
    rw [hfour] at hpixelBytes
    apply (post_add (by omega)).step False.elim
    intro pixelsEnd hpixelsEnd
    split
    · rename_i hend
      rw [gt_bufferSize_iff hlen] at hend
      exact Post.rejected fun h ↦ by omega
    · rename_i hend
      rw [gt_bufferSize_iff hlen] at hend
      have hrest : (buf.drop pixelsStart.toNat).length = buf.length - pixelsStart.toNat :=
        List.length_drop
      have hpixels := fun i (hi : i.toNat < pixelCount.toNat) ↦
        @post_readPixel (buf.drop pixelsStart.toNat) i (by omega) (by omega)
      apply (post_collect (Q := fun i p ↦
        ((buf.drop pixelsStart.toNat).drop (4 * i)).take 4 = p.bgra) hpixels).step False.elim
      rintro pixels ⟨hlength, hread⟩
      apply Post.ok
      refine ⟨⟨hwidth, hheight, by omega⟩, rfl, rfl, rfl, pixels, ?_, rfl⟩
      rw [← hpixelCount, ← hlength]
      exact take_eq_flatMap hread

/-- At most 255 bytes of the tooltip are kept. -/
theorem toNat_tooltipCopy (n : UInt64) : (if n ≥ 256 then 255 else n).toNat = min n.toNat 255 := by
  have hsize : (256 : UInt64).toNat = 256 ∧ (255 : UInt64).toNat = 255 := ⟨rfl, rfl⟩
  split
  all_goals
    rename_i hlong
    rw [ge_iff_le, UInt64.le_iff_toNat_le, hsize.1] at hlong
    omega

theorem post_storeTooltip {out : TrayIcon} {pos : UInt64} {bytes : Bytes}
    (h : pos.toNat + bytes.length ≤ 256) :
    Post (out.storeTooltip pos bytes)
      (fun icon ↦ icon.tooltip = overwrite out.tooltip pos.toNat bytes) False := by
  rw [TrayIcon.storeTooltip, if_pos h]
  exact rfl

/-- A text written at the start and the NUL after it. -/
theorem take_overwrite_terminated {tooltip text : Bytes} (h : text.length + 1 ≤ tooltip.length) :
    (overwrite (overwrite tooltip 0 text) text.length [0]).take (text.length + 1) =
      text ++ [0] := by
  apply List.ext_getElem?
  intro i
  rw [List.getElem?_take]
  split
  · rename_i hi
    have hin : i < tooltip.length := by omega
    rw [getElem?_overwrite, getElem?_overwrite, List.getElem?_eq_getElem hin]
    rcases Nat.lt_or_eq_of_le (Nat.le_of_lt_succ hi) with hlt | rfl
    · have hnot : ¬ text.length ≤ i := by omega
      simp [hnot, hlt, List.getElem?_append_left]
    · simp
  · rename_i hi
    rw [List.getElem?_eq_none (by simp; omega)]

/-- The size in the exact integers and in the naturals. -/
theorem fits_iff {buf : Bytes} (hw : 0 ≤ iconWidth buf) (hh : 0 ≤ iconHeight buf) :
    36 + iconTooltipLen buf + 4 * iconWidth buf * iconHeight buf ≤ buf.length ↔
      36 + iconTooltipLen buf + 4 * ((iconWidth buf).toNat * (iconHeight buf).toNat) ≤
        buf.length := by
  have harea : ((iconWidth buf).toNat * (iconHeight buf).toNat : ℤ) =
      iconWidth buf * iconHeight buf := by
    rw [Int.toNat_of_nonneg hw, Int.toNat_of_nonneg hh]
  rw [mul_assoc, ← harea]
  norm_cast

/-- The parser behind the tooltip. -/
theorem post_parseIconSize {buf : Bytes} (hlen : buf.length < 2 ^ 62) (hheader : 36 ≤ buf.length)
    (hmagic : buf.take 4 = bytesOf "TRAY") {pixelsStart : UInt64}
    (hpixelsStart : pixelsStart.toNat = 36 + iconTooltipLen buf)
    (hend : pixelsStart.toNat ≤ buf.length) {out : TrayIcon}
    (htooltip : out.tooltip.take (min (iconTooltipLen buf) 255 + 1) =
      (buf.drop 36).take (min (iconTooltipLen buf) 255) ++ [0]) :
    Post (parseIconPixels buf (bufferSize buf) (u32leAt buf 24).toInt32
        (u32leAt buf 28).toInt32 pixelsStart out)
      (fun icon ↦ IsIconFile buf ∧ IconOf buf icon) ¬ IsIconFile buf := by
  have hbound : iconTooltipLen buf < 2 ^ 32 := UInt32.toNat_lt _
  have hwidth : (u32leAt buf 24).toInt32.toInt = iconWidth buf := rfl
  have hheight : (u32leAt buf 28).toInt32.toInt = iconHeight buf := rfl
  apply (post_parseIconPixels hlen hend (by omega) out).mono
  · rintro icon ⟨⟨hw, hh, hfits⟩, hiconWidth, hiconHeight, hsame, hpixels⟩
    rw [hpixelsStart, hwidth, hheight] at hfits hpixels
    refine ⟨⟨hheader, hmagic, hw, hh, (fits_iff hw hh).mpr hfits⟩, ⟨?_, ?_, ?_, hpixels⟩⟩
    · rw [hiconWidth, hwidth]
    · rw [hiconHeight, hheight]
    · rw [hsame, htooltip]
  · intro hnot h
    apply hnot
    rw [hpixelsStart, hwidth, hheight]
    exact ⟨h.width_nonneg, h.height_nonneg, (fits_iff h.width_nonneg h.height_nonneg).mp h.fits⟩

/-- The parser neither wraps a size nor reads outside the file, and it accepts
exactly the icon files. -/
theorem post_wpTrayParseIconFile {buf : Bytes} (hlen : buf.length < 2 ^ 62) (out : TrayIcon) :
    Post (wpTrayParseIconFile buf out) (fun icon ↦ IsIconFile buf ∧ IconOf buf icon)
      ¬ IsIconFile buf := by
  have hbuf := toNat_bufferSize hlen
  have hstart : (36 : UInt64).toNat = 36 := rfl
  rw [wpTrayParseIconFile]
  split
  · rename_i hshort
    rw [UInt64.lt_iff_toNat_lt, hbuf, hstart] at hshort
    exact Post.rejected fun h ↦ absurd h.header (by omega)
  rename_i hshort
  rw [UInt64.lt_iff_toNat_lt, hbuf, hstart, not_lt] at hshort
  have hfield : ∀ off : UInt64, off.toNat ≤ 32 →
      Post (readU32le buf off) (· = u32leAt buf off.toNat) False :=
    fun off hoff ↦ post_readU32le hlen (by omega)
  apply (hfield 0 (by decide)).step False.elim
  rintro magic rfl
  split
  · rename_i hmagic
    exact Post.rejected fun h ↦ hmagic ((take_four_eq_iff hshort).mp h.magic)
  rename_i hmagic
  have htray := (take_four_eq_iff hshort).mpr (not_not.mp hmagic)
  apply (hfield 24 (by decide)).step False.elim
  rintro width rfl
  apply (hfield 28 (by decide)).step False.elim
  rintro height rfl
  apply (hfield 32 (by decide)).step False.elim
  intro tooltipLen htooltipLen
  have htlen : tooltipLen.toUInt64.toNat = iconTooltipLen buf := by
    rw [UInt32.toNat_toUInt64, htooltipLen]
    rfl
  have hbound : iconTooltipLen buf < 2 ^ 32 := UInt32.toNat_lt _
  apply (post_add (by omega)).step False.elim
  intro pixelsStart hpixelsStart
  rw [hstart, htlen] at hpixelsStart
  split
  · rename_i hend
    rw [gt_bufferSize_iff hlen] at hend
    refine Post.rejected fun h ↦ ?_
    have hfits := (fits_iff h.width_nonneg h.height_nonneg).mp h.fits
    omega
  rename_i hend
  rw [gt_bufferSize_iff hlen, gt_iff_lt, not_lt] at hend
  have hcopy := toNat_tooltipCopy tooltipLen.toUInt64
  rw [htlen] at hcopy
  apply (post_copyOut (by rw [hcopy, hstart]; omega)).step False.elim
  intro text htext
  rw [hcopy, hstart] at htext
  have htextLength : text.length = min (iconTooltipLen buf) 255 := by
    rw [htext, List.length_take, List.length_drop]
    omega
  apply (@post_storeTooltip out 0 text (by simp; omega)).step False.elim
  intro out₁ hout₁
  apply (post_storeTooltip (by rw [hcopy, List.length_singleton]; omega)).step False.elim
  intro out₂ hout₂
  rw [hcopy, ← htextLength, hout₁] at hout₂
  apply post_parseIconSize hlen hshort htray hpixelsStart hend
  have hroom := out.tooltip_size
  rw [hout₂, ← htextLength]
  exact (take_overwrite_terminated (by omega)).trans (by rw [htextLength, htext])

/-- The parser on arbitrary bytes. -/
theorem wpTrayParseIconFile_accepts_iff {buf : Bytes} (hlen : buf.length < 2 ^ 62)
    (out : TrayIcon) :
    ((∃ icon, wpTrayParseIconFile buf out = .ok icon) ↔
      36 ≤ buf.length ∧ buf.take 4 = bytesOf "TRAY" ∧ 0 ≤ iconWidth buf ∧ 0 ≤ iconHeight buf ∧
        36 + iconTooltipLen buf + 4 * iconWidth buf * iconHeight buf ≤ buf.length) ∧
    wpTrayParseIconFile buf out ≠ .error .wraps ∧
    wpTrayParseIconFile buf out ≠ .error .outOfBounds := by
  have hpost := post_wpTrayParseIconFile hlen out
  refine ⟨⟨?_, ?_⟩, hpost.ne_wraps, hpost.ne_outOfBounds⟩
  · rintro ⟨icon, hicon⟩
    obtain ⟨h, -⟩ := hpost.of_eq_ok hicon
    exact ⟨h.header, h.magic, h.width_nonneg, h.height_nonneg, h.fits⟩
  · rintro ⟨hheader, hmagic, hw, hh, hfits⟩
    obtain ⟨icon, hicon, -⟩ := hpost.exists_ok (not_not.mpr ⟨hheader, hmagic, hw, hh, hfits⟩)
    exact ⟨icon, hicon⟩

def emptyIcon : TrayIcon where
  width := 0
  height := 0
  tooltip := 0 :: List.replicate 255 0
  tooltip_size := by rw [List.length_cons, List.length_replicate]
  pixelsArgb := []

/-- An icon of one pixel without a tooltip. -/
theorem wpTrayParseIconFile_onePixel :
    ∃ icon, wpTrayParseIconFile
      (bytesOf "TRAY" ++ List.replicate 20 0 ++ u32le 1 ++ u32le 1 ++ u32le 0 ++ [1, 2, 3, 4])
      emptyIcon = .ok icon :=
  (wpTrayParseIconFile_accepts_iff (by decide) emptyIcon).1.mpr (by decide)

end Wallpiper.Tray
