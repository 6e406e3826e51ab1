import Wallpiper.Capture.WireFormat

/-!
# One header, three decoders

A header consists of nonempty fields without blanks, so all three receivers
recover its fields, whatever they trim and however they split.  The numbers
in the fields are then read back over their full ranges.
-/

namespace Wallpiper.Capture

open Foundations.CText

/-! ## Trimming and splitting a header -/

/-- Fields that no receiver cuts: nonempty, without blanks and NULs. -/
def PlainField (f : Bytes) : Prop := f ≠ [] ∧ ∀ b ∈ f, isSpace b = false ∧ b ≠ 0

theorem plainField_of_numeralBytes {f : Bytes} (hne : f ≠ [])
    (h : ∀ b ∈ f, isNumeralByte b = true) : PlainField f := by
  refine ⟨hne, fun b hb ↦ ?_⟩
  have hnum := h b hb
  constructor
  · by_contra hspace
    rw [Bool.not_eq_false] at hspace
    simp only [isSpace, isNumeralByte, Bool.or_eq_true, beq_iff_eq, Bool.and_eq_true,
      decide_eq_true_eq, UInt8.le_iff_toNat_le] at hspace hnum
    rcases hspace with rfl | hspace
    · simp at hnum
    · rcases hnum with (rfl | hnum) | hnum
      · simp at hspace
      · simp at hnum hspace
        omega
      · simp at hnum hspace
        omega
  · rintro rfl
    exact absurd hnum (by decide)

theorem plainField_decimal (n : ℕ) : PlainField (decimal n) :=
  plainField_of_numeralBytes (numeral_ne_nil 10 n)
    fun _ hb ↦ isNumeralByte_of_mem_numeral (by omega) (by omega) hb

theorem plainField_decimalInt (z : ℤ) : PlainField (decimalInt z) :=
  plainField_of_numeralBytes (decimalInt_ne_nil z)
    fun _ hb ↦ isNumeralByte_of_mem_decimalInt hb

theorem plainField_tag {s : String}
    (h : bytesOf s ≠ [] ∧ ∀ b ∈ bytesOf s, isSpace b = false ∧ b ≠ 0) :
    PlainField (bytesOf s) := h

section Fields

variable {fields : List Bytes} (hne : fields ≠ []) (hfields : ∀ f ∈ fields, PlainField f)

include hfields in
/-- The only blanks in a joined header are its separators. -/
theorem mem_intercalate_plain {b : UInt8} (hb : b ∈ [(32 : UInt8)].intercalate fields) :
    b = 32 ∨ isSpace b = false ∧ b ≠ 0 := by
  induction fields with
  | nil => simp [List.intercalate] at hb
  | cons f fs ih =>
      have hf := hfields f List.mem_cons_self
      have hfs := fun g hg ↦ hfields g (List.mem_cons_of_mem f hg)
      cases fs with
      | nil =>
          have hb : b ∈ f := by simpa [List.intercalate] using hb
          exact Or.inr (hf.2 b hb)
      | cons g gs =>
          have hjoin : [(32 : UInt8)].intercalate (f :: g :: gs) =
              f ++ 32 :: [(32 : UInt8)].intercalate (g :: gs) := by simp [List.intercalate]
          rw [hjoin, List.mem_append, List.mem_cons] at hb
          rcases hb with hb | hb | hb
          · exact Or.inr (hf.2 b hb)
          · exact Or.inl hb
          · exact ih hfs hb

include hne hfields in
theorem head_intercalate_plain :
    ∃ b rest, [(32 : UInt8)].intercalate fields = b :: rest ∧ isSpace b = false := by
  cases fields with
  | nil => exact absurd rfl hne
  | cons f fs =>
      obtain ⟨hf, hplain⟩ := hfields f List.mem_cons_self
      cases f with
      | nil => exact absurd rfl hf
      | cons b bs =>
          refine ⟨b, ?_⟩
          cases fs with
          | nil => exact ⟨bs, by simp [List.intercalate], (hplain b List.mem_cons_self).1⟩
          | cons g gs =>
              exact ⟨bs ++ 32 :: [(32 : UInt8)].intercalate (g :: gs),
                by simp [List.intercalate], (hplain b List.mem_cons_self).1⟩

include hne hfields in
theorem getLast_intercalate_plain :
    ∃ init b, [(32 : UInt8)].intercalate fields = init ++ [b] ∧ isSpace b = false := by
  induction fields with
  | nil => exact absurd rfl hne
  | cons f fs ih =>
      cases fs with
      | nil =>
          obtain ⟨hf, hplain⟩ := hfields f List.mem_cons_self
          refine ⟨f.dropLast, f.getLast hf, ?_, (hplain _ (List.getLast_mem hf)).1⟩
          rw [List.dropLast_append_getLast hf]
          simp [List.intercalate]
      | cons g gs =>
          obtain ⟨init, b, heq, hb⟩ := ih (by simp)
            fun h hh ↦ hfields h (List.mem_cons_of_mem f hh)
          refine ⟨f ++ 32 :: init, b, ?_, hb⟩
          have hjoin : [(32 : UInt8)].intercalate (f :: g :: gs) =
              f ++ 32 :: [(32 : UInt8)].intercalate (g :: gs) := by simp [List.intercalate]
          rw [hjoin, heq]
          simp

include hne hfields in
/-- Trimming at the end removes exactly the newline. -/
theorem rdropWhile_headerLine {p : UInt8 → Bool} (hnewline : p 10 = true)
    (hp : ∀ b, isSpace b = false → p b = false) :
    (headerLine fields).rdropWhile p = [32].intercalate fields := by
  obtain ⟨init, b, heq, hb⟩ := getLast_intercalate_plain hne hfields
  rw [headerLine, List.rdropWhile_concat_pos _ _ _ hnewline, heq,
    List.rdropWhile_concat_neg _ _ _ (by simp [hp b hb])]

include hne hfields in
theorem dropWhile_headerFields {p : UInt8 → Bool} (hp : ∀ b, isSpace b = false → p b = false)
    (tail : Bytes) :
    ([32].intercalate fields ++ tail).dropWhile p = [32].intercalate fields ++ tail := by
  obtain ⟨b, rest, heq, hb⟩ := head_intercalate_plain hne hfields
  rw [heq, List.cons_append, List.dropWhile_cons_of_neg (by simp [hp b hb])]

include hfields in
theorem nonul_headerFields : ∀ b ∈ [(32 : UInt8)].intercalate fields, b ≠ 0 := by
  intro b hb
  rcases mem_intercalate_plain hfields hb with rfl | hb
  · decide
  · exact hb.2

include hne hfields in
theorem tokens_headerFields {delim : UInt8 → Bool} (hblank : delim 32 = true)
    (hdelim : ∀ b, isSpace b = false → delim b = false) :
    tokens delim ([32].intercalate fields) = fields :=
  tokens_intercalate hblank hne (fun f hf ↦ (hfields f hf).1)
    fun f hf b hb ↦ hdelim b ((hfields f hf).2 b hb).1

/-- Every set of blanks that the receivers use consists of `isspace` bytes. -/
theorem eq_false_of_not_space {p : UInt8 → Bool} (hp : ∀ b, p b = true → isSpace b = true) :
    ∀ b, isSpace b = false → p b = false := by
  intro b hb
  by_contra h
  rw [Bool.not_eq_false] at h
  rw [hp b h] at hb
  exact absurd hb (by simp)

variable (hlen : (headerLine fields).length ≤ 255)

include hne hfields hlen in
theorem tokens_received :
    tokens (fun c ↦ c == 32 || c == 9) (snprintf 256 (cString
      (((headerLine fields).take 256).rdropWhile fun c ↦ c == 10 || c == 13 || c == 32))) =
      fields := by
  have htrim := rdropWhile_headerLine hne hfields (p := fun c ↦ c == 10 || c == 13 || c == 32)
    (by decide) (eq_false_of_not_space fun b hb ↦ by
      simp only [Bool.or_eq_true, beq_iff_eq] at hb
      rcases hb with (rfl | rfl) | rfl
      all_goals decide)
  rw [headerLine, List.length_append, List.length_singleton] at hlen
  rw [List.take_of_length_le (by rw [headerLine, List.length_append, List.length_singleton]; omega),
    htrim, cString_of_nonul (nonul_headerFields hfields), snprintf,
    List.take_of_length_le (by omega)]
  apply tokens_headerFields hne hfields (by decide)
  apply eq_false_of_not_space
  intro b hb
  simp only [Bool.or_eq_true, beq_iff_eq] at hb
  rcases hb with rfl | rfl
  all_goals decide

include hne hfields hlen in
theorem tokens_kde : tokens isSpace
    ((((headerLine fields).take 256).rdropWhile isSpace).dropWhile isSpace) = fields := by
  have htrim := rdropWhile_headerLine hne hfields (p := isSpace) (by decide) (fun _ hb ↦ hb)
  have hstart := dropWhile_headerFields hne hfields (p := isSpace) (fun _ hb ↦ hb) []
  rw [List.append_nil] at hstart
  rw [List.take_of_length_le (by omega), htrim, hstart]
  exact tokens_headerFields hne hfields (by decide) fun _ hb ↦ hb

include hne hfields hlen in
theorem gStrsplit_received :
    Gnome.gStrsplit (Gnome.gStrstrip (cString ((headerLine fields).take 255))) = fields := by
  have hspace : ∀ b, isSpace b = false → Gnome.gAsciiIsspace b = false := by
    apply eq_false_of_not_space
    intro b hb
    simp only [Gnome.gAsciiIsspace, Bool.or_eq_true, beq_iff_eq] at hb
    rcases hb with (((rfl | rfl) | rfl) | rfl) | rfl
    all_goals decide
  have hnonul : ∀ b ∈ headerLine fields, b ≠ 0 := by
    intro b hb
    rcases List.mem_append.mp hb with hb | hb
    · exact nonul_headerFields hfields b hb
    · obtain rfl : b = 10 := by simpa using hb
      decide
  have htrim := rdropWhile_headerLine hne hfields (p := Gnome.gAsciiIsspace) (by decide) hspace
  have hstart : (headerLine fields).dropWhile Gnome.gAsciiIsspace = headerLine fields :=
    dropWhile_headerFields hne hfields hspace [10]
  obtain ⟨b, rest, heq, _⟩ := head_intercalate_plain hne hfields
  rw [List.take_of_length_le hlen, cString_of_nonul hnonul, Gnome.gStrstrip, hstart, htrim,
    Gnome.gStrsplit, if_neg (by rw [heq]; simp)]
  apply splitOnP_intercalate (by decide) hne
  intro f hf c hc
  have hplain := ((hfields f hf).2 c hc).1
  by_contra h
  rw [Bool.not_eq_false, beq_iff_eq] at h
  rw [h] at hplain
  exact absurd hplain (by decide)

end Fields

/-! ## Reading the numbers -/

theorem readU32_decimal (n : UInt32) : readU32 (decimal n.toNat) = n := by
  rw [readU32, strtoul_decimal (n.toNat_lt.trans (by omega)), UInt32.ofNat_toNat]

theorem readU64_decimal (n : UInt64) : readU64 (decimal n.toNat) = n := by
  rw [readU64, strtoul_decimal n.toNat_lt, UInt64.ofNat_toNat]

theorem readI32_decimalInt (z : Int32) : readI32 (decimalInt z.toInt) = z := by
  obtain ⟨hlow, hhigh⟩ := int32_bounds z
  rw [readI32, strtol_decimalInt (by omega) (by omega), Int32.ofInt_toInt]

theorem stoul_decimal {n : ℕ} (hn : n < 2 ^ 64) : Kde.stoul (decimal n) = some n := by
  have hscan : scanNumber 10 (decimal n) = some (false, n) :=
    scanNumber_numeral (by omega) (by omega) n
  simp only [Kde.stoul, hscan, if_pos hn, strtoul_decimal hn]

theorem stou32_decimal (n : UInt32) : Kde.stou32 (decimal n.toNat) = some n := by
  rw [Kde.stou32, stoul_decimal (n.toNat_lt.trans (by omega)), Option.map_some,
    UInt32.ofNat_toNat]

theorem stol_decimalInt (z : Int32) : Kde.stol (decimalInt z.toInt) = some z.toInt := by
  obtain ⟨hlow, hhigh⟩ := int32_bounds z
  have hsmall : z.toInt.natAbs < 2 ^ 63 := by omega
  simp only [Kde.stol, scanNumber_decimalInt, if_pos (Or.inl hsmall),
    strtol_decimalInt (show -2 ^ 63 ≤ z.toInt by omega) (show z.toInt < 2 ^ 63 by omega)]

/-! ## The fields and lengths of the two headers -/

theorem bufFields_plain (slot width height formatRaw stride : UInt32) (modifier : UInt64)
    (hasGeometry : Bool) (geomX geomY : Int32) :
    ∀ f ∈ bufFields slot width height formatRaw stride modifier hasGeometry geomX geomY,
      PlainField f := by
  intro f hf
  rcases List.mem_append.mp hf with hf | hf
  · simp only [List.mem_cons, List.not_mem_nil, or_false] at hf
    rcases hf with rfl | rfl | rfl | rfl | rfl | rfl | rfl
    · exact plainField_tag (by decide +kernel)
    all_goals exact plainField_decimal _
  · cases hasGeometry with
    | false => simp at hf
    | true =>
        simp only [if_true, List.mem_cons, List.not_mem_nil, or_false] at hf
        rcases hf with rfl | rfl
        all_goals exact plainField_decimalInt _

theorem frameFields_plain (slot : UInt32) : ∀ f ∈ frameFields slot, PlainField f := by
  intro f hf
  simp only [frameFields, List.mem_cons, List.not_mem_nil, or_false] at hf
  rcases hf with rfl | rfl
  · exact plainField_tag (by decide +kernel)
  · exact plainField_decimal _

/-- The longest announcement has 104 bytes. -/
theorem bufHeader_length_le (slot width height formatRaw stride : UInt32) (modifier : UInt64)
    (hasGeometry : Bool) (geomX geomY : Int32) :
    (headerLine (bufFields slot width height formatRaw stride modifier hasGeometry
      geomX geomY)).length ≤ 104 := by
  have h₁ := decimal_u32_length_le slot
  have h₂ := decimal_u32_length_le width
  have h₃ := decimal_u32_length_le height
  have h₄ := decimal_u32_length_le formatRaw
  have h₅ := decimal_u32_length_le stride
  have h₆ := decimal_u64_length_le modifier
  have h₇ := decimalInt_i32_length_le geomX
  have h₈ := decimalInt_i32_length_le geomY
  have htag : (bytesOf "BUF").length = 3 := rfl
  cases hasGeometry with
  | false =>
      simp [headerLine, bufFields, List.intercalate, htag]
      omega
  | true =>
      simp [headerLine, bufFields, List.intercalate, htag]
      omega

theorem frameHeader_length_le (slot : UInt32) : (headerLine (frameFields slot)).length ≤ 17 := by
  have h₁ := decimal_u32_length_le slot
  have htag : (bytesOf "FRAME").length = 5 := rfl
  simp [headerLine, frameFields, List.intercalate, htag]
  omega

/-! ## Round trips -/

/-- An optional descriptor as the `int` that the functions pass around. -/
def fdOf (fd : Option ℕ) : ℤ := (fd.map Nat.cast).getD (-1)

theorem openFds_buf (imageFd : ℕ) (syncFd : Option ℕ) :
    openFds [(imageFd : ℤ), fdOf syncFd] = (imageFd : ℤ) :: syncFd.toList.map Nat.cast := by
  cases syncFd with
  | none => simp [openFds, fdOf]
  | some fd => simp [openFds, fdOf]

theorem openFds_frame (syncFd : Option ℕ) :
    openFds [fdOf syncFd] = syncFd.toList.map Nat.cast := by
  cases syncFd with
  | none => simp [openFds, fdOf]
  | some fd => simp [openFds, fdOf]

theorem fds_take (syncFd : Option ℕ) (n : ℕ) :
    (syncFd.toList.map (Nat.cast : ℕ → ℤ)).take (n + 1) = syncFd.toList.map Nat.cast := by
  cases syncFd with
  | none => rfl
  | some fd => simp

theorem getD_map_eq_fdOf (syncFd : Option ℕ) :
    (syncFd.map (Nat.cast : ℕ → ℤ)).getD (-1) = fdOf syncFd := rfl

section Buf

variable (slot width height formatRaw stride : UInt32) (modifier : UInt64) (hasGeometry : Bool)
  (geomX geomY : Int32) (imageFd : ℕ) (syncFd : Option ℕ)

theorem bufHeader_eq :
    (wpCaptureLinkSendBuf slot width height formatRaw stride modifier hasGeometry geomX geomY
      imageFd (fdOf syncFd)).header =
      headerLine (bufFields slot width height formatRaw stride modifier hasGeometry
        geomX geomY) := by
  have hlen := bufHeader_length_le slot width height formatRaw stride modifier hasGeometry
    geomX geomY
  rw [wpCaptureLinkSendBuf, snprintf, List.take_of_length_le (by omega)]

theorem bufFds_eq :
    (wpCaptureLinkSendBuf slot width height formatRaw stride modifier hasGeometry geomX geomY
      imageFd (fdOf syncFd)).fds = (imageFd : ℤ) :: syncFd.toList.map Nat.cast :=
  openFds_buf imageFd syncFd

theorem wpRecvCaptureEvent_buf :
    wpRecvCaptureEvent (wpCaptureLinkSendBuf slot width height formatRaw stride modifier
      hasGeometry geomX geomY imageFd (fdOf syncFd)) =
      some ⟨.buf, slot, width, height, stride, modifier, hasGeometry,
        if hasGeometry then geomX else 0, if hasGeometry then geomY else 0,
        (imageFd : ℤ) :: syncFd.toList.map Nat.cast⟩ := by
  have hlen := bufHeader_length_le slot width height formatRaw stride modifier hasGeometry
    geomX geomY
  have htokens := tokens_received (by simp [bufFields]) (bufFields_plain slot width height
    formatRaw stride modifier hasGeometry geomX geomY) (by omega)
  simp only [wpRecvCaptureEvent, recvMsg, bufHeader_eq, bufFds_eq, parseEvent, htokens]
  cases hasGeometry with
  | false =>
      simp [bufFields, wpCaptureMaxFds, CaptureEvent.zero, readU32_decimal, readU64_decimal,
        List.take_succ_cons, fds_take]
  | true =>
      simp [bufFields, wpCaptureMaxFds, CaptureEvent.zero, readU32_decimal, readU64_decimal,
        readI32_decimalInt, List.take_succ_cons, fds_take]

theorem kde_receive_buf :
    Kde.receive (wpCaptureLinkSendBuf slot width height formatRaw stride modifier
      hasGeometry geomX geomY imageFd (fdOf syncFd)) =
      some (.buf ⟨slot, width, height, stride, modifier, hasGeometry,
        if hasGeometry then geomX else 0, if hasGeometry then geomY else 0,
        imageFd, fdOf syncFd⟩) := by
  have hlen := bufHeader_length_le slot width height formatRaw stride modifier hasGeometry
    geomX geomY
  have htokens := tokens_kde (by simp [bufFields]) (bufFields_plain slot width height
    formatRaw stride modifier hasGeometry geomX geomY) (by omega)
  simp only [Kde.receive, bufHeader_eq, bufFds_eq, Kde.parseEvent, htokens]
  cases hasGeometry with
  | false =>
      simp [bufFields, stou32_decimal, stoul_decimal modifier.toNat_lt, getD_map_eq_fdOf]
  | true =>
      simp [bufFields, stou32_decimal, stoul_decimal modifier.toNat_lt, stol_decimalInt,
        getD_map_eq_fdOf]

theorem gnome_receive_buf :
    Gnome.receive (wpCaptureLinkSendBuf slot width height formatRaw stride modifier
      hasGeometry geomX geomY imageFd (fdOf syncFd)) =
      some (.buf ⟨slot, width, height, stride, modifier, hasGeometry,
        if hasGeometry then geomX else 0, if hasGeometry then geomY else 0,
        imageFd, fdOf syncFd⟩) := by
  have hlen := bufHeader_length_le slot width height formatRaw stride modifier hasGeometry
    geomX geomY
  have hparts := gStrsplit_received (by simp [bufFields]) (bufFields_plain slot width height
    formatRaw stride modifier hasGeometry geomX geomY) (by omega)
  simp only [Gnome.receive, recvMsg, bufHeader_eq, bufFds_eq, hparts]
  cases hasGeometry with
  | false =>
      simp [bufFields, Gnome.readBufMessage, readU32_decimal, readU64_decimal,
        List.take_succ_cons, fds_take, getD_map_eq_fdOf]
  | true =>
      simp [bufFields, Gnome.readBufMessage, readU32_decimal, readU64_decimal,
        readI32_decimalInt, List.take_succ_cons, fds_take, getD_map_eq_fdOf]

end Buf

section Frame

variable (slot : UInt32) (syncFd : Option ℕ)

theorem frameHeader_eq :
    (wpCaptureLinkSendFrame slot (fdOf syncFd)).header = headerLine (frameFields slot) := by
  have hlen := frameHeader_length_le slot
  rw [wpCaptureLinkSendFrame, snprintf, List.take_of_length_le (by omega)]

theorem frameFds_eq :
    (wpCaptureLinkSendFrame slot (fdOf syncFd)).fds = syncFd.toList.map Nat.cast :=
  openFds_frame syncFd

theorem wpRecvCaptureEvent_frame :
    wpRecvCaptureEvent (wpCaptureLinkSendFrame slot (fdOf syncFd)) =
      some { CaptureEvent.zero .frame with
        slot := slot, fds := syncFd.toList.map Nat.cast } := by
  have hlen := frameHeader_length_le slot
  have htokens := tokens_received (by simp [frameFields]) (frameFields_plain slot) (by omega)
  have htag : bytesOf "FRAME" ≠ bytesOf "BUF" := by decide
  simp only [wpRecvCaptureEvent, recvMsg, frameHeader_eq, frameFds_eq, parseEvent, htokens]
  simp [frameFields, htag, readU32_decimal, wpCaptureMaxFds, fds_take]

theorem kde_receive_frame :
    Kde.receive (wpCaptureLinkSendFrame slot (fdOf syncFd)) =
      some (.frame slot (fdOf syncFd)) := by
  have hlen := frameHeader_length_le slot
  have htokens := tokens_kde (by simp [frameFields]) (frameFields_plain slot) (by omega)
  have htag : bytesOf "FRAME" ≠ bytesOf "BUF" := by decide
  simp only [Kde.receive, frameHeader_eq, frameFds_eq, Kde.parseEvent, htokens]
  simp [frameFields, htag, stou32_decimal, getD_map_eq_fdOf]

theorem gnome_receive_frame :
    Gnome.receive (wpCaptureLinkSendFrame slot (fdOf syncFd)) =
      some (.frame slot (fdOf syncFd)) := by
  have hlen := frameHeader_length_le slot
  have hparts := gStrsplit_received (by simp [frameFields]) (frameFields_plain slot) (by omega)
  have htag : bytesOf "FRAME" ≠ bytesOf "BUF" := by decide
  simp only [Gnome.receive, recvMsg, frameHeader_eq, frameFds_eq, hparts]
  simp [frameFields, htag, Gnome.readFrameMessage, readU32_decimal, fds_take, getD_map_eq_fdOf]

end Frame

/-- Every announcement and every frame message is sent untruncated and read
back by each of the three receivers. -/
theorem capture_wire_round_trip (slot width height formatRaw stride : UInt32)
    (modifier : UInt64) (hasGeometry : Bool) (geomX geomY : Int32) (imageFd : ℕ)
    (syncFd : Option ℕ) :
    ((wpCaptureLinkSendBuf slot width height formatRaw stride modifier hasGeometry geomX geomY
        imageFd (fdOf syncFd)).header =
        headerLine (bufFields slot width height formatRaw stride modifier hasGeometry
          geomX geomY) ∧
      wpRecvCaptureEvent (wpCaptureLinkSendBuf slot width height formatRaw stride modifier
          hasGeometry geomX geomY imageFd (fdOf syncFd)) =
        some ⟨.buf, slot, width, height, stride, modifier, hasGeometry,
          if hasGeometry then geomX else 0, if hasGeometry then geomY else 0,
          (imageFd : ℤ) :: syncFd.toList.map Nat.cast⟩ ∧
      Kde.receive (wpCaptureLinkSendBuf slot width height formatRaw stride modifier
          hasGeometry geomX geomY imageFd (fdOf syncFd)) =
        some (.buf ⟨slot, width, height, stride, modifier, hasGeometry,
          if hasGeometry then geomX else 0, if hasGeometry then geomY else 0,
          imageFd, fdOf syncFd⟩) ∧
      Gnome.receive (wpCaptureLinkSendBuf slot width height formatRaw stride modifier
          hasGeometry geomX geomY imageFd (fdOf syncFd)) =
        some (.buf ⟨slot, width, height, stride, modifier, hasGeometry,
          if hasGeometry then geomX else 0, if hasGeometry then geomY else 0,
          imageFd, fdOf syncFd⟩)) ∧
    (wpCaptureLinkSendFrame slot (fdOf syncFd)).header = headerLine (frameFields slot) ∧
      wpRecvCaptureEvent (wpCaptureLinkSendFrame slot (fdOf syncFd)) =
        some ⟨.frame, slot, 0, 0, 0, 0, false, 0, 0, syncFd.toList.map Nat.cast⟩ ∧
      Kde.receive (wpCaptureLinkSendFrame slot (fdOf syncFd)) =
        some (.frame slot (fdOf syncFd)) ∧
      Gnome.receive (wpCaptureLinkSendFrame slot (fdOf syncFd)) =
        some (.frame slot (fdOf syncFd)) := by
  refine ⟨⟨?_, ?_, ?_, ?_⟩, ?_, ?_, ?_, ?_⟩
  · exact bufHeader_eq ..
  · exact wpRecvCaptureEvent_buf ..
  · exact kde_receive_buf ..
  · exact gnome_receive_buf ..
  · exact frameHeader_eq ..
  · exact wpRecvCaptureEvent_frame ..
  · exact kde_receive_frame ..
  · exact gnome_receive_frame ..

end Wallpiper.Capture
