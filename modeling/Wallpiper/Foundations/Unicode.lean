import Wallpiper.Foundations.BigEndian

/-!
# Texts as UTF-8 and UTF-16BE

A text is a list of Unicode scalar values.  Its UTF-8 bytes determine it, and
operations that look at ASCII characters only act on the bytes as they do on
the text.
-/

namespace Foundations.Unicode

def utf8 (s : List Char) : List UInt8 := s.flatMap String.utf8EncodeChar

/-- One unit, or a pair of surrogates above 0xFFFF. -/
def utf16beChar (c : Char) : List UInt8 :=
  if c.toNat ≤ 0xFFFF then u16be (UInt16.ofNat c.toNat)
  else
    u16be (UInt16.ofNat (0xD800 + (c.toNat - 0x10000) / 0x400)) ++
      u16be (UInt16.ofNat (0xDC00 + (c.toNat - 0x10000) % 0x400))

def utf16be (s : List Char) : List UInt8 := s.flatMap utf16beChar

@[simp] theorem utf8_nil : utf8 [] = [] := rfl

@[simp] theorem utf8_cons (c : Char) (s : List Char) :
    utf8 (c :: s) = String.utf8EncodeChar c ++ utf8 s :=
  List.flatMap_cons

@[simp] theorem utf8_append (s t : List Char) : utf8 (s ++ t) = utf8 s ++ utf8 t :=
  List.flatMap_append

@[simp] theorem utf16be_nil : utf16be [] = [] := rfl

@[simp] theorem utf16be_cons (c : Char) (s : List Char) :
    utf16be (c :: s) = utf16beChar c ++ utf16be s :=
  List.flatMap_cons

/-- The bytes determine the text. -/
theorem utf8_inj {s t : List Char} (h : utf8 s = utf8 t) : s = t := by
  have henc : s.utf8Encode = t.utf8Encode := congrArg List.toByteArray h
  have hstr : String.ofList s = String.ofList t := by
    rw [← String.toByteArray_inj, String.toByteArray_ofList, String.toByteArray_ofList, henc]
  exact String.ofList_injective hstr

/-! ## ASCII characters -/

theorem utf8EncodeChar_of_ascii {c : Char} (h : c.toNat < 0x80) :
    String.utf8EncodeChar c = [UInt8.ofNat c.toNat] :=
  if_pos (show c.val.toNat ≤ 0x7f from Nat.le_of_lt_succ h)

/-- All bytes of any other character have their top bit set. -/
theorem le_of_mem_utf8EncodeChar {c : Char} (h : 0x80 ≤ c.toNat) {b : UInt8}
    (hb : b ∈ String.utf8EncodeChar c) : 0x80 ≤ b.toNat := by
  have hbyte : ∀ k, 0x80 ≤ k → k < 256 → 0x80 ≤ (UInt8.ofNat k).toNat := by
    intro k hk hlt
    rw [UInt8.toNat_ofNat', Nat.mod_eq_of_lt hlt]
    exact hk
  have hascii : ¬ c.val.toNat ≤ 0x7f := Nat.not_le.mpr h
  simp only [String.utf8EncodeChar, if_neg hascii] at hb
  split at hb
  · simp only [List.mem_cons, List.not_mem_nil, or_false] at hb
    rcases hb with rfl | rfl <;> exact hbyte _ (by omega) (by omega)
  · split at hb
    · simp only [List.mem_cons, List.not_mem_nil, or_false] at hb
      rcases hb with rfl | rfl | rfl <;> exact hbyte _ (by omega) (by omega)
    · simp only [List.mem_cons, List.not_mem_nil, or_false] at hb
      rcases hb with rfl | rfl | rfl | rfl <;> exact hbyte _ (by omega) (by omega)

/-- Removing an ASCII character from a text removes its byte from the bytes. -/
theorem utf8_filter_ne {d : Char} (hd : d.toNat < 0x80) (s : List Char) :
    utf8 (s.filter (· ≠ d)) = (utf8 s).filter (· ≠ UInt8.ofNat d.toNat) := by
  induction s with
  | nil => rfl
  | cons c s ih =>
      rw [utf8_cons, List.filter_append, ← ih]
      have hofNat : ∀ k, k < 0x80 → (UInt8.ofNat k).toNat = k := by
        intro k hk
        rw [UInt8.toNat_ofNat', Nat.mod_eq_of_lt (by omega)]
      by_cases hcd : c = d
      · subst hcd
        rw [utf8EncodeChar_of_ascii hd]
        simp
      · rw [List.filter_cons_of_pos (by simpa using hcd), utf8_cons]
        congr 1
        symm
        rw [List.filter_eq_self]
        intro b hb
        have hne : b ≠ UInt8.ofNat d.toNat := by
          rintro rfl
          by_cases hascii : c.toNat < 0x80
          · rw [utf8EncodeChar_of_ascii hascii, List.mem_singleton, ← UInt8.toNat_inj,
              hofNat _ hd, hofNat _ hascii] at hb
            exact hcd (Char.toNat_inj.mp hb).symm
          · have hle := le_of_mem_utf8EncodeChar (Nat.not_lt.mp hascii) hb
            rw [hofNat _ hd] at hle
            omega
        simpa using hne

/-- A change of single characters that is a change of their bytes. -/
theorem utf8_map {f : Char → Char} {g : UInt8 → UInt8}
    (h : ∀ c, String.utf8EncodeChar (f c) = (String.utf8EncodeChar c).map g) (s : List Char) :
    utf8 (s.map f) = (utf8 s).map g := by
  induction s with
  | nil => rfl
  | cons c s ih => rw [List.map_cons, utf8_cons, utf8_cons, List.map_append, h, ih]

/-! ## Lengths -/

theorem length_utf16beChar_le (c : Char) :
    (utf16beChar c).length ≤ 2 * (String.utf8EncodeChar c).length := by
  unfold utf16beChar
  split
  · have hpos : (String.utf8EncodeChar c).length ≠ 0 := by
      rw [Ne, List.length_eq_zero_iff]
      exact String.utf8EncodeChar_ne_nil
    rw [length_u16be]
    omega
  · rename_i hbig
    have htwo : ¬ c.toNat ≤ 127 := by omega
    have hthree : ¬ c.toNat ≤ 2047 := by omega
    simp [String.utf8EncodeChar, htwo, hthree, hbig]

theorem length_utf16be_le (s : List Char) : (utf16be s).length ≤ 2 * (utf8 s).length := by
  induction s with
  | nil => simp
  | cons c s ih =>
      have hc := length_utf16beChar_le c
      rw [utf16be_cons, utf8_cons, List.length_append, List.length_append]
      omega

end Foundations.Unicode
