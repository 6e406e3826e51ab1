import Mathlib.Data.List.GetD
import Wallpiper.Foundations.Sizes

/-!
# Little-endian numbers

Numbers of four and eight bytes, least significant byte first, as a program
writes its integers to a file on this machine, and the four bytes of a buffer
read back as a number.
-/

namespace Foundations

open Sizes

def u32le (v : UInt32) : List UInt8 :=
  [v.toUInt8, (v >>> 8).toUInt8, (v >>> 16).toUInt8, (v >>> 24).toUInt8]

def u64le (v : UInt64) : List UInt8 := u32le v.toUInt32 ++ u32le (v >>> 32).toUInt32

def ofU32le (b₀ b₁ b₂ b₃ : UInt8) : UInt32 :=
  b₀.toUInt32 ||| b₁.toUInt32 <<< 8 ||| b₂.toUInt32 <<< 16 ||| b₃.toUInt32 <<< 24

/-- The number at an offset; bytes beyond the end count as zero. -/
def u32leAt (buf : List UInt8) (off : ℕ) : UInt32 :=
  ofU32le (buf.getD off 0) (buf.getD (off + 1) 0) (buf.getD (off + 2) 0) (buf.getD (off + 3) 0)

@[simp] theorem length_u32le (v : UInt32) : (u32le v).length = 4 := rfl

@[simp] theorem length_u64le (v : UInt64) : (u64le v).length = 8 := rfl

/-- The two orders of bytes give the same number. -/
theorem ofU32le_eq_ofU32be (b₀ b₁ b₂ b₃ : UInt8) : ofU32le b₀ b₁ b₂ b₃ = ofU32be b₃ b₂ b₁ b₀ := by
  rw [ofU32le, ofU32be, UInt32.or_comm (b₀.toUInt32 ||| _ ||| _), UInt32.or_comm b₀.toUInt32,
    UInt32.or_comm (_ ||| b₀.toUInt32), ← UInt32.or_assoc, ← UInt32.or_assoc]

theorem toNat_ofU32le (b₀ b₁ b₂ b₃ : UInt8) :
    (ofU32le b₀ b₁ b₂ b₃).toNat =
      b₃.toNat * 2 ^ 24 + b₂.toNat * 2 ^ 16 + b₁.toNat * 2 ^ 8 + b₀.toNat := by
  rw [ofU32le_eq_ofU32be, toNat_ofU32be]

theorem ofU32le_u32le (v : UInt32) :
    ofU32le v.toUInt8 (v >>> 8).toUInt8 (v >>> 16).toUInt8 (v >>> 24).toUInt8 = v := by
  rw [ofU32le_eq_ofU32be, ofU32be_u32be]

/-- Different bytes give different numbers. -/
theorem ofU32le_inj {b₀ b₁ b₂ b₃ c₀ c₁ c₂ c₃ : UInt8} :
    ofU32le b₀ b₁ b₂ b₃ = ofU32le c₀ c₁ c₂ c₃ ↔ b₀ = c₀ ∧ b₁ = c₁ ∧ b₂ = c₂ ∧ b₃ = c₃ := by
  have hb₀ := b₀.toNat_lt
  have hb₁ := b₁.toNat_lt
  have hb₂ := b₂.toNat_lt
  have hc₀ := c₀.toNat_lt
  have hc₁ := c₁.toNat_lt
  have hc₂ := c₂.toNat_lt
  rw [← UInt32.toNat_inj, toNat_ofU32le, toNat_ofU32le, ← UInt8.toNat_inj, ← UInt8.toNat_inj,
    ← UInt8.toNat_inj, ← UInt8.toNat_inj]
  omega

/-- A number written in front of other bytes is read back. -/
theorem u32leAt_append {front : List UInt8} {off : ℕ} (h : front.length = off) (v : UInt32)
    (rest : List UInt8) : u32leAt (front ++ (u32le v ++ rest)) off = v := by
  have hbyte : ∀ k, (front ++ (u32le v ++ rest)).getD (off + k) 0 = (u32le v ++ rest).getD k 0 := by
    intro k
    rw [List.getD_append_right _ _ _ _ (by omega), show off + k - front.length = k by omega]
  rw [u32leAt, hbyte 1, hbyte 2, hbyte 3, ← Nat.add_zero off, hbyte 0]
  exact ofU32le_u32le v

/-- The numbers of a cut string are those of the string. -/
theorem u32leAt_take {buf : List UInt8} {n off : ℕ} (h : off + 4 ≤ n) :
    u32leAt (buf.take n) off = u32leAt buf off := by
  have hbyte : ∀ k, k < n → (buf.take n).getD k 0 = buf.getD k 0 := by
    intro k hk
    rw [List.getD_eq_getElem?_getD, List.getElem?_take_of_lt hk, List.getD_eq_getElem?_getD]
  rw [u32leAt, u32leAt, hbyte _ (by omega), hbyte _ (by omega), hbyte _ (by omega),
    hbyte _ (by omega)]

end Foundations
