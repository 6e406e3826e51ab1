import Mathlib.Algebra.Order.Ring.Nat
import Mathlib.Data.UInt

/-!
# Big-endian numbers and overwriting in byte strings

Numbers of two and four bytes, most significant byte first, the effect of
writing a few bytes over a byte string in place, and the sum of the words of a
byte string.
-/

namespace Foundations

def u16be (v : UInt16) : List UInt8 := [(v >>> 8).toUInt8, v.toUInt8]

def u32be (v : UInt32) : List UInt8 :=
  [(v >>> 24).toUInt8, (v >>> 16).toUInt8, (v >>> 8).toUInt8, v.toUInt8]

def ofU16be (b₀ b₁ : UInt8) : UInt16 := b₀.toUInt16 <<< 8 ||| b₁.toUInt16

def ofU32be (b₀ b₁ b₂ b₃ : UInt8) : UInt32 :=
  b₀.toUInt32 <<< 24 ||| b₁.toUInt32 <<< 16 ||| b₂.toUInt32 <<< 8 ||| b₃.toUInt32

@[simp] theorem length_u16be (v : UInt16) : (u16be v).length = 2 := rfl

@[simp] theorem length_u32be (v : UInt32) : (u32be v).length = 4 := rfl

theorem mul_or (k : ℕ) {a b : ℕ} (h : b < 2 ^ k) : a * 2 ^ k ||| b = a * 2 ^ k + b := by
  rw [Nat.mul_comm]
  exact (Nat.two_pow_add_eq_or_of_lt h a).symm

theorem toNat_ofU16be (b₀ b₁ : UInt8) : (ofU16be b₀ b₁).toNat = b₀.toNat * 2 ^ 8 + b₁.toNat := by
  have h₀ := b₀.toNat_lt
  have h₁ := b₁.toNat_lt
  have hshift : (b₀.toUInt16 <<< 8).toNat = b₀.toNat * 2 ^ 8 := by
    have hmod : (8 : UInt16).toNat % 16 = 8 := rfl
    rw [UInt16.toNat_shiftLeft, hmod, UInt8.toNat_toUInt16, Nat.shiftLeft_eq,
      Nat.mod_eq_of_lt (by omega)]
  rw [ofU16be, UInt16.toNat_or, hshift, UInt8.toNat_toUInt16, mul_or 8 h₁]

theorem toNat_ofU32be (b₀ b₁ b₂ b₃ : UInt8) :
    (ofU32be b₀ b₁ b₂ b₃).toNat =
      b₀.toNat * 2 ^ 24 + b₁.toNat * 2 ^ 16 + b₂.toNat * 2 ^ 8 + b₃.toNat := by
  have h₀ := b₀.toNat_lt
  have h₁ := b₁.toNat_lt
  have h₂ := b₂.toNat_lt
  have h₃ := b₃.toNat_lt
  have hshift : ∀ (b : UInt8) (s : UInt32) (k : ℕ), s.toNat % 32 = k → k ≤ 24 →
      (b.toUInt32 <<< s).toNat = b.toNat * 2 ^ k := by
    intro b s k hs hk
    have hb := b.toNat_lt
    have hpow : (2 : ℕ) ^ k ≤ 2 ^ 24 := Nat.pow_le_pow_right (by omega) hk
    have hlt : b.toNat * 2 ^ k < 2 ^ 32 := by
      calc
        b.toNat * 2 ^ k ≤ b.toNat * 2 ^ 24 := Nat.mul_le_mul_left _ hpow
        _ < 2 ^ 32 := by omega
    rw [UInt32.toNat_shiftLeft, hs, UInt8.toNat_toUInt32, Nat.shiftLeft_eq, Nat.mod_eq_of_lt hlt]
  have hor₁ : b₀.toNat * 2 ^ 24 ||| b₁.toNat * 2 ^ 16 = b₀.toNat * 2 ^ 24 + b₁.toNat * 2 ^ 16 :=
    mul_or 24 (by omega)
  have hor₂ : b₀.toNat * 2 ^ 24 + b₁.toNat * 2 ^ 16 ||| b₂.toNat * 2 ^ 8 =
      b₀.toNat * 2 ^ 24 + b₁.toNat * 2 ^ 16 + b₂.toNat * 2 ^ 8 := by
    have hfactor : b₀.toNat * 2 ^ 24 + b₁.toNat * 2 ^ 16 =
        (b₀.toNat * 2 ^ 8 + b₁.toNat) * 2 ^ 16 := by omega
    rw [hfactor]
    exact mul_or 16 (by omega)
  have hor₃ : b₀.toNat * 2 ^ 24 + b₁.toNat * 2 ^ 16 + b₂.toNat * 2 ^ 8 ||| b₃.toNat =
      b₀.toNat * 2 ^ 24 + b₁.toNat * 2 ^ 16 + b₂.toNat * 2 ^ 8 + b₃.toNat := by
    have hfactor : b₀.toNat * 2 ^ 24 + b₁.toNat * 2 ^ 16 + b₂.toNat * 2 ^ 8 =
        (b₀.toNat * 2 ^ 16 + b₁.toNat * 2 ^ 8 + b₂.toNat) * 2 ^ 8 := by omega
    rw [hfactor]
    exact mul_or 8 (by omega)
  rw [ofU32be, UInt32.toNat_or, UInt32.toNat_or, UInt32.toNat_or, hshift b₀ 24 24 rfl (by omega),
    hshift b₁ 16 16 rfl (by omega), hshift b₂ 8 8 rfl (by omega), UInt8.toNat_toUInt32, hor₁, hor₂,
    hor₃]

/-- A number of two bytes is read back. -/
theorem ofU16be_u16be (v : UInt16) : ofU16be (v >>> 8).toUInt8 v.toUInt8 = v := by
  apply UInt16.toNat_inj.mp
  have hlt := v.toNat_lt
  have hmod : (8 : UInt16).toNat % 16 = 8 := rfl
  rw [toNat_ofU16be, UInt16.toNat_toUInt8, UInt16.toNat_toUInt8, UInt16.toNat_shiftRight, hmod,
    Nat.shiftRight_eq_div_pow]
  omega

theorem ofU32be_u32be (v : UInt32) :
    ofU32be (v >>> 24).toUInt8 (v >>> 16).toUInt8 (v >>> 8).toUInt8 v.toUInt8 = v := by
  apply UInt32.toNat_inj.mp
  have hlt := v.toNat_lt
  have hmod : (24 : UInt32).toNat % 32 = 24 ∧ (16 : UInt32).toNat % 32 = 16 ∧
      (8 : UInt32).toNat % 32 = 8 := ⟨rfl, rfl, rfl⟩
  rw [toNat_ofU32be]
  simp only [UInt32.toNat_toUInt8, UInt32.toNat_shiftRight, hmod, Nat.shiftRight_eq_div_pow]
  omega

/-! ## Overwriting -/

/-- `bytes` written over `data` at `pos`; what would fall outside is left
out. -/
def overwrite (data : List UInt8) (pos : ℕ) (bytes : List UInt8) : List UInt8 :=
  data.mapIdx fun i b ↦ if pos ≤ i then bytes.getD (i - pos) b else b

@[simp] theorem length_overwrite (data : List UInt8) (pos : ℕ) (bytes : List UInt8) :
    (overwrite data pos bytes).length = data.length :=
  List.length_mapIdx

theorem getElem?_overwrite (data : List UInt8) (pos : ℕ) (bytes : List UInt8) (i : ℕ) :
    (overwrite data pos bytes)[i]? =
      data[i]?.map fun b ↦ if pos ≤ i then bytes.getD (i - pos) b else b := by
  rw [overwrite, List.getElem?_mapIdx]

/-- Bytes written behind a string leave it alone. -/
theorem overwrite_append_of_le {left right : List UInt8} {pos : ℕ} (h : left.length ≤ pos)
    (bytes : List UInt8) :
    overwrite (left ++ right) pos bytes = left ++ overwrite right (pos - left.length) bytes := by
  apply List.ext_getElem?
  intro i
  by_cases hi : i < left.length
  · have hbefore : ¬ pos ≤ i := by omega
    rw [getElem?_overwrite, List.getElem?_append_left hi, List.getElem?_append_left hi]
    simp [hbefore]
  · have hle : left.length ≤ i := Nat.le_of_not_lt hi
    have hiff : pos - left.length ≤ i - left.length ↔ pos ≤ i := by omega
    have hsub : i - left.length - (pos - left.length) = i - pos := by omega
    rw [getElem?_overwrite, List.getElem?_append_right hle, List.getElem?_append_right hle,
      getElem?_overwrite, hsub]
    simp only [hiff]

/-- Bytes written inside a string leave alone what follows it. -/
theorem overwrite_append_of_add_le {left : List UInt8} {pos : ℕ} {bytes : List UInt8}
    (h : pos + bytes.length ≤ left.length) (right : List UInt8) :
    overwrite (left ++ right) pos bytes = overwrite left pos bytes ++ right := by
  apply List.ext_getElem?
  intro i
  by_cases hi : i < left.length
  · have hi' : i < (overwrite left pos bytes).length := by rwa [length_overwrite]
    rw [getElem?_overwrite, List.getElem?_append_left hi, List.getElem?_append_left hi',
      getElem?_overwrite]
  · have hle : left.length ≤ i := Nat.le_of_not_lt hi
    have hle' : (overwrite left pos bytes).length ≤ i := by rwa [length_overwrite]
    have hpast : bytes[i - pos]? = none := List.getElem?_eq_none (by omega)
    rw [getElem?_overwrite, List.getElem?_append_right hle, List.getElem?_append_right hle',
      length_overwrite]
    simp [List.getD, hpast]

theorem take_overwrite (data : List UInt8) (pos n : ℕ) (bytes : List UInt8) :
    (overwrite data pos bytes).take n = overwrite (data.take n) pos bytes := by
  apply List.ext_getElem?
  intro i
  rw [getElem?_overwrite, List.getElem?_take, List.getElem?_take]
  split
  · rw [getElem?_overwrite]
  · rfl

/-- Writing byte by byte. -/
theorem overwrite_cons (data : List UInt8) (pos : ℕ) (b : UInt8) (bytes : List UInt8) :
    overwrite data pos (b :: bytes) = overwrite (data.set pos b) (pos + 1) bytes := by
  apply List.ext_getElem?
  intro i
  rw [getElem?_overwrite, getElem?_overwrite, List.getElem?_set]
  rcases Nat.lt_trichotomy pos i with hlt | rfl | hgt
  · obtain ⟨k, rfl⟩ := Nat.exists_eq_add_of_lt hlt
    have hsub : pos + k + 1 - pos = k + 1 := by omega
    have hsub' : pos + k + 1 - (pos + 1) = k := by omega
    have hle : pos ≤ pos + k + 1 := by omega
    have hle' : pos + 1 ≤ pos + k + 1 := by omega
    have hne : pos ≠ pos + k + 1 := by omega
    simp only [hsub, hsub', hle, hle', hne, if_true, if_false, List.getD_cons_succ]
  · have hnot : ¬ pos + 1 ≤ pos := Nat.not_succ_le_self pos
    by_cases hlen : pos < data.length
    · simp [hlen, hnot]
    · simp [hlen]
  · have hnle : ¬ pos ≤ i := by omega
    have hnle' : ¬ pos + 1 ≤ i := by omega
    have hne : pos ≠ i := by omega
    simp only [hnle, hnle', hne, if_false]

@[simp] theorem overwrite_nil (data : List UInt8) (pos : ℕ) : overwrite data pos [] = data := by
  apply List.ext_getElem?
  intro i
  rw [getElem?_overwrite]
  simp

/-- Bytes written over as many others. -/
theorem overwrite_middle (left old right : List UInt8) {bytes : List UInt8}
    (h : bytes.length = old.length) :
    overwrite (left ++ (old ++ right)) left.length bytes = left ++ (bytes ++ right) := by
  have hall : overwrite old 0 bytes = bytes := by
    apply List.ext_getElem?
    intro i
    rw [getElem?_overwrite]
    by_cases hi : i < bytes.length
    · have hi' : i < old.length := h ▸ hi
      simp [hi, hi']
    · have hi' : ¬ i < old.length := h ▸ hi
      simp [hi, hi']
  rw [overwrite_append_of_le (Nat.le_refl _), Nat.sub_self, overwrite_append_of_add_le (by omega),
    hall]

/-! ## Sums of words -/

/-- The sum of the words of a byte string, modulo 2³².  Bytes that do not fill a
word are left out. -/
def wordSum : List UInt8 → UInt32
  | b₀ :: b₁ :: b₂ :: b₃ :: bytes => ofU32be b₀ b₁ b₂ b₃ + wordSum bytes
  | _ => 0

@[simp] theorem wordSum_nil : wordSum [] = 0 := by
  rw [wordSum]
  simp

theorem wordSum_append {left : List UInt8} (h : left.length % 4 = 0) (right : List UInt8) :
    wordSum (left ++ right) = wordSum left + wordSum right := by
  induction left using wordSum.induct with
  | case1 b₀ b₁ b₂ b₃ bytes ih =>
      have hrest : bytes.length % 4 = 0 := by
        simp only [List.length_cons] at h
        omega
      simp only [List.cons_append, wordSum, ih hrest, add_assoc]
  | case2 bytes hshort =>
      have hnil : bytes = [] := by
        match bytes, h with
        | [], _ => rfl
        | [_], h | [_, _], h | [_, _, _], h => exact absurd h (by simp)
        | b₀ :: b₁ :: b₂ :: b₃ :: rest, _ => exact absurd rfl (hshort b₀ b₁ b₂ b₃ rest)
      rw [hnil, List.nil_append, wordSum_nil, zero_add]

theorem wordSum_u32be (v : UInt32) : wordSum (u32be v) = v := by
  rw [u32be, wordSum, ofU32be_u32be, wordSum_nil, add_zero]

/-- A word written over a zero word adds to the sum. -/
theorem wordSum_middle {left right : List UInt8} (h : left.length % 4 = 0) (v : UInt32) :
    wordSum (left ++ (u32be v ++ right)) = wordSum (left ++ ([0, 0, 0, 0] ++ right)) + v := by
  have hzero : wordSum [0, 0, 0, 0] = 0 := by decide
  have hword : (u32be v).length % 4 = 0 := by simp
  have hzeros : ([0, 0, 0, 0] : List UInt8).length % 4 = 0 := rfl
  rw [wordSum_append h, wordSum_append h, wordSum_append hword, wordSum_append hzeros,
    wordSum_u32be, hzero, zero_add]
  ac_rfl

end Foundations
