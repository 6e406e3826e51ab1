import Wallpiper.Foundations.CText
import Wallpiper.Foundations.LittleEndian

/-!
# Memory that is mapped in part

Memory around some base address, a byte at each offset that is mapped.  Numbers
and C strings are read from it byte by byte, and a read of a byte that is not
mapped is a fault.  A store of a number changes its own eight bytes alone.
-/

namespace Foundations

open CText

inductive MemoryFault where
  /-- a byte that is not mapped is read -/
  | unmapped
  /-- the bound on the rounds of a loop was too small -/
  | outOfRounds
  deriving DecidableEq, Repr

abbrev Memory := ℤ → Option UInt8

namespace Memory

def byteAt (mem : Memory) (a : ℤ) : Except MemoryFault UInt8 :=
  match mem a with
  | some b => .ok b
  | none => .error .unmapped

def u16At (mem : Memory) (a : ℤ) : Except MemoryFault UInt16 := do
  let b₀ ← mem.byteAt a
  let b₁ ← mem.byteAt (a + 1)
  .ok (b₀.toUInt16 ||| b₁.toUInt16 <<< 8)

def u32At (mem : Memory) (a : ℤ) : Except MemoryFault UInt32 := do
  let b₀ ← mem.byteAt a
  let b₁ ← mem.byteAt (a + 1)
  let b₂ ← mem.byteAt (a + 2)
  let b₃ ← mem.byteAt (a + 3)
  .ok (ofU32le b₀ b₁ b₂ b₃)

def u64At (mem : Memory) (a : ℤ) : Except MemoryFault UInt64 := do
  let low ← mem.u32At a
  let high ← mem.u32At (a + 4)
  .ok (UInt64.ofNat (low.toNat + high.toNat * 2 ^ 32))

/-- The bytes of a number go to `a` and behind. -/
def store (mem : Memory) (a : ℤ) (v : UInt64) : Memory :=
  fun i ↦ if a ≤ i ∧ i < a + 8 then (u64le v)[(i - a).toNat]? else mem i

/-- A C string: the bytes, none of them NUL, and the NUL. -/
structure StringAt (mem : Memory) (a : ℤ) (s : Bytes) : Prop where
  nonul : 0 ∉ s
  bytes : ∀ i (h : i < s.length), mem (a + i) = some s[i]
  ended : mem (a + s.length) = some 0

/-- Units of two bytes each. -/
def UnitsAt (mem : Memory) (a : ℤ) (units : List UInt16) : Prop :=
  ∀ i (h : i < units.length), mem.u16At (a + 2 * i) = .ok units[i]

variable {mem : Memory} {a : ℤ}

theorem byteAt_of_some {b : UInt8} (h : mem a = some b) : mem.byteAt a = .ok b := by
  rw [byteAt, h]

theorem StringAt.head {c : UInt8} {s : Bytes} (h : mem.StringAt a (c :: s)) :
    c ≠ 0 ∧ mem.byteAt a = .ok c := by
  have hbyte := h.bytes 0 (Nat.succ_pos _)
  rw [Int.natCast_zero, add_zero] at hbyte
  exact ⟨fun hc ↦ h.nonul (hc ▸ List.mem_cons_self), byteAt_of_some hbyte⟩

theorem StringAt.tail {c : UInt8} {s : Bytes} (h : mem.StringAt a (c :: s)) :
    mem.StringAt (a + 1) s := by
  refine ⟨fun hmem ↦ h.nonul (List.mem_cons_of_mem c hmem), fun i hi ↦ ?_, ?_⟩
  · have hbyte := h.bytes (i + 1) (Nat.succ_lt_succ hi)
    rw [List.getElem_cons_succ, Nat.cast_add_one, ← add_assoc, add_right_comm] at hbyte
    exact hbyte
  · have hend := h.ended
    rw [List.length_cons, Nat.cast_add_one, ← add_assoc, add_right_comm] at hend
    exact hend

theorem StringAt.nil (h : mem.StringAt a []) : mem.byteAt a = .ok 0 := by
  have hend := h.ended
  rw [List.length_nil, Int.natCast_zero, add_zero] at hend
  exact byteAt_of_some hend

theorem UnitsAt.head {u : UInt16} {units : List UInt16} (h : mem.UnitsAt a (u :: units)) :
    mem.u16At a = .ok u := by
  have hunit := h 0 (Nat.succ_pos _)
  rwa [Int.natCast_zero, mul_zero, add_zero] at hunit

theorem UnitsAt.tail {u : UInt16} {units : List UInt16} (h : mem.UnitsAt a (u :: units)) :
    mem.UnitsAt (a + 2) units := by
  intro i hi
  have hunit := h (i + 1) (Nat.succ_lt_succ hi)
  rw [List.getElem_cons_succ, Nat.cast_add_one, mul_add, mul_one, ← add_assoc,
    add_right_comm] at hunit
  exact hunit

/-- The string at an address, of at most so many bytes. -/
def stringFrom (mem : Memory) : ℕ → ℤ → Bytes
  | 0, _ => []
  | n + 1, a =>
      match mem a with
      | some c => if c = 0 then [] else c :: stringFrom mem n (a + 1)
      | none => []

theorem StringAt.stringFrom_eq {s : Bytes} (h : mem.StringAt a s) {n : ℕ} (hn : s.length < n) :
    mem.stringFrom n a = s := by
  induction s generalizing a n with
  | nil =>
      obtain ⟨n, rfl⟩ := Nat.exists_eq_succ_of_ne_zero (Nat.ne_of_gt hn)
      have hend := h.ended
      rw [List.length_nil, Int.natCast_zero, add_zero] at hend
      rw [stringFrom, hend]
      rfl
  | cons c s ih =>
      obtain ⟨n, rfl⟩ : ∃ k, n = k + 1 := Nat.exists_eq_succ_of_ne_zero (by omega)
      have hbyte := h.bytes 0 (Nat.succ_pos _)
      rw [Int.natCast_zero, add_zero, List.getElem_cons_zero] at hbyte
      rw [stringFrom, hbyte]
      change (if c = 0 then [] else _) = _
      rw [if_neg h.head.1, ih h.tail (Nat.lt_of_succ_lt_succ hn)]

/-- Memory with some bytes given, and zeros elsewhere up to its end. -/
def sparse (size : ℤ) (cells : List (ℤ × UInt8)) : Memory :=
  fun a ↦ if 0 ≤ a ∧ a < size then
    some (((cells.find? fun c ↦ c.1 = a).map Prod.snd).getD 0) else none

/-- A string ends inside the memory. -/
theorem StringAt.length_lt {size : ℕ} {cells : List (ℤ × UInt8)} {s : Bytes}
    (h : (sparse size cells).StringAt a s) : s.length < size := by
  have hmapped : ∀ {b : ℤ} {c : UInt8}, sparse size cells b = some c → 0 ≤ b ∧ b < size := by
    intro b c hb
    by_contra hout
    rw [sparse, if_neg hout] at hb
    cases hb
  have hend := hmapped h.ended
  have hstart : 0 ≤ a := by
    cases s with
    | nil => simpa using hend.1
    | cons c s => simpa using (hmapped (h.bytes 0 (Nat.succ_pos _))).1
  omega

/-! ## Stores -/

theorem byteAt_congr {mem' : Memory} (h : mem' a = mem a) : mem'.byteAt a = mem.byteAt a := by
  rw [byteAt, byteAt, h]

theorem u32At_congr {mem' : Memory} (h : ∀ i, a ≤ i → i < a + 4 → mem' i = mem i) :
    mem'.u32At a = mem.u32At a := by
  rw [u32At, u32At, byteAt_congr (h a (by omega) (by omega)),
    byteAt_congr (h (a + 1) (by omega) (by omega)),
    byteAt_congr (h (a + 2) (by omega) (by omega)),
    byteAt_congr (h (a + 3) (by omega) (by omega))]

theorem u64At_congr {mem' : Memory} (h : ∀ i, a ≤ i → i < a + 8 → mem' i = mem i) :
    mem'.u64At a = mem.u64At a := by
  rw [u64At, u64At, u32At_congr fun i hi hi' ↦ h i hi (by omega),
    u32At_congr fun i hi hi' ↦ h i (by omega) (by omega)]

/-- Numbers that lie beside the stored one keep their values. -/
theorem u64At_store_of_apart {b : ℤ} (h : a + 8 ≤ b ∨ b + 8 ≤ a) (v : UInt64) :
    (mem.store a v).u64At b = mem.u64At b := by
  apply u64At_congr
  intro i hi hi'
  exact if_neg (by omega)

theorem u32At_of_bytes {v : UInt32} (h : ∀ k : ℕ, k < 4 → mem (a + k) = (u32le v)[k]?) :
    mem.u32At a = .ok v := by
  have h₀ := h 0 (by omega)
  have h₁ : mem (a + 1) = some (v >>> 8).toUInt8 := h 1 (by omega)
  have h₂ : mem (a + 2) = some (v >>> 16).toUInt8 := h 2 (by omega)
  have h₃ : mem (a + 3) = some (v >>> 24).toUInt8 := h 3 (by omega)
  rw [Nat.cast_zero, add_zero] at h₀
  have hread : mem.u32At a =
      .ok (ofU32le v.toUInt8 (v >>> 8).toUInt8 (v >>> 16).toUInt8 (v >>> 24).toUInt8) := by
    rw [u32At, byteAt_of_some h₀, byteAt_of_some h₁, byteAt_of_some h₂, byteAt_of_some h₃]
    rfl
  rw [hread, ofU32le_u32le]

/-- A stored number is read back. -/
theorem u64At_store (v : UInt64) : (mem.store a v).u64At a = .ok v := by
  have hbyte : ∀ k : ℕ, k < 8 → mem.store a v (a + k) = (u64le v)[k]? := by
    intro k hk
    have hk' : (a + k - a).toNat = k := by omega
    rw [store, if_pos ⟨by omega, by omega⟩, hk']
  have hlow : (mem.store a v).u32At a = .ok v.toUInt32 := by
    apply u32At_of_bytes
    intro k hk
    rw [hbyte k (by omega), u64le, List.getElem?_append_left (by rwa [length_u32le])]
  have hhigh : (mem.store a v).u32At (a + 4) = .ok (v >>> 32).toUInt32 := by
    apply u32At_of_bytes
    intro k hk
    have hshift : a + 4 + (k : ℤ) = a + (k + 4 : ℕ) := by omega
    rw [hshift, hbyte (k + 4) (by omega), u64le,
      List.getElem?_append_right (by rw [length_u32le]; omega), length_u32le,
      Nat.add_sub_cancel]
  have hparts : v.toUInt32.toNat + (v >>> 32).toUInt32.toNat * 2 ^ 32 = v.toNat := by
    have hlt := v.toNat_lt
    have hshift : (v >>> 32).toNat = v.toNat / 2 ^ 32 := by
      rw [UInt64.toNat_shiftRight, Nat.shiftRight_eq_div_pow]
      rfl
    rw [UInt64.toNat_toUInt32, UInt64.toNat_toUInt32, hshift]
    omega
  rw [u64At, hlow, hhigh]
  change Except.ok (UInt64.ofNat _) = _
  rw [hparts, UInt64.ofNat_toNat]

end Memory

end Foundations
