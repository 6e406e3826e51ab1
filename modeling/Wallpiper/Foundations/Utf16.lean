import Mathlib.Data.List.Chain
import Wallpiper.Foundations.Unicode

/-!
# Surrogates, and what stands in malformed UTF-8

The sequences of a byte string are looked for at every position, so they are
defined for malformed UTF-8 too: a position starts a sequence when its byte is a
leading one and as many bytes as it announces follow that continue a sequence.
Such a sequence may stand for a surrogate or for a number beyond the last code
point.  The code units of the sequences are well formed when surrogates come in
pairs.
-/

namespace Foundations.Unicode

/-! ## Surrogates in pairs -/

def IsHighSurrogate (u : ℕ) : Prop := 0xD800 ≤ u ∧ u < 0xDC00

def IsLowSurrogate (u : ℕ) : Prop := 0xDC00 ≤ u ∧ u < 0xE000

instance (u : ℕ) : Decidable (IsHighSurrogate u) := inferInstanceAs (Decidable (_ ∧ _))

instance (u : ℕ) : Decidable (IsLowSurrogate u) := inferInstanceAs (Decidable (_ ∧ _))

/-- Neighbours are either a high surrogate and a low one or neither. -/
def Neighbours (u v : ℕ) : Prop := IsHighSurrogate u ↔ IsLowSurrogate v

instance (u v : ℕ) : Decidable (Neighbours u v) := inferInstanceAs (Decidable (_ ↔ _))

/-- Every high surrogate is followed by a low one, and every low one is behind a
high one; what is around the list counts as no surrogate. -/
def SurrogatesPaired (us : List ℕ) : Prop := (0 :: (us ++ [0])).IsChain Neighbours

instance (us : List ℕ) : Decidable (SurrogatesPaired us) :=
  inferInstanceAs (Decidable (List.IsChain _ _))

def WellFormedUtf16 (units : List UInt16) : Prop := SurrogatesPaired (units.map UInt16.toNat)

instance (units : List UInt16) : Decidable (WellFormedUtf16 units) :=
  inferInstanceAs (Decidable (SurrogatesPaired _))

/-! ## Code units -/

/-- The units that are computed for a number, whether it is a code point or not. -/
def codeUnits (cp : ℕ) : List UInt16 :=
  if cp ≤ 0xFFFF then [UInt16.ofNat cp]
  else [UInt16.ofNat (0xD800 + (cp - 0x10000) / 0x400),
    UInt16.ofNat (0xDC00 + (cp - 0x10000) % 0x400)]

theorem utf16beChar_eq (c : Char) : utf16beChar c = (codeUnits c.toNat).flatMap u16be := by
  rw [utf16beChar, codeUnits]
  split
  · simp
  · simp

/-- Two bytes for each unit determine the units. -/
theorem flatMap_u16be_inj {us vs : List UInt16} (h : us.flatMap u16be = vs.flatMap u16be) :
    us = vs := by
  induction us generalizing vs with
  | nil =>
      cases vs with
      | nil => rfl
      | cons v vs => exact absurd h.symm (by simp [u16be])
  | cons u us ih =>
      cases vs with
      | nil => exact absurd h (by simp [u16be])
      | cons v vs =>
          rw [List.flatMap_cons, List.flatMap_cons] at h
          obtain ⟨hfirst, hrest⟩ := List.append_inj h rfl
          have hbytes : (u >>> 8).toUInt8 = (v >>> 8).toUInt8 ∧ u.toUInt8 = v.toUInt8 := by
            simpa [u16be] using hfirst
          rw [ih hrest, ← ofU16be_u16be u, ← ofU16be_u16be v, hbytes.1, hbytes.2]

theorem isChain_cons_congr {u v : ℕ} (h : IsHighSurrogate u ↔ IsHighSurrogate v) (us : List ℕ) :
    (u :: us).IsChain Neighbours ↔ (v :: us).IsChain Neighbours := by
  cases us with
  | nil => simp
  | cons w us => rw [List.isChain_cons_cons, List.isChain_cons_cons, Neighbours, Neighbours, h]

/-- The units of numbers below 2²¹ behind a unit `u`. -/
theorem isChain_codeUnits_iff {cps : List ℕ} (h : ∀ cp ∈ cps, cp < 2 ^ 21) (u : ℕ) :
    (u :: ((cps.flatMap codeUnits).map UInt16.toNat ++ [0])).IsChain Neighbours ↔
      (∀ cp ∈ cps, cp ≤ 0x10FFFF) ∧ (u :: (cps ++ [0])).IsChain Neighbours := by
  induction cps generalizing u with
  | nil => simp
  | cons cp cps ih =>
      obtain ⟨hcp, h⟩ := List.forall_mem_cons.mp h
      rw [List.flatMap_cons, List.map_append, List.append_assoc, codeUnits]
      by_cases hsmall : cp ≤ 0xFFFF
      · have hunit : (UInt16.ofNat cp).toNat = cp := by
          rw [UInt16.toNat_ofNat', Nat.mod_eq_of_lt (by omega)]
        have hle : cp ≤ 0x10FFFF := by omega
        rw [if_pos hsmall, List.map_singleton, List.singleton_append, hunit, List.isChain_cons_cons,
          ih h, List.forall_mem_cons, List.cons_append, List.isChain_cons_cons]
        exact ⟨fun ⟨hu, hall, hrest⟩ ↦ ⟨⟨hle, hall⟩, hu, hrest⟩,
          fun ⟨⟨_, hall⟩, hu, hrest⟩ ↦ ⟨hu, hall, hrest⟩⟩
      · -- the second of two units is a low surrogate, so the first must be a high one
        have hfirst : (UInt16.ofNat (0xD800 + (cp - 0x10000) / 0x400)).toNat =
            0xD800 + (cp - 0x10000) / 0x400 := by
          rw [UInt16.toNat_ofNat', Nat.mod_eq_of_lt (by omega)]
        have hsecond : (UInt16.ofNat (0xDC00 + (cp - 0x10000) % 0x400)).toNat =
            0xDC00 + (cp - 0x10000) % 0x400 := by
          rw [UInt16.toNat_ofNat', Nat.mod_eq_of_lt (by omega)]
        have hlow : IsLowSurrogate (0xDC00 + (cp - 0x10000) % 0x400) := by
          unfold IsLowSurrogate
          omega
        have hhigh : IsHighSurrogate (0xD800 + (cp - 0x10000) / 0x400) ↔ cp ≤ 0x10FFFF := by
          unfold IsHighSurrogate
          omega
        have hfront : IsLowSurrogate (0xD800 + (cp - 0x10000) / 0x400) ↔ ¬ cp ≤ 0x10FFFF := by
          unfold IsLowSurrogate
          omega
        have hself : ¬ IsLowSurrogate cp := by
          unfold IsLowSurrogate
          omega
        have hplain : IsHighSurrogate (0xDC00 + (cp - 0x10000) % 0x400) ↔ IsHighSurrogate cp := by
          unfold IsHighSurrogate
          omega
        rw [if_neg hsmall, List.map_cons, List.map_singleton, List.cons_append,
          List.singleton_append, hfirst, hsecond, List.isChain_cons_cons, List.isChain_cons_cons,
          isChain_cons_congr hplain, ih h, List.forall_mem_cons, List.cons_append,
          List.isChain_cons_cons, Neighbours, Neighbours, Neighbours, hfront, hhigh,
          iff_true_right hlow]
        constructor
        · rintro ⟨hu, hle, hall, hrest⟩
          exact ⟨⟨hle, hall⟩, iff_of_false (fun hu' ↦ hu.mp hu' hle) hself, hrest⟩
        · rintro ⟨⟨hle, hall⟩, hu, hrest⟩
          exact ⟨iff_of_false (fun hu' ↦ hself (hu.mp hu')) (not_not.mpr hle), hle, hall, hrest⟩

/-- The units are well formed exactly when no number is too large and the
surrogates among the numbers are paired themselves. -/
theorem wellFormedUtf16_iff {cps : List ℕ} (h : ∀ cp ∈ cps, cp < 2 ^ 21) :
    WellFormedUtf16 (cps.flatMap codeUnits) ↔
      (∀ cp ∈ cps, cp ≤ 0x10FFFF) ∧ SurrogatesPaired cps :=
  isChain_codeUnits_iff h 0

/-! ## The sequences of a byte string -/

/-- The bits of a leading byte, and how many bytes it announces. -/
def leadingByte (c : UInt8) : Option (ℕ × ℕ) :=
  if c.toNat < 0x80 then some (c.toNat, 0)
  else if c.toNat < 0xC0 then none
  else if c.toNat < 0xE0 then some (c.toNat - 0xC0, 1)
  else if c.toNat < 0xF0 then some (c.toNat - 0xE0, 2)
  else if c.toNat < 0xF8 then some (c.toNat - 0xF0, 3)
  else none

def IsContinuation (c : UInt8) : Prop := 0x80 ≤ c.toNat ∧ c.toNat < 0xC0

instance (c : UInt8) : Decidable (IsContinuation c) := inferInstanceAs (Decidable (_ ∧ _))

instance (p : List UInt8) : Decidable (∀ d ∈ p, IsContinuation d) := List.decidableBAll _ p

/-- Each further byte holds six bits. -/
def sequenceValue (bits : ℕ) (p : List UInt8) : ℕ := p.foldl (fun v c ↦ v * 64 + c.toNat % 64) bits

/-- The number that the sequence at the head of a byte string stands for. -/
def sequenceAt : List UInt8 → Option ℕ
  | [] => none
  | c :: p =>
      match leadingByte c with
      | none => none
      | some (bits, extra) =>
          if extra ≤ p.length ∧ ∀ d ∈ p.take extra, IsContinuation d then
            some (sequenceValue bits (p.take extra))
          else none

/-- The numbers at all positions that start a sequence. -/
def sequences (s : List UInt8) : List ℕ := s.tails.filterMap sequenceAt

theorem sequences_cons (c : UInt8) (p : List UInt8) :
    sequences (c :: p) = (sequenceAt (c :: p)).toList ++ sequences p := by
  rw [sequences, List.tails_cons, List.filterMap_cons]
  cases sequenceAt (c :: p) with
  | none => rfl
  | some cp => rfl

/-- A byte that continues a sequence starts none. -/
theorem sequenceAt_continuation {c : UInt8} (h : IsContinuation c) (p : List UInt8) :
    sequenceAt (c :: p) = none := by
  have hlead : leadingByte c = none := by
    rw [leadingByte, if_neg (Nat.not_lt.mpr h.1), if_pos h.2]
  rw [sequenceAt, hlead]

theorem sequences_drop {p : List UInt8} {extra : ℕ} (h : ∀ d ∈ p.take extra, IsContinuation d) :
    sequences (p.drop extra) = sequences p := by
  induction extra generalizing p with
  | zero => rfl
  | succ extra ih =>
      cases p with
      | nil => rfl
      | cons c p =>
          rw [List.take_succ_cons] at h
          obtain ⟨hc, h⟩ := List.forall_mem_cons.mp h
          rw [List.drop_succ_cons, ih h, sequences_cons, sequenceAt_continuation hc]
          rfl

theorem sequenceValue_lt {bits k : ℕ} (h : bits < k) (p : List UInt8) :
    sequenceValue bits p < k * 64 ^ p.length := by
  induction p generalizing bits k with
  | nil => simpa [sequenceValue] using h
  | cons c p ih =>
      have hstep : bits * 64 + c.toNat % 64 < k * 64 := by omega
      have hrest := ih hstep
      rwa [Nat.mul_assoc, ← Nat.pow_succ'] at hrest

theorem lt_of_mem_sequences {s : List UInt8} {cp : ℕ} (h : cp ∈ sequences s) : cp < 2 ^ 21 := by
  obtain ⟨t, -, hcp⟩ := List.mem_filterMap.mp h
  cases t with
  | nil => exact absurd hcp (by simp [sequenceAt])
  | cons c p =>
      rw [sequenceAt] at hcp
      split at hcp
      · exact absurd hcp (by simp)
      · rename_i bits extra hlead
        split at hcp
        · rename_i hfits
          obtain rfl := Option.some.inj hcp
          have hlength : (p.take extra).length = extra := List.length_take_of_le hfits.1
          have hc := c.toNat_lt
          have hbound : ∃ k, bits < k ∧ k * 64 ^ extra ≤ 2 ^ 21 := by
            unfold leadingByte at hlead
            split_ifs at hlead
            all_goals obtain ⟨rfl, rfl⟩ := Prod.mk.inj (Option.some.inj hlead)
            · exact ⟨128, by omega, by decide⟩
            · exact ⟨32, by omega, by decide⟩
            · exact ⟨16, by omega, by decide⟩
            · exact ⟨8, by omega, by decide⟩
          obtain ⟨k, hk, hle⟩ := hbound
          have hvalue := sequenceValue_lt hk (p.take extra)
          rw [hlength] at hvalue
          omega
        · exact absurd hcp (by simp)

end Foundations.Unicode
