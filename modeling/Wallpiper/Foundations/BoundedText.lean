import Mathlib.Logic.Function.Basic
import Mathlib.Data.List.GetD
import Mathlib.Order.Nat
import Mathlib.Algebra.Ring.Nat

/-!
# Text written to a bounded buffer

A writer hands the characters of a text one by one to a buffer of `cap` cells.
The position counts all of them, those are stored that leave room for a
terminator, and the terminator is stored last.  Afterwards the buffer holds the
text as far as it fits, and no cell behind the buffer has been stored to.
-/

namespace Foundations

variable {α : Type*}

/-- The memory from the buffer's first cell on. -/
structure Sink (α : Type*) where
  cells : ℕ → α
  pos : UInt64
  /-- the indices stored to, the last first -/
  stores : List ℕ

namespace Sink

def start (memory : ℕ → α) : Sink α := ⟨memory, 0, []⟩

def store (s : Sink α) (i : UInt64) (a : α) : Sink α :=
  { s with cells := Function.update s.cells i.toNat a, stores := i.toNat :: s.stores }

def put (cap : UInt64) (s : Sink α) (a : α) : Sink α :=
  let stored := if s.pos + 1 < cap then s.store s.pos a else s
  { stored with pos := s.pos + 1 }

def close (cap : UInt64) (terminator : α) (s : Sink α) : Sink α :=
  if 0 < cap then s.store (if s.pos < cap then s.pos else cap - 1) terminator else s

/-- The text so far, as much of it as leaves room for a terminator. -/
structure Holds (cap : UInt64) (memory : ℕ → α) (text : List α) (s : Sink α) : Prop where
  pos : s.pos.toNat = text.length
  cells : ∀ i, s.cells i = if i + 1 < cap.toNat then text.getD i (memory i) else memory i
  inside : ∀ i ∈ s.stores, i < cap.toNat

/-- The text cut to the buffer, its terminator, and what was there before. -/
structure Cut (cap : UInt64) (memory : ℕ → α) (terminator : α) (text : List α) (s : Sink α) :
    Prop where
  pos : s.pos.toNat = text.length
  kept : ∀ i, i < min text.length (cap.toNat - 1) → text[i]? = some (s.cells i)
  ended : 0 < cap → s.cells (min text.length (cap.toNat - 1)) = terminator
  beyond : ∀ i, min text.length (cap.toNat - 1) < i ∨ cap = 0 → s.cells i = memory i
  inside : ∀ i ∈ s.stores, i < cap.toNat

variable {cap : UInt64} {memory : ℕ → α} {text : List α} {s : Sink α}

theorem holds_start : (start memory).Holds cap memory [] where
  pos := UInt64.toNat_zero
  cells i := by
    simp only [start, List.getD_nil, ite_self]
  inside := List.forall_mem_nil _

theorem toNat_succ {n : UInt64} {k : ℕ} (h : n.toNat = k) (hk : k + 1 < 2 ^ 64) :
    (n + 1).toNat = k + 1 := by
  have hone : (1 : UInt64).toNat = 1 := UInt64.toNat_one
  rw [UInt64.toNat_add, h, hone, Nat.mod_eq_of_lt hk]

theorem getD_concat (text : List α) (a : α) (i : ℕ) (d : α) :
    (text ++ [a]).getD i d = if i = text.length then a else text.getD i d := by
  rcases lt_trichotomy i text.length with hi | rfl | hi
  · rw [List.getD_append _ _ _ _ hi, if_neg hi.ne]
  · rw [List.getD_append_right _ _ _ _ le_rfl, Nat.sub_self, if_pos rfl, List.getD_cons_zero]
  · have hlen : (text ++ [a]).length ≤ i := by
      rw [List.length_append, List.length_singleton]
      exact hi
    rw [List.getD_eq_default _ _ hlen, if_neg hi.ne', List.getD_eq_default _ _ hi.le]

theorem Holds.put (h : s.Holds cap memory text) (a : α) (hlen : text.length + 1 < 2 ^ 64) :
    (s.put cap a).Holds cap memory (text ++ [a]) := by
  have hpos : (s.pos + 1).toNat = text.length + 1 := toNat_succ h.pos hlen
  have hroom : s.pos + 1 < cap ↔ text.length + 1 < cap.toNat := by
    rw [UInt64.lt_iff_toNat_lt, hpos]
  refine ⟨?_, fun i ↦ ?_, fun i hi ↦ ?_⟩
  · rw [List.length_append, List.length_singleton]
    exact hpos
  · rw [getD_concat]
    by_cases hcap : text.length + 1 < cap.toNat
    · have hcells : (s.put cap a).cells = Function.update s.cells text.length a := by
        simp only [Sink.put, if_pos (hroom.mpr hcap), store, h.pos]
      rw [hcells, Function.update_apply, h.cells]
      by_cases hi : i = text.length
      · subst hi
        rw [if_pos rfl, if_pos rfl, if_pos hcap]
      · rw [if_neg hi, if_neg hi]
    · have hcells : (s.put cap a).cells = s.cells := by
        simp only [Sink.put, if_neg (fun hlt ↦ hcap (hroom.mp hlt))]
      rw [hcells, h.cells]
      by_cases hi : i = text.length
      · subst hi
        rw [if_neg hcap, if_neg hcap]
      · rw [if_neg hi]
  · by_cases hcap : s.pos + 1 < cap
    · have hstores : (s.put cap a).stores = text.length :: s.stores := by
        simp only [Sink.put, if_pos hcap, store, h.pos]
      rw [hstores] at hi
      rcases List.mem_cons.mp hi with rfl | hi
      · exact (Nat.lt_succ_self _).trans (hroom.mp hcap)
      · exact h.inside i hi
    · have hstores : (s.put cap a).stores = s.stores := by
        simp only [Sink.put, if_neg hcap]
      exact h.inside i (hstores ▸ hi)

theorem Holds.puts (h : s.Holds cap memory text) (more : List α)
    (hlen : (text ++ more).length < 2 ^ 64) :
    (more.foldl (Sink.put cap) s).Holds cap memory (text ++ more) := by
  induction more generalizing text s with
  | nil => simpa using h
  | cons a more ih =>
      rw [List.append_cons] at hlen ⊢
      have hone : text.length + 1 < 2 ^ 64 := by
        rw [List.length_append, List.length_append, List.length_singleton] at hlen
        omega
      exact ih (h.put a hone) hlen

/-- Where the terminator goes. -/
theorem Holds.last (h : s.Holds cap memory text) (hcap : 0 < cap) :
    (if s.pos < cap then s.pos else cap - 1).toNat = min text.length (cap.toNat - 1) := by
  have hpos := h.pos
  have hcap' : 0 < cap.toNat := UInt64.lt_iff_toNat_lt.mp hcap
  by_cases hlt : s.pos < cap
  · have hlt' := UInt64.lt_iff_toNat_lt.mp hlt
    rw [if_pos hlt]
    omega
  · have hle : cap.toNat ≤ s.pos.toNat := Nat.le_of_not_lt (mt UInt64.lt_iff_toNat_lt.mpr hlt)
    have hone : (1 : UInt64) ≤ cap := UInt64.le_iff_toNat_le.mpr hcap'
    rw [if_neg hlt, UInt64.toNat_sub_of_le _ _ hone, UInt64.toNat_one]
    omega

theorem Holds.close (h : s.Holds cap memory text) (terminator : α) :
    (s.close cap terminator).Cut cap memory terminator text := by
  by_cases hcap : 0 < cap
  · have hcap' : 0 < cap.toNat := UInt64.lt_iff_toNat_lt.mp hcap
    have hlast := h.last hcap
    have hcells : (s.close cap terminator).cells =
        Function.update s.cells (min text.length (cap.toNat - 1)) terminator := by
      simp only [Sink.close, if_pos hcap, store, hlast]
    have hstores : (s.close cap terminator).stores =
        min text.length (cap.toNat - 1) :: s.stores := by
      simp only [Sink.close, if_pos hcap, store, hlast]
    refine ⟨?_, fun i hi ↦ ?_, fun _ ↦ ?_, fun i hi ↦ ?_, fun i hi ↦ ?_⟩
    · simpa only [Sink.close, if_pos hcap, store] using h.pos
    · have hlen : i < text.length := by omega
      rw [hcells, Function.update_of_ne (by omega), h.cells, if_pos (by omega),
        List.getD_eq_getElem _ _ hlen, List.getElem?_eq_getElem hlen]
    · rw [hcells, Function.update_self]
    · have hbeyond : min text.length (cap.toNat - 1) < i := by
        rcases hi with hi | rfl
        · exact hi
        · exact absurd hcap (UInt64.lt_irrefl _)
      rw [hcells, Function.update_of_ne (by omega), h.cells]
      by_cases hroom : i + 1 < cap.toNat
      · rw [if_pos hroom, List.getD_eq_default _ _ (by omega)]
      · rw [if_neg hroom]
    · rw [hstores] at hi
      rcases List.mem_cons.mp hi with rfl | hi
      · omega
      · exact h.inside i hi
  · have hsame : s.close cap terminator = s := if_neg hcap
    have hzero : cap.toNat = 0 := by
      have hle := mt UInt64.lt_iff_toNat_lt.mpr hcap
      rw [UInt64.toNat_zero] at hle
      omega
    rw [hsame]
    refine ⟨h.pos, fun i hi ↦ ?_, fun hpos ↦ absurd hpos hcap, fun i _ ↦ ?_, h.inside⟩
    · omega
    · rw [h.cells, if_neg (by omega)]

end Sink

end Foundations
