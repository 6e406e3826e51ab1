import Mathlib.Data.List.Basic

/-!
# Greedy packing in order

Chunks are offered in order and taken when they fit in the room that is
left; a chunk that does not fit is skipped and the later ones are still
offered.
-/

namespace Foundations.FirstFit

variable {α : Type*}

/-- The room left after offering chunks of the given sizes. -/
def roomAfter (cap : ℕ) : List ℕ → ℕ
  | [] => cap
  | n :: ns => if n ≤ cap then roomAfter (cap - n) ns else roomAfter cap ns

/-- The chunk at position `k` fits when it is offered. -/
def Fits (cap : ℕ) (sizes : List ℕ) (k : ℕ) : Prop :=
  ∃ n, sizes[k]? = some n ∧ n ≤ roomAfter cap (sizes.take k)

instance (cap : ℕ) (sizes : List ℕ) (k : ℕ) : Decidable (Fits cap sizes k) :=
  decidable_of_iff (∃ n ∈ sizes[k]?, n ≤ roomAfter cap (sizes.take k))
    ⟨fun ⟨n, hn, hle⟩ ↦ ⟨n, hn, hle⟩, fun ⟨n, hn, hle⟩ ↦ ⟨n, hn, hle⟩⟩

theorem fits_cons_zero (cap n : ℕ) (ns : List ℕ) : Fits cap (n :: ns) 0 ↔ n ≤ cap := by
  simp [Fits, roomAfter]

theorem fits_cons_succ (cap n : ℕ) (ns : List ℕ) (k : ℕ) :
    Fits cap (n :: ns) (k + 1) ↔ Fits (if n ≤ cap then cap - n else cap) ns k := by
  unfold Fits
  split
  all_goals
    rename_i h
    simp [roomAfter, h]

/-- Appending a chunk when the total stays within the limit. -/
def append (limit : ℕ) (buf chunk : List α) : List α :=
  if buf.length + chunk.length ≤ limit then buf ++ chunk else buf

/-- When everything fits nothing is skipped. -/
theorem foldl_append_of_le {limit : ℕ} (chunks : List (List α)) (buf : List α)
    (h : buf.length + chunks.flatten.length ≤ limit) :
    chunks.foldl (append limit) buf = buf ++ chunks.flatten := by
  induction chunks generalizing buf with
  | nil => simp
  | cons c cs ih =>
      rw [List.flatten_cons, List.length_append] at h
      have hfit : append limit buf c = buf ++ c := if_pos (by omega)
      rw [List.foldl_cons, hfit, ih _ (by rw [List.length_append]; omega), List.flatten_cons,
        List.append_assoc]

/-- The same step when every chunk carries a position that is recorded if
the chunk is taken. -/
def appendAt (limit : ℕ) (out : List α × List ℕ) (chunk : List α × ℕ) : List α × List ℕ :=
  if out.1.length + chunk.1.length ≤ limit then (out.1 ++ chunk.1, out.2 ++ [chunk.2]) else out

/-- The recorded positions are those of the chunks that fit. -/
theorem mem_foldl_appendAt {limit : ℕ} (chunks : List (List α)) (start : ℕ)
    {out : List α × List ℕ} (h : out.1.length ≤ limit) (k : ℕ) :
    k ∈ ((chunks.zipIdx start).foldl (appendAt limit) out).2 ↔
      k ∈ out.2 ∨ ∃ j, k = start + j ∧ Fits (limit - out.1.length) (chunks.map List.length) j := by
  induction chunks generalizing start out with
  | nil => simp [Fits]
  | cons c cs ih =>
      have hshift : (∃ j, k = start + j ∧
          Fits (limit - out.1.length) ((c :: cs).map List.length) j) ↔
          k = start ∧ c.length ≤ limit - out.1.length ∨ ∃ j, k = start + 1 + j ∧
            Fits (if c.length ≤ limit - out.1.length then limit - out.1.length - c.length
              else limit - out.1.length) (cs.map List.length) j := by
        constructor
        · rintro ⟨j, rfl, hj⟩
          cases j with
          | zero => exact Or.inl ⟨rfl, (fits_cons_zero _ _ _).mp hj⟩
          | succ j => exact Or.inr ⟨j, by omega, (fits_cons_succ _ _ _ _).mp hj⟩
        · rintro (⟨rfl, hc⟩ | ⟨j, rfl, hj⟩)
          · exact ⟨0, rfl, (fits_cons_zero _ _ _).mpr hc⟩
          · exact ⟨j + 1, by omega, (fits_cons_succ _ _ _ _).mpr hj⟩
      rw [hshift, List.zipIdx_cons, List.foldl_cons]
      by_cases hfit : out.1.length + c.length ≤ limit
      · have hle : c.length ≤ limit - out.1.length := by omega
        have hstep : appendAt limit out (c, start) = (out.1 ++ c, out.2 ++ [start]) :=
          if_pos hfit
        rw [hstep, ih (start + 1) (by simpa using hfit), if_pos hle, List.length_append,
          Nat.sub_add_eq]
        simp only [List.mem_append, List.mem_singleton, hle, and_true]
        exact or_assoc
      · have hnot : ¬ c.length ≤ limit - out.1.length := by omega
        have hstep : appendAt limit out (c, start) = out := if_neg hfit
        rw [hstep, ih (start + 1) h, if_neg hnot]
        simp only [hnot, and_false, false_or]

/-- The text is made of the recorded chunks, in order. -/
theorem foldl_appendAt_text {limit : ℕ} {all : List (List α)} (chunks : List (List α)) {start : ℕ}
    (hall : ∀ j, j < chunks.length → all[start + j]? = chunks[j]?) {out : List α × List ℕ}
    (h : out.1 = (out.2.filterMap fun k ↦ all[k]?).flatten) :
    ((chunks.zipIdx start).foldl (appendAt limit) out).1 =
      (((chunks.zipIdx start).foldl (appendAt limit) out).2.filterMap fun k ↦ all[k]?).flatten := by
  induction chunks generalizing start out with
  | nil => exact h
  | cons c cs ih =>
      rw [List.zipIdx_cons, List.foldl_cons]
      apply ih
      · intro j hj
        have hnext := hall (j + 1) (Nat.succ_lt_succ hj)
        rw [List.getElem?_cons_succ] at hnext
        rw [← hnext]
        congr 1
        omega
      · have hhead : all[start]? = some c := by
          simpa using hall 0 (Nat.succ_pos _)
        unfold appendAt
        split
        · simp [h, hhead]
        · exact h

end Foundations.FirstFit
