import Mathlib.Data.List.Dedup
import Mathlib.Data.Finset.Card

/-!
# Small maps in arrays

Keys and values side by side in an array of limited length.  A value is stored
over the old one of its key, or at the end if there is room; an entry is
removed by putting the last one in its place.  The map is compared with the
history of what was stored.
-/

namespace Foundations

variable {κ ν α : Type*}

/-! ## Removal -/

/-- Without the entry at `i`, whose place the last one takes. -/
def removeSwap (xs : List α) (i : ℕ) : List α :=
  match xs.getLast? with
  | none => xs
  | some last => (xs.set i last).dropLast

theorem removeSwap_last (front : List α) (a : α) :
    removeSwap (front ++ [a]) front.length = front := by
  simp [removeSwap]

theorem removeSwap_middle (front back : List α) (a last : α) :
    removeSwap (front ++ a :: (back ++ [last])) front.length = front ++ last :: back := by
  have hlast : (front ++ a :: (back ++ [last])).getLast? = some last := by
    rw [← List.cons_append, ← List.append_assoc, List.getLast?_concat]
  have hset : (front ++ a :: (back ++ [last])).set front.length last =
      (front ++ last :: back) ++ [last] := by simp
  rw [removeSwap, hlast]
  simp only [hset, List.dropLast_concat]

theorem perm_removeSwap {xs : List α} {i : ℕ} {a : α} (h : xs[i]? = some a) :
    xs.Perm (a :: removeSwap xs i) := by
  obtain ⟨hi, rfl⟩ := List.getElem?_eq_some_iff.mp h
  have hlength : (xs.take i).length = i := List.length_take_of_le hi.le
  have hsplit : xs = xs.take i ++ xs[i] :: xs.drop (i + 1) := by
    rw [List.getElem_cons_drop, List.take_append_drop]
  generalize xs.take i = front, xs[i] = a, xs.drop (i + 1) = back at hlength hsplit
  subst hlength hsplit
  rcases List.eq_nil_or_concat back with rfl | ⟨rest, last, rfl⟩
  · rw [removeSwap_last]
    exact List.perm_append_singleton a front
  · rw [List.concat_eq_append, removeSwap_middle]
    calc (front ++ a :: (rest ++ [last])).Perm (a :: (front ++ (rest ++ [last]))) :=
          List.perm_middle
      List.Perm _ (a :: (front ++ last :: rest)) :=
          ((List.perm_append_singleton last rest).append_left front).cons a

/-! ## Lookup -/

variable [DecidableEq κ]

def valueOf (xs : List (κ × ν)) (k : κ) : Option ν :=
  (xs.find? fun e ↦ decide (e.1 = k)).map Prod.snd

def storeValue (capacity : ℕ) (xs : List (κ × ν)) (k : κ) (v : ν) : List (κ × ν) :=
  match xs.findIdx? fun e ↦ decide (e.1 = k) with
  | some i => xs.set i (k, v)
  | none => if xs.length < capacity then xs ++ [(k, v)] else xs

/-- The value stored last. -/
def lastValue (history : List (κ × ν)) (k : κ) : Option ν := valueOf history.reverse k

theorem valueOf_eq_some_iff {xs : List (κ × ν)} (hnodup : (xs.map Prod.fst).Nodup) {k : κ} {v : ν} :
    valueOf xs k = some v ↔ (k, v) ∈ xs := by
  induction xs with
  | nil => simp [valueOf]
  | cons e xs ih =>
      rw [List.map_cons, List.nodup_cons] at hnodup
      unfold valueOf at ih ⊢
      by_cases hk : e.1 = k
      · subst hk
        have hnew : (e.1, v) ∉ xs := fun h ↦ hnodup.1 (List.mem_map.mpr ⟨_, h, rfl⟩)
        simp [hnew, Prod.ext_iff, eq_comm]
      · rw [List.find?_cons_of_neg (by simpa using hk), ih hnodup.2, List.mem_cons]
        have hne : (k, v) ≠ e := fun h ↦ hk (congrArg Prod.fst h).symm
        simp [hne]

theorem lastValue_concat (history : List (κ × ν)) (k l : κ) (v : ν) :
    lastValue (history ++ [(k, v)]) l = if k = l then some v else lastValue history l := by
  rw [lastValue, List.reverse_append, valueOf]
  by_cases hkl : k = l
  · simp [hkl]
  · simp [hkl, lastValue, valueOf]

theorem lastValue_eq_none_iff {history : List (κ × ν)} {k : κ} :
    lastValue history k = none ↔ k ∉ history.map Prod.fst := by
  simp only [lastValue, valueOf, Option.map_eq_none_iff, List.find?_eq_none, List.mem_reverse,
    decide_eq_true_eq, List.mem_map, not_exists, not_and]

/-- The array holds, for keys of the history, the values stored last, and all
of them as long as there is room. -/
structure StoresLast (capacity : ℕ) (history xs : List (κ × ν)) : Prop where
  nodup : (xs.map Prod.fst).Nodup
  length : xs.length ≤ capacity
  last : ∀ k v, (k, v) ∈ xs → lastValue history k = some v
  all : xs.length < capacity → ∀ k ∈ history.map Prod.fst, k ∈ xs.map Prod.fst

namespace StoresLast

variable {capacity : ℕ} {history xs : List (κ × ν)}

theorem nil (capacity : ℕ) : StoresLast capacity ([] : List (κ × ν)) [] :=
  ⟨List.nodup_nil, Nat.zero_le _, fun _ _ h ↦ absurd h List.not_mem_nil,
    fun _ _ h ↦ absurd h List.not_mem_nil⟩

/-- A value stored over an old one. -/
theorem replace (h : StoresLast capacity history xs) {i : ℕ} {k : κ} {old v : ν}
    (hi : xs[i]? = some (k, old)) :
    StoresLast capacity (history ++ [(k, v)]) (xs.set i (k, v)) := by
  obtain ⟨hlt, hold⟩ := List.getElem?_eq_some_iff.mp hi
  have hkeys : (xs.set i (k, v)).map Prod.fst = xs.map Prod.fst := by
    rw [List.map_set]
    apply List.ext_getElem?
    intro j
    by_cases hij : i = j
    · subst hij
      rw [List.getElem?_set_self (by simpa using hlt), List.getElem?_map, hi]
      rfl
    · rw [List.getElem?_set_ne hij]
  have hnodup : ((xs.set i (k, v)).map Prod.fst).Nodup := hkeys ▸ h.nodup
  have hself : (k, v) ∈ xs.set i (k, v) :=
    List.mem_of_getElem? (List.getElem?_set_self hlt)
  refine ⟨hnodup, by simpa using h.length, fun l w hlw ↦ ?_, fun hroom l hl ↦ ?_⟩
  · rw [lastValue_concat]
    split
    · rename_i hkl
      subst hkl
      have hboth := ((valueOf_eq_some_iff hnodup).mpr hself).symm.trans
        ((valueOf_eq_some_iff hnodup).mpr hlw)
      exact hboth
    · rename_i hkl
      rcases List.mem_or_eq_of_mem_set hlw with hmem | heq
      · exact h.last l w hmem
      · exact absurd (congrArg Prod.fst heq).symm hkl
  · rw [hkeys]
    rw [List.map_append] at hl
    rcases List.mem_append.mp hl with hl | hl
    · exact h.all (by simpa using hroom) l hl
    · rw [List.mem_singleton.mp hl]
      exact List.mem_map.mpr ⟨_, List.mem_of_getElem? hi, rfl⟩

theorem store (h : StoresLast capacity history xs) (k : κ) (v : ν) :
    StoresLast capacity (history ++ [(k, v)]) (storeValue capacity xs k v) := by
  unfold storeValue
  split
  · rename_i i hfound
    obtain ⟨hlt, hkey, -⟩ := List.findIdx?_eq_some_iff_getElem.mp hfound
    have hentry : xs[i]? = some (k, xs[i].2) := by
      rw [List.getElem?_eq_getElem hlt, ← of_decide_eq_true hkey]
    exact h.replace hentry
  · rename_i hnone
    have hnew : ∀ l w, (l, w) ∈ xs → k ≠ l := by
      rintro l w hmem rfl
      exact absurd (List.findIdx?_eq_none_iff.mp hnone _ hmem) (by simp)
    have hkept : ∀ l w, (l, w) ∈ xs → lastValue (history ++ [(k, v)]) l = some w := by
      intro l w hmem
      rw [lastValue_concat, if_neg (hnew l w hmem)]
      exact h.last l w hmem
    split
    · rename_i hroom
      refine ⟨?_, ?_, fun l w hlw ↦ ?_, fun _ l hl ↦ ?_⟩
      · rw [List.map_append, List.map_singleton, List.nodup_append]
        refine ⟨h.nodup, List.nodup_singleton k, ?_⟩
        rintro l hl l' hl' rfl
        obtain ⟨⟨_, w⟩, hmem, rfl⟩ := List.mem_map.mp hl
        exact hnew _ w hmem (List.mem_singleton.mp hl').symm
      · rw [List.length_append, List.length_singleton]
        exact hroom
      · rcases List.mem_append.mp hlw with hmem | hself
        · exact hkept l w hmem
        · obtain ⟨rfl, rfl⟩ := Prod.mk.inj (List.mem_singleton.mp hself)
          rw [lastValue_concat, if_pos rfl]
      · rw [List.map_append] at hl ⊢
        rcases List.mem_append.mp hl with hl | hl
        · exact List.mem_append_left _ (h.all hroom l hl)
        · exact List.mem_append_right _ hl
    · rename_i hfull
      exact ⟨h.nodup, h.length, hkept, fun hroom ↦ absurd hroom hfull⟩

theorem mem_history (h : StoresLast capacity history xs) {k : κ} {v : ν} (hmem : (k, v) ∈ xs) :
    k ∈ history.map Prod.fst := by
  by_contra hk
  exact absurd ((lastValue_eq_none_iff.mpr hk).symm.trans (h.last k v hmem)) (by simp)

/-- Nothing is lost while no more different keys come than there are places. -/
theorem valueOf_eq (h : StoresLast capacity history xs)
    (hroom : (history.map Prod.fst).dedup.length ≤ capacity) (k : κ) :
    valueOf xs k = lastValue history k := by
  by_cases hk : k ∈ xs.map Prod.fst
  · obtain ⟨⟨_, v⟩, hmem, rfl⟩ := List.mem_map.mp hk
    rw [(valueOf_eq_some_iff h.nodup).mpr hmem, h.last _ v hmem]
  · have hnone : valueOf xs k = none := by
      rw [Option.eq_none_iff_forall_ne_some]
      intro v hv
      exact hk (List.mem_map.mpr ⟨_, (valueOf_eq_some_iff h.nodup).mp hv, rfl⟩)
    rw [hnone]
    symm
    rw [lastValue_eq_none_iff]
    intro hhistory
    have hfull : capacity ≤ xs.length := by
      by_contra hlt
      exact hk (h.all (not_le.mp hlt) k hhistory)
    have hsub : k :: xs.map Prod.fst ⊆ (history.map Prod.fst).dedup := by
      intro l hl
      rw [List.mem_dedup]
      rcases List.mem_cons.mp hl with rfl | hl
      · exact hhistory
      · obtain ⟨⟨_, w⟩, hmem, rfl⟩ := List.mem_map.mp hl
        exact h.mem_history hmem
    have hlength := (List.subperm_of_subset (List.nodup_cons.mpr ⟨hk, h.nodup⟩) hsub).length_le
    rw [List.length_cons, List.length_map] at hlength
    omega

end StoresLast

end Foundations
