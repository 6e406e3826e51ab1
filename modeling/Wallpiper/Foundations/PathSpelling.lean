import Mathlib.Data.List.Destutter
import Mathlib.Data.List.DropRight

/-!
# Spellings of paths

Repeated slashes and a slash at the end do not change which file a path names.
The spelling of a path is what is left when they are dropped.
-/

namespace Foundations.PathSpelling

/-- Two bytes that are not both a slash. -/
def Single (a b : UInt8) : Prop := a ≠ 47 ∨ b ≠ 47

instance : DecidableRel Single := fun a b ↦ inferInstanceAs (Decidable (a ≠ 47 ∨ b ≠ 47))

def collapse (path : List UInt8) : List UInt8 := path.destutter Single

/-- Slashes at the end are dropped; the root directory keeps its own. -/
def dropTrailing : List UInt8 → List UInt8
  | [] => []
  | c :: cs => c :: cs.rdropWhile (· == 47)

def spelling (path : List UInt8) : List UInt8 := dropTrailing (collapse path)

theorem mem_destutter'_single {c : UInt8} (hc : c ≠ 47) (a : UInt8) (path : List UInt8) :
    c ∈ path.destutter' Single a ↔ c ∈ a :: path := by
  induction path generalizing a with
  | nil => rw [List.destutter'_nil]
  | cons b path ih =>
      by_cases hab : Single a b
      · rw [List.destutter'_cons_pos path hab, List.mem_cons, ih b, List.mem_cons (b := a)]
      · have hboth : a = 47 ∧ b = 47 := by
          unfold Single at hab
          push Not at hab
          exact hab
        rw [List.destutter'_cons_neg path hab, ih a, hboth.1, hboth.2]
        simp [hc]

theorem mem_dropTrailing {c : UInt8} (hc : c ≠ 47) (path : List UInt8) :
    c ∈ dropTrailing path ↔ c ∈ path := by
  have hdrop : ∀ cs : List UInt8, c ∈ cs.rdropWhile (· == 47) ↔ c ∈ cs := by
    intro cs
    constructor
    · exact fun h ↦ (List.rdropWhile_prefix _ cs).subset h
    · intro h
      rw [← List.rdropWhile_append_rtakeWhile (p := (· == 47)) (l := cs)] at h
      rcases List.mem_append.mp h with h | h
      · exact h
      · exact absurd (by simpa using List.mem_rtakeWhile_imp h) hc
  cases path with
  | nil => rfl
  | cons d cs => rw [dropTrailing, List.mem_cons, List.mem_cons, hdrop]

/-- A spelling has the bytes of the path other than slashes. -/
theorem mem_spelling {c : UInt8} (hc : c ≠ 47) (path : List UInt8) :
    c ∈ spelling path ↔ c ∈ path := by
  rw [spelling, mem_dropTrailing hc, collapse]
  cases path with
  | nil => rfl
  | cons a path => rw [List.destutter_cons', mem_destutter'_single hc]

/-- Behind single slashes only one is dropped. -/
theorem length_dropTrailing {path : List UInt8} (h : path.IsChain Single) :
    path.length ≤ (dropTrailing path).length + 1 := by
  cases path with
  | nil => exact Nat.zero_le _
  | cons a cs =>
      have hcs : cs.length ≤ (cs.rdropWhile (· == 47)).length + 1 := by
        have htail : cs.IsChain Single := h.tail
        induction cs using List.reverseRecOn with
        | nil => exact Nat.zero_le _
        | append_singleton cs b _ =>
            by_cases hb : b = 47
            · rw [List.rdropWhile_concat_pos _ _ _ (by simp [hb])]
              cases cs using List.reverseRecOn with
              | nil => simp
              | append_singleton cs c =>
                  have hcb : List.IsChain Single (cs ++ [c]) ∧ Single c b := by simpa using htail
                  have hc : c ≠ 47 := hcb.2.resolve_right fun h ↦ h hb
                  rw [List.rdropWhile_concat_neg _ _ _ (by simp [hc]), List.length_append,
                    List.length_singleton]
            · rw [List.rdropWhile_concat_neg _ _ _ (by simp [hb])]
              exact Nat.le_succ _
      simp only [dropTrailing, List.length_cons]
      omega

theorem destutter'_append_single {a : UInt8} (path : List UInt8) {name : List UInt8}
    (h : ∀ c ∈ name, c ≠ 47) :
    (path ++ name).destutter' Single a = path.destutter' Single a ++ name := by
  induction path generalizing a with
  | nil =>
      rw [List.nil_append, List.destutter'_nil, List.singleton_append]
      induction name generalizing a with
      | nil => rfl
      | cons c name ih =>
          have hac : Single a c := .inr (h c List.mem_cons_self)
          rw [List.destutter'_cons_pos _ hac, ih fun d hd ↦ h d (List.mem_cons_of_mem c hd)]
  | cons b path ih =>
      rw [List.cons_append]
      by_cases hab : Single a b
      · rw [List.destutter'_cons_pos _ hab, List.destutter'_cons_pos _ hab, ih, List.cons_append]
      · rw [List.destutter'_cons_neg _ hab, List.destutter'_cons_neg _ hab, ih]

theorem collapse_eq_tail (path : List UInt8) : collapse path = (path.destutter' Single 0).tail := by
  cases path with
  | nil => rfl
  | cons a path =>
      have hzero : Single 0 a := .inl (by decide)
      rw [collapse, List.destutter_cons', List.destutter'_cons_pos path hzero, List.tail_cons]

theorem collapse_append (path : List UInt8) {name : List UInt8} (h : ∀ c ∈ name, c ≠ 47) :
    collapse (path ++ name) = collapse path ++ name := by
  rw [collapse_eq_tail, collapse_eq_tail, destutter'_append_single path h,
    List.tail_append_of_ne_nil (List.destutter'_ne_nil path Single)]

/-- The spelling of a path to a name ends in the name. -/
theorem spelling_append {name : List UInt8} (hne : name ≠ []) (h : ∀ c ∈ name, c ≠ 47)
    (dir : List UInt8) : spelling (dir ++ 47 :: name) = collapse (dir ++ [47]) ++ name := by
  have hsplit : dir ++ 47 :: name = (dir ++ [47]) ++ name := by simp
  rw [spelling, hsplit, collapse_append _ h]
  have hdir : collapse (dir ++ [47]) ≠ [] := by
    rw [collapse, ne_eq, List.destutter_eq_nil]
    simp
  obtain ⟨c, cs, hcs⟩ := List.exists_cons_of_ne_nil hdir
  have hlast : (cs ++ name).rdropWhile (· == 47) = cs ++ name := by
    rw [List.rdropWhile_eq_self_iff]
    intro hnil
    rw [List.getLast_append_of_ne_nil hnil hne]
    simpa using h _ (List.getLast_mem hne)
  rw [hcs, List.cons_append, dropTrailing, hlast]

end Foundations.PathSpelling
