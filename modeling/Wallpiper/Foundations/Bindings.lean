import Mathlib.Data.List.AList

/-!
# Bindings that nobody shares

A finite map from keys to holders.  A holder that is not bound yet may be bound
to any key, and giving up a holder removes all its keys, so that no holder ever
has two.
-/

namespace Foundations

variable {κ ι : Type*} [DecidableEq κ]

abbrev Bindings (κ ι : Type*) := AList fun _ : κ ↦ ι

namespace Bindings

/-- Some key is bound to the holder. -/
def claimed [DecidableEq ι] (m : Bindings κ ι) (i : ι) : Bool := m.entries.any fun e ↦ e.2 == i

/-- Without the keys of a holder. -/
def release [DecidableEq ι] (m : Bindings κ ι) (i : ι) : Bindings κ ι :=
  { entries := m.entries.filter fun e ↦ e.2 ≠ i
    nodupKeys := m.nodupKeys.sublist List.filter_sublist }

/-- No holder has two keys. -/
def Exclusive (m : Bindings κ ι) : Prop :=
  ∀ k l i, m.lookup k = some i → m.lookup l = some i → k = l

theorem lookup_insert_eq_some {m : Bindings κ ι} {k l : κ} {i j : ι}
    (h : (m.insert k i).lookup l = some j) : l = k ∧ j = i ∨ l ≠ k ∧ m.lookup l = some j := by
  by_cases hl : l = k
  · subst hl
    rw [AList.lookup_insert] at h
    exact .inl ⟨rfl, (Option.some.inj h).symm⟩
  · rw [AList.lookup_insert_ne hl] at h
    exact .inr ⟨hl, h⟩

theorem entries_perm_erase {m : Bindings κ ι} {k : κ} {i : ι} (h : m.lookup k = some i) :
    m.entries.Perm (⟨k, i⟩ :: (m.erase k).entries) := by
  have hkey : k ∈ m.keys := by
    rw [← AList.mem_keys, ← AList.lookup_isSome, h]
    rfl
  obtain ⟨j, before, after, _, hentries, herase⟩ := List.exists_of_kerase hkey
  have hmem : (⟨k, j⟩ : Sigma fun _ : κ ↦ ι) ∈ m.entries := by
    rw [hentries]
    simp
  obtain rfl : i = j := Option.some.inj (h.symm.trans (AList.mem_lookup_iff.mpr hmem))
  have hrest : (m.erase k).entries = before ++ after := herase
  rw [hrest, hentries]
  exact List.perm_middle

theorem exclusive_empty : Exclusive (∅ : Bindings κ ι) := by
  intro k l i hk
  exact absurd hk (by simp)

variable [DecidableEq ι]

theorem claimed_iff {m : Bindings κ ι} {i : ι} :
    claimed m i = true ↔ ∃ k, m.lookup k = some i := by
  simp only [claimed, List.any_eq_true, beq_iff_eq]
  constructor
  · rintro ⟨⟨k, j⟩, hmem, rfl⟩
    exact ⟨k, AList.mem_lookup_iff.mpr hmem⟩
  · rintro ⟨k, hk⟩
    exact ⟨⟨k, i⟩, AList.mem_lookup_iff.mp hk, rfl⟩

theorem lookup_release {m : Bindings κ ι} {i j : ι} {k : κ} :
    (release m i).lookup k = some j ↔ m.lookup k = some j ∧ j ≠ i := by
  have hmem : ∀ m : Bindings κ ι,
      m.lookup k = some j ↔ (⟨k, j⟩ : Sigma fun _ : κ ↦ ι) ∈ m.entries :=
    fun m ↦ AList.mem_lookup_iff
  rw [hmem, hmem, release, List.mem_filter]
  simp

theorem Exclusive.insert {m : Bindings κ ι} (h : Exclusive m) (k : κ) {i : ι}
    (hi : claimed m i = false) : Exclusive (m.insert k i) := by
  have hfree : ∀ l, m.lookup l ≠ some i := by
    intro l hl
    rw [claimed_iff.mpr ⟨l, hl⟩] at hi
    exact absurd hi (by simp)
  intro l l' j hl hl'
  rcases lookup_insert_eq_some hl with ⟨rfl, rfl⟩ | ⟨_, hold⟩
  · rcases lookup_insert_eq_some hl' with ⟨rfl, _⟩ | ⟨_, hold'⟩
    · rfl
    · exact absurd hold' (hfree l')
  · rcases lookup_insert_eq_some hl' with ⟨rfl, rfl⟩ | ⟨_, hold'⟩
    · exact absurd hold (hfree l)
    · exact h l l' j hold hold'

theorem Exclusive.release {m : Bindings κ ι} (h : Exclusive m) (i : ι) :
    Exclusive (release m i) := by
  intro k l j hk hl
  exact h k l j (lookup_release.mp hk).1 (lookup_release.mp hl).1

end Bindings

end Foundations
