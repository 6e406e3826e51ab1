import Mathlib.Data.Finset.Card
import Mathlib.Data.Set.Function

/-!
# Bounded interning tables

A table hands out identifiers for keys.  A key that is stored gets its stored
identifier; any other key gets the next fresh one and is stored while there
is room.  Once the table is full, new keys get a fresh identifier each time.
Identifiers are the values of `issue` on a counter, which need not be
injective beyond the numbers in use.
-/

namespace Foundations

structure Interner (κ ι : Type*) where
  slots : List (κ × ι)
  next : ℕ

namespace Interner

variable {κ ι : Type*} [DecidableEq κ] {cap : ℕ} {issue : ℕ → ι}

def keys (t : Interner κ ι) : List κ := t.slots.map Prod.fst

def lookup (t : Interner κ ι) (k : κ) : Option ι :=
  (t.slots.find? fun s ↦ s.1 = k).map Prod.snd

def intern (cap : ℕ) (issue : ℕ → ι) (t : Interner κ ι) (k : κ) : ι × Interner κ ι :=
  match t.lookup k with
  | some id => (id, t)
  | none =>
      if cap ≤ t.slots.length then (issue t.next, { t with next := t.next + 1 })
      else (issue t.next, ⟨t.slots ++ [(k, issue t.next)], t.next + 1⟩)

def internAll (cap : ℕ) (issue : ℕ → ι) (t : Interner κ ι) : List κ → List ι × Interner κ ι
  | [] => ([], t)
  | k :: ks =>
      let here := intern cap issue t k
      let rest := internAll cap issue here.2 ks
      (here.1 :: rest.1, rest.2)

/-! ## One lookup -/

theorem lookup_eq_none_iff {t : Interner κ ι} {k : κ} : t.lookup k = none ↔ k ∉ t.keys := by
  simp only [lookup, keys, Option.map_eq_none_iff, List.find?_eq_none, List.mem_map,
    decide_eq_true_eq, not_exists, not_and]

theorem mem_slots_of_lookup {t : Interner κ ι} {k : κ} {id : ι} (h : t.lookup k = some id) :
    (k, id) ∈ t.slots := by
  obtain ⟨⟨k', id'⟩, hfind, rfl⟩ := Option.map_eq_some_iff.mp h
  have hkey : k' = k := by simpa using List.find?_some hfind
  exact hkey ▸ List.mem_of_find?_eq_some hfind

theorem lookup_of_mem_slots {t : Interner κ ι} (hkeys : t.keys.Nodup) {k : κ} {id : ι}
    (h : (k, id) ∈ t.slots) : t.lookup k = some id := by
  cases hl : t.lookup k with
  | none => exact absurd (List.mem_map_of_mem h) (lookup_eq_none_iff.mp hl)
  | some id' =>
      have hmem := mem_slots_of_lookup hl
      have heq := List.inj_on_of_nodup_map hkeys hmem h rfl
      rw [(Prod.mk.inj heq).2]

theorem lookup_append {s : List (κ × ι)} {n m : ℕ} {k k' : κ} {id : ι}
    (hk : (⟨s, n⟩ : Interner κ ι).lookup k = none) :
    (⟨s ++ [(k, id)], m⟩ : Interner κ ι).lookup k' =
      if k' = k then some id else (⟨s, n⟩ : Interner κ ι).lookup k' := by
  simp only [lookup, List.find?_append, Option.map_eq_none_iff] at hk ⊢
  by_cases heq : k' = k
  · subst heq
    simp [hk]
  · have hne : k ≠ k' := fun h ↦ heq h.symm
    simp [heq, hne]

/-- The three things that interning a key can do. -/
theorem intern_cases (cap : ℕ) (issue : ℕ → ι) (t : Interner κ ι) (k : κ) :
    (∃ id, t.lookup k = some id ∧ intern cap issue t k = (id, t)) ∨
      (t.lookup k = none ∧ cap ≤ t.slots.length ∧
        intern cap issue t k = (issue t.next, { t with next := t.next + 1 })) ∨
      (t.lookup k = none ∧ t.slots.length < cap ∧
        intern cap issue t k = (issue t.next, ⟨t.slots ++ [(k, issue t.next)], t.next + 1⟩)) := by
  cases hl : t.lookup k with
  | some id => exact Or.inl ⟨id, rfl, by simp [intern, hl]⟩
  | none =>
      right
      by_cases hcap : cap ≤ t.slots.length
      · exact Or.inl ⟨rfl, hcap, by simp [intern, hl, hcap]⟩
      · exact Or.inr ⟨rfl, Nat.lt_of_not_le hcap, by simp [intern, hl, hcap]⟩

theorem next_le_intern (cap : ℕ) (issue : ℕ → ι) (t : Interner κ ι) (k : κ) :
    t.next ≤ (intern cap issue t k).2.next := by
  obtain ⟨id, _, h⟩ | ⟨_, _, h⟩ | ⟨_, _, h⟩ := intern_cases cap issue t k
  · rw [h]
  all_goals
    rw [h]
    exact Nat.le_succ _

theorem next_le_internAll (cap : ℕ) (issue : ℕ → ι) (t : Interner κ ι) (ks : List κ) :
    t.next ≤ (internAll cap issue t ks).2.next := by
  induction ks generalizing t with
  | nil => exact le_refl _
  | cons k ks ih => exact (next_le_intern cap issue t k).trans (ih _)

/-! ## Every identifier belongs to one key -/

/-- What holds of a table and of everything it has handed out. -/
structure Sound (cap : ℕ) (issue : ℕ → ι) (first : ℕ) (t : Interner κ ι)
    (log : List (κ × ι)) : Prop where
  keys_nodup : t.keys.Nodup
  length_le : t.slots.length ≤ cap
  slots_sub : ∀ p ∈ t.slots, p ∈ log
  issued : ∀ p ∈ log, ∃ n, first ≤ n ∧ n < t.next ∧ p.2 = issue n
  owner : ∀ p ∈ log, ∀ q ∈ log, p.2 = q.2 → p.1 = q.1
  stable : ∀ p ∈ log, ∀ id, t.lookup p.1 = some id → p.2 = id
  full : ∀ p ∈ log, t.lookup p.1 = none → cap ≤ t.slots.length

theorem Sound.empty (cap first : ℕ) (issue : ℕ → ι) :
    Sound cap issue first (⟨[], first⟩ : Interner κ ι) [] := by
  constructor
  all_goals simp [keys]

variable {first : ℕ} {t : Interner κ ι} {log : List (κ × ι)}

/-- The next identifier has not been handed out. -/
theorem Sound.fresh (h : Sound cap issue first t log)
    (hinj : Set.InjOn issue {n | n < t.next + 1}) {p : κ × ι} (hp : p ∈ log) :
    p.2 ≠ issue t.next := by
  obtain ⟨n, _, hn, heq⟩ := h.issued p hp
  intro hfresh
  have hsame : n = t.next := by
    apply hinj
    · exact Nat.lt_succ_of_lt hn
    · exact Nat.lt_succ_self _
    · rw [← heq, hfresh]
  omega

/-- Handing out a pair once more. -/
theorem Sound.again (h : Sound cap issue first t log) {p : κ × ι} (hp : p ∈ log) :
    Sound cap issue first t (log ++ [p]) := by
  have hsub : ∀ q ∈ log ++ [p], q ∈ log := by
    intro q hq
    rcases List.mem_append.mp hq with hq | hq
    · exact hq
    · exact List.mem_singleton.mp hq ▸ hp
  refine ⟨h.keys_nodup, h.length_le, ?slots_sub, ?issued, ?owner, ?stable, ?full⟩
  case slots_sub =>
    intro q hq
    exact List.mem_append_left _ (h.slots_sub q hq)
  case issued =>
    intro q hq
    exact h.issued q (hsub q hq)
  case owner =>
    intro q hq q' hq'
    exact h.owner q (hsub q hq) q' (hsub q' hq')
  case stable =>
    intro q hq
    exact h.stable q (hsub q hq)
  case full =>
    intro q hq
    exact h.full q (hsub q hq)

theorem Sound.issued_next (h : Sound cap issue first t log) (hfirst : first ≤ t.next) (k : κ) :
    ∀ p ∈ log ++ [(k, issue t.next)], ∃ n, first ≤ n ∧ n < t.next + 1 ∧ p.2 = issue n := by
  intro p hp
  rcases List.mem_append.mp hp with hp | hp
  · obtain ⟨n, hlow, hn, hpn⟩ := h.issued p hp
    exact ⟨n, hlow, Nat.lt_succ_of_lt hn, hpn⟩
  · rw [List.mem_singleton.mp hp]
    exact ⟨t.next, hfirst, Nat.lt_succ_self _, rfl⟩

theorem Sound.owner_next (h : Sound cap issue first t log)
    (hinj : Set.InjOn issue {n | n < t.next + 1}) (k : κ) :
    ∀ p ∈ log ++ [(k, issue t.next)], ∀ q ∈ log ++ [(k, issue t.next)],
      p.2 = q.2 → p.1 = q.1 := by
  intro p hp q hq hpq
  rcases List.mem_append.mp hp with hp | hp
  · rcases List.mem_append.mp hq with hq | hq
    · exact h.owner p hp q hq hpq
    · rw [List.mem_singleton.mp hq] at hpq
      exact absurd hpq (h.fresh hinj hp)
  · rw [List.mem_singleton.mp hp] at hpq ⊢
    rcases List.mem_append.mp hq with hq | hq
    · exact absurd hpq.symm (h.fresh hinj hq)
    · rw [List.mem_singleton.mp hq]

/-- A key that a full table turns away gets an identifier of its own. -/
theorem Sound.turnAway (h : Sound cap issue first t log) (hfirst : first ≤ t.next) {k : κ}
    (hl : t.lookup k = none) (hcap : cap ≤ t.slots.length)
    (hinj : Set.InjOn issue {n | n < t.next + 1}) :
    Sound cap issue first { t with next := t.next + 1 } (log ++ [(k, issue t.next)]) := by
  refine ⟨h.keys_nodup, h.length_le, ?slots_sub, h.issued_next hfirst k, h.owner_next hinj k,
    ?stable, ?full⟩
  case slots_sub =>
    intro p hp
    exact List.mem_append_left _ (h.slots_sub p hp)
  case stable =>
    intro p hp id hid
    rcases List.mem_append.mp hp with hp | hp
    · exact h.stable p hp id hid
    · rw [List.mem_singleton.mp hp] at hid
      exact absurd (hl.symm.trans hid) (by simp)
  case full =>
    intro _ _ _
    exact hcap

/-- A key that the table has room for is stored. -/
theorem Sound.store (h : Sound cap issue first t log) (hfirst : first ≤ t.next) {k : κ}
    (hl : t.lookup k = none) (hroom : t.slots.length < cap)
    (hinj : Set.InjOn issue {n | n < t.next + 1}) :
    Sound cap issue first ⟨t.slots ++ [(k, issue t.next)], t.next + 1⟩
      (log ++ [(k, issue t.next)]) := by
  refine ⟨?keys_nodup, ?length_le, ?slots_sub, h.issued_next hfirst k, h.owner_next hinj k,
    ?stable, ?full⟩
  case keys_nodup =>
    simp only [keys, List.map_append, List.map_cons, List.map_nil, List.nodup_append,
      List.nodup_singleton, List.mem_singleton, ne_eq]
    refine ⟨h.keys_nodup, trivial, ?_⟩
    rintro a ha b rfl rfl
    exact lookup_eq_none_iff.mp hl ha
  case length_le =>
    simpa using Nat.succ_le_of_lt hroom
  case slots_sub =>
    intro p hp
    rcases List.mem_append.mp hp with hp | hp
    · exact List.mem_append_left _ (h.slots_sub p hp)
    · exact List.mem_append_right _ hp
  case stable =>
    intro p hp id hid
    rw [lookup_append (n := t.next) hl] at hid
    rcases List.mem_append.mp hp with hp | hp
    · by_cases hpk : p.1 = k
      · -- a handed-out key that is not stored means a full table
        have hcap := h.full p hp (by rw [hpk]; exact hl)
        omega
      · rw [if_neg hpk] at hid
        exact h.stable p hp id hid
    · rw [List.mem_singleton.mp hp] at hid ⊢
      rw [if_pos rfl] at hid
      exact Option.some.inj hid
  case full =>
    intro p hp hnone
    rw [lookup_append (n := t.next) hl] at hnone
    by_cases hpk : p.1 = k
    · rw [if_pos hpk] at hnone
      exact absurd hnone (by simp)
    · rw [if_neg hpk] at hnone
      rcases List.mem_append.mp hp with hp | hp
      · have hcap := h.full p hp hnone
        omega
      · exact absurd (congrArg Prod.fst (List.mem_singleton.mp hp)) hpk

theorem Sound.intern (h : Sound cap issue first t log) (hfirst : first ≤ t.next) (k : κ)
    (hinj : Set.InjOn issue {n | n < (intern cap issue t k).2.next}) :
    Sound cap issue first (intern cap issue t k).2
      (log ++ [(k, (intern cap issue t k).1)]) := by
  obtain ⟨id, hl, heq⟩ | ⟨hl, hcap, heq⟩ | ⟨hl, hroom, heq⟩ :=
    intern_cases cap issue t k
  · rw [heq]
    exact h.again (h.slots_sub _ (mem_slots_of_lookup hl))
  · rw [heq] at hinj ⊢
    exact h.turnAway hfirst hl hcap hinj
  · rw [heq] at hinj ⊢
    exact h.store hfirst hl hroom hinj

theorem Sound.internAll (h : Sound cap issue first t log) (hfirst : first ≤ t.next) (ks : List κ)
    (hinj : Set.InjOn issue {n | n < (internAll cap issue t ks).2.next}) :
    Sound cap issue first (internAll cap issue t ks).2
      (log ++ ks.zip (internAll cap issue t ks).1) := by
  induction ks generalizing t log with
  | nil => simpa [Interner.internAll] using h
  | cons k ks ih =>
      have hnext := next_le_intern cap issue t k
      have hrest := next_le_internAll cap issue
        (Interner.intern cap issue t k).2 ks
      have hhere := h.intern hfirst k (hinj.mono fun n hn ↦ hn.trans_le hrest)
      have hall := ih hhere (hfirst.trans hnext) hinj
      simpa [Interner.internAll] using hall

/-! ## When all identifiers differ -/

/-- An identifier issued earlier comes back exactly for the keys stored
under it. -/
theorem mem_internAll_iff {n : ℕ} {t : Interner κ ι} (hn : n < t.next) (ks : List κ)
    (hinj : Set.InjOn issue {m | m < (internAll cap issue t ks).2.next}) :
    issue n ∈ (internAll cap issue t ks).1 ↔ ∃ k ∈ ks, t.lookup k = some (issue n) := by
  induction ks generalizing t with
  | nil => simp [internAll]
  | cons k ks ih =>
      have hle := next_le_intern cap issue t k
      have hrest := next_le_internAll cap issue (intern cap issue t k).2 ks
      have htail := ih (hn.trans_le hle) hinj
      have hhead : issue n = (intern cap issue t k).1 ↔ t.lookup k = some (issue n) := by
        obtain ⟨id, hl, h⟩ | ⟨hl, _, h⟩ | ⟨hl, _, h⟩ :=
          intern_cases cap issue t k
        · rw [h, hl, Option.some.injEq]
          exact eq_comm
        all_goals
          have hlt : t.next < (intern cap issue t k).2.next := by
            rw [h]
            exact Nat.lt_succ_self _
          rw [h, hl]
          constructor
          · intro heq
            have hsame : n = t.next := hinj (hn.trans_le (hle.trans hrest))
              (hlt.trans_le hrest) heq
            omega
          · intro hnone
            exact absurd hnone (by simp)
      have hlookup : ∀ k', (intern cap issue t k).2.lookup k' = some (issue n) ↔
          t.lookup k' = some (issue n) := by
        intro k'
        obtain ⟨id, hl, h⟩ | ⟨hl, _, h⟩ | ⟨hl, _, h⟩ :=
          intern_cases cap issue t k
        · rw [h]
        · rw [h]
          exact Iff.rfl
        · have hfresh : issue t.next ≠ issue n := by
            intro heq
            have hlt : t.next < (intern cap issue t k).2.next := by
              rw [h]
              exact Nat.lt_succ_self _
            have hsame : t.next = n := hinj (hlt.trans_le hrest)
              (hn.trans_le (hle.trans hrest)) heq
            omega
          rw [h, lookup_append (n := t.next) hl]
          by_cases hk : k' = k
          · subst hk
            simp [hl, hfresh]
          · rw [if_neg hk]
      simp only [internAll, List.mem_cons, hhead, htail, hlookup, exists_eq_or_imp]

/-- The stored keys after one more key is seen. -/
def storeKey (cap : ℕ) (stored : List κ) (k : κ) : List κ :=
  if k ∈ stored ∨ cap ≤ stored.length then stored else stored ++ [k]

theorem keys_intern (cap : ℕ) (issue : ℕ → ι) (t : Interner κ ι) (k : κ) :
    (intern cap issue t k).2.keys = storeKey cap t.keys k := by
  have hlen : t.keys.length = t.slots.length := List.length_map _
  obtain ⟨id, hl, h⟩ | ⟨hl, hcap, h⟩ | ⟨hl, hroom, h⟩ :=
    intern_cases cap issue t k
  · have hmem : k ∈ t.keys := by
      by_contra hnot
      rw [lookup_eq_none_iff.mpr hnot] at hl
      exact absurd hl (by simp)
    rw [h, storeKey, if_pos (Or.inl hmem)]
  · rw [h, storeKey, if_pos (Or.inr (hlen ▸ hcap))]
    rfl
  · have hnot : ¬(k ∈ t.keys ∨ cap ≤ t.keys.length) := by
      rw [hlen, not_or]
      exact ⟨lookup_eq_none_iff.mp hl, Nat.not_le_of_lt hroom⟩
    rw [h, storeKey, if_neg hnot]
    simp [keys]

/-- Keys that follow a stored predecessor stay closed under it: when there is
room for a key, its predecessor was not turned away either. -/
theorem Sound.closed_intern {R : κ → κ → Prop} (h : Sound cap issue first t log)
    (hclosed : ∀ k ∈ t.keys, ∀ k', R k' k → k' ∈ t.keys) {k : κ}
    (hpred : ∀ k', R k' k → ∃ id, (k', id) ∈ log) :
    ∀ l ∈ (Interner.intern cap issue t k).2.keys, ∀ l', R l' l →
      l' ∈ (Interner.intern cap issue t k).2.keys := by
  rw [keys_intern]
  unfold storeKey
  split
  · exact hclosed
  · rename_i hstore
    intro l hl l' hR
    rcases List.mem_append.mp hl with hl | hl
    · exact List.mem_append_left _ (hclosed l hl l' hR)
    · obtain rfl : l = k := by simpa using hl
      obtain ⟨id, hlog⟩ := hpred l' hR
      by_contra hnot
      have hcap := h.full _ hlog
        (lookup_eq_none_iff.mpr fun hmem ↦ hnot (List.mem_append_left _ hmem))
      rw [← List.length_map (f := Prod.fst)] at hcap
      exact hstore (Or.inr hcap)

/-- A key occurs twice only when it is not stored and the table is used up
by the time of its first occurrence. -/
def RepeatsUnstored (cap : ℕ) (stored ks : List κ) : Prop :=
  ∀ (i j : ℕ) (k : κ), i < j → ks[i]? = some k → ks[j]? = some k →
    k ∉ stored ∧ cap ≤ (stored ++ ks.take i).toFinset.card

theorem subset_storeKey (cap : ℕ) (stored : List κ) (k : κ) :
    stored ⊆ storeKey cap stored k := by
  unfold storeKey
  split
  · exact List.Subset.refl _
  · exact List.subset_append_left _ _

theorem mem_storeKey {stored : List κ} {k l : κ} (h : l ∈ storeKey cap stored k) :
    l ∈ stored ∨ l = k := by
  unfold storeKey at h
  split at h
  · exact .inl h
  · exact (List.mem_append.mp h).imp_right List.mem_singleton.mp

/-- A key is turned away by a full table only. -/
theorem not_mem_storeKey {stored : List κ} {k : κ} :
    k ∉ storeKey cap stored k ↔ k ∉ stored ∧ cap ≤ stored.length := by
  unfold storeKey
  split
  · rename_i hor
    constructor
    · intro hnot
      exact ⟨hnot, hor.resolve_left hnot⟩
    · intro hfull
      exact hfull.1
  · rename_i hor
    constructor
    · intro hnot
      exact absurd (List.mem_append_right _ (List.mem_singleton_self k)) hnot
    · intro hfull
      exact absurd (.inr hfull.2) hor

/-- Whether the table is used up is the same before and after storing a key. -/
theorem le_card_storeKey {stored : List κ} (hnodup : stored.Nodup) (k : κ) (ks : List κ) :
    cap ≤ (storeKey cap stored k ++ ks).toFinset.card ↔
      cap ≤ (stored ++ k :: ks).toFinset.card := by
  unfold storeKey
  split
  · rename_i hor
    rcases hor with hin | hcap
    · have hsame : (stored ++ ks).toFinset = (stored ++ k :: ks).toFinset := by
        ext l
        simp only [List.mem_toFinset, List.mem_append, List.mem_cons]
        constructor
        · rintro (hl | hl)
          · exact .inl hl
          · exact .inr (.inr hl)
        · rintro (hl | rfl | hl)
          · exact .inl hl
          · exact .inl hin
          · exact .inr hl
      rw [hsame]
    · have hle : ∀ ls, cap ≤ (stored ++ ls).toFinset.card := by
        intro ls
        rw [← List.toFinset_card_of_nodup hnodup] at hcap
        rw [List.toFinset_append]
        exact hcap.trans (Finset.card_le_card Finset.subset_union_left)
      exact iff_of_true (hle ks) (hle (k :: ks))
  · rw [List.append_assoc, List.singleton_append]

theorem repeatsUnstored_cons {stored : List κ} (hnodup : stored.Nodup) (k : κ) (ks : List κ) :
    RepeatsUnstored cap stored (k :: ks) ↔
      ¬(k ∈ ks ∧ k ∈ storeKey cap stored k) ∧
        RepeatsUnstored cap (storeKey cap stored k) ks := by
  have hcard : (stored ++ List.take 0 (k :: ks)).toFinset.card = stored.length := by
    rw [List.take_zero, List.append_nil, List.toFinset_card_of_nodup hnodup]
  constructor
  · intro h
    have hhead : k ∈ ks → k ∉ storeKey cap stored k := by
      intro hmem
      obtain ⟨j, hj⟩ := List.getElem?_of_mem hmem
      have hpair := h 0 (j + 1) k (Nat.succ_pos j) rfl (by simpa using hj)
      rw [hcard] at hpair
      exact not_mem_storeKey.mpr hpair
    refine ⟨fun hstored ↦ hhead hstored.1 hstored.2, ?_⟩
    intro i j k' hij hi hj
    obtain ⟨hnot, hfull⟩ := h (i + 1) (j + 1) k' (Nat.succ_lt_succ hij) (by simpa using hi)
      (by simpa using hj)
    refine ⟨?_, (le_card_storeKey hnodup k _).mpr hfull⟩
    intro hmem
    rcases mem_storeKey hmem with hold | rfl
    · exact hnot hold
    · exact hhead (List.mem_of_getElem? hi) hmem
  · rintro ⟨hhead, htail⟩ i j k' hij hi hj
    obtain ⟨j, rfl⟩ := Nat.exists_eq_add_one_of_ne_zero (Nat.ne_of_gt (Nat.zero_lt_of_lt hij))
    cases i with
    | zero =>
        obtain rfl : k = k' := by simpa using hi
        have hmem : k ∈ ks := List.mem_of_getElem? (by simpa using hj)
        rw [hcard]
        exact not_mem_storeKey.mp fun hstored ↦ hhead ⟨hmem, hstored⟩
    | succ i =>
        obtain ⟨hnot, hfull⟩ := htail i j k' (Nat.lt_of_succ_lt_succ hij) (by simpa using hi)
          (by simpa using hj)
        exact ⟨fun hmem ↦ hnot (subset_storeKey cap stored k hmem),
          (le_card_storeKey hnodup k _).mp hfull⟩

theorem internAll_nodup_iff {t : Interner κ ι} {log : List (κ × ι)}
    (h : Sound cap issue first t log) (hfirst : first ≤ t.next) (ks : List κ)
    (hinj : Set.InjOn issue {n | n < (internAll cap issue t ks).2.next}) :
    (internAll cap issue t ks).1.Nodup ↔ RepeatsUnstored cap t.keys ks := by
  induction ks generalizing t log with
  | nil => simp [internAll, RepeatsUnstored]
  | cons k ks ih =>
      have hnext := next_le_intern cap issue t k
      have hrest := next_le_internAll cap issue (intern cap issue t k).2 ks
      have hhere := h.intern hfirst k (hinj.mono fun n hn ↦ hn.trans_le hrest)
      have hlog : (k, (intern cap issue t k).1) ∈ log ++ [(k, (intern cap issue t k).1)] := by
        simp
      obtain ⟨n, _, hn, hid⟩ := hhere.issued _ hlog
      -- the first identifier comes back exactly when the key does and is stored
      have hmem : (intern cap issue t k).1 ∈ (internAll cap issue (intern cap issue t k).2 ks).1 ↔
          k ∈ ks ∧ k ∈ storeKey cap t.keys k := by
        rw [← keys_intern cap issue]
        have hiff := mem_internAll_iff hn ks hinj
        rw [← hid] at hiff
        rw [hiff]
        constructor
        · rintro ⟨k', hk', hl⟩
          have hslot := mem_slots_of_lookup hl
          obtain rfl : k' = k := hhere.owner _ (hhere.slots_sub _ hslot) _ hlog rfl
          exact ⟨hk', List.mem_map_of_mem hslot⟩
        · rintro ⟨hk, hstored⟩
          obtain ⟨id', hl⟩ := Option.ne_none_iff_exists'.mp
            (fun hnone ↦ lookup_eq_none_iff.mp hnone hstored)
          exact ⟨k, hk, by rw [hl, hhere.stable _ hlog id' hl]⟩
      have htail := ih hhere (hfirst.trans hnext) hinj
      rw [internAll, List.nodup_cons, hmem, htail, keys_intern, repeatsUnstored_cons h.keys_nodup]

end Interner

end Foundations
