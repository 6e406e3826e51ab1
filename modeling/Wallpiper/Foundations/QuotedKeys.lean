import Wallpiper.Foundations.CText

/-!
# Looking up keys in the text of an object

A key between quotes is looked for as plain text in an object that is written
without blanks.  Quotes stand only around keys, so the first occurrence is the
member with this key, in whatever order the members are.
-/

namespace Foundations.QuotedKeys

open CText

/-- What follows the first occurrence of a pattern, as `strstr` locates it. -/
def afterFirst (pattern : Bytes) : Bytes → Option Bytes
  | [] => if pattern = [] then some [] else none
  | c :: s =>
      if pattern <+: c :: s then some ((c :: s).drop pattern.length) else afterFirst pattern s

def quoted (key : Bytes) : Bytes := 34 :: (key ++ [34])

def memberText (m : Bytes × Bytes) : Bytes := quoted m.1 ++ 58 :: m.2

/-- The members between braces, with commas and no blanks. -/
def objectText (members : List (Bytes × Bytes)) : Bytes :=
  123 :: ([44].intercalate (members.map memberText) ++ [125])

/-- Text that can stand as a key between quotes. -/
structure IsKey (key : Bytes) : Prop where
  nonempty : key ≠ []
  quote : 34 ∉ key
  colon : 58 ∉ key

instance (key : Bytes) : Decidable (IsKey key) :=
  decidable_of_iff (key ≠ [] ∧ 34 ∉ key ∧ 58 ∉ key)
    ⟨fun h ↦ ⟨h.1, h.2.1, h.2.2⟩, fun h ↦ ⟨h.nonempty, h.quote, h.colon⟩⟩

/-! ## Skipping -/

theorem afterFirst_of_not_prefix {pattern : Bytes} {c : UInt8} {s : Bytes}
    (h : ¬ pattern <+: c :: s) : afterFirst pattern (c :: s) = afterFirst pattern s := by
  rw [afterFirst, if_neg h]

theorem afterFirst_quoted_append {key front : Bytes} (hfront : 34 ∉ front) (s : Bytes) :
    afterFirst (quoted key) (front ++ s) = afterFirst (quoted key) s := by
  induction front with
  | nil => rfl
  | cons c front ih =>
      have hc : 34 ≠ c := fun heq ↦ hfront (heq ▸ List.mem_cons_self)
      have hnot : ¬ quoted key <+: c :: (front ++ s) :=
        fun h ↦ hc (List.cons_prefix_cons.mp h).1
      rw [List.cons_append, afterFirst_of_not_prefix hnot,
        ih fun hmem ↦ hfront (List.mem_cons_of_mem c hmem)]

theorem afterFirst_quoted_self (key s : Bytes) :
    afterFirst (quoted key) (quoted key ++ s) = some s := by
  have hprefix : quoted key <+: 34 :: (key ++ [34] ++ s) := List.prefix_append (quoted key) s
  rw [quoted, List.cons_append, afterFirst]
  exact (if_pos hprefix).trans (congrArg some (@List.drop_left _ (quoted key) s))

/-- Another key does not start with this one and its closing quote. -/
theorem not_prefix_of_isKey {key key' : Bytes} (hkey : IsKey key) (hkey' : IsKey key')
    (hne : key' ≠ key) (s : Bytes) : ¬ quoted key <+: 34 :: (key' ++ 34 :: s) := by
  intro h
  have hpattern : key ++ [34] <+: key' ++ 34 :: s := (List.cons_prefix_cons.mp h).2
  have hprefix : key <+: key' :=
    prefix_of_prefix_append_cons hkey.quote ((List.prefix_append key [34]).trans hpattern)
  obtain ⟨rest, rfl⟩ := hprefix
  rw [List.append_assoc, List.prefix_append_right_inj] at hpattern
  cases rest with
  | nil => exact hne (List.append_nil key)
  | cons c rest =>
      have hc : 34 = c := (List.cons_prefix_cons.mp hpattern).1
      exact hkey'.quote (hc ▸ List.mem_append_right key List.mem_cons_self)

/-- A closing quote is followed by a colon. -/
theorem not_prefix_colon_of_isKey {key : Bytes} (hkey : IsKey key) (s : Bytes) :
    ¬ quoted key <+: 34 :: 58 :: s := by
  intro h
  have hpattern : key ++ [34] <+: 58 :: s := (List.cons_prefix_cons.mp h).2
  cases key with
  | nil => exact hkey.nonempty rfl
  | cons c key =>
      have hc : c = 58 := (List.cons_prefix_cons.mp hpattern).1
      exact hkey.colon (hc ▸ List.mem_cons_self)

theorem afterFirst_member_of_ne {key : Bytes} {m : Bytes × Bytes} (hkey : IsKey key)
    (hkey' : IsKey m.1) (hvalue : 34 ∉ m.2) (hne : m.1 ≠ key) (s : Bytes) :
    afterFirst (quoted key) (memberText m ++ s) = afterFirst (quoted key) s := by
  have htext : memberText m ++ s = 34 :: (m.1 ++ 34 :: 58 :: (m.2 ++ s)) := by
    simp [memberText, quoted]
  have hcolon : 34 ∉ (58 : UInt8) :: m.2 := by simp [hvalue]
  rw [htext, afterFirst_of_not_prefix (not_prefix_of_isKey hkey hkey' hne _),
    afterFirst_quoted_append hkey'.quote,
    afterFirst_of_not_prefix (not_prefix_colon_of_isKey hkey _), ← List.cons_append,
    afterFirst_quoted_append hcolon]

/-! ## The member with a key -/

/-- Whatever the order of the members is, the text behind a key is its value up to
the comma or the brace. -/
theorem afterFirst_objectText {members : List (Bytes × Bytes)}
    (hkeys : ∀ m ∈ members, IsKey m.1) (hvalues : ∀ m ∈ members, 34 ∉ m.2)
    (hnodup : (members.map Prod.fst).Nodup) {m : Bytes × Bytes} (hm : m ∈ members) :
    ∃ c, (c = 44 ∨ c = 125) ∧ ∃ rest,
      afterFirst (quoted m.1) (objectText members) = some (58 :: (m.2 ++ c :: rest)) := by
  have hbrace : afterFirst (quoted m.1) (objectText members) =
      afterFirst (quoted m.1) ([44].intercalate (members.map memberText) ++ [125]) :=
    @afterFirst_quoted_append m.1 [123] (by decide) _
  rw [hbrace]
  clear hbrace
  induction members with
  | nil => exact absurd hm List.not_mem_nil
  | cons m' members ih =>
      have hself : ∀ s,
          afterFirst (quoted m'.1) (memberText m' ++ s) = some (58 :: (m'.2 ++ s)) := by
        intro s
        rw [memberText, List.append_assoc, afterFirst_quoted_self, List.cons_append]
      cases members with
      | nil =>
          obtain rfl := List.mem_singleton.mp hm
          refine ⟨125, .inr rfl, [], ?_⟩
          rw [List.map_singleton, List.intercalate_singleton]
          exact hself [125]
      | cons m'' members =>
          have htext : [44].intercalate ((m' :: m'' :: members).map memberText) ++ [125] =
              memberText m' ++ ([44] ++ ([44].intercalate ((m'' :: members).map memberText) ++
                [125])) := by
            rw [List.map_cons, List.map_cons, List.intercalate_cons_cons, ← List.map_cons]
            simp only [List.append_assoc]
          rw [htext]
          rcases List.mem_cons.mp hm with rfl | hmem
          · exact ⟨44, .inl rfl, _, hself _⟩
          · have hne : m'.1 ≠ m.1 := by
              intro heq
              exact (List.nodup_cons.mp hnodup).1 (heq ▸ List.mem_map_of_mem hmem)
            have hkeys' : ∀ k ∈ m'' :: members, IsKey k.1 :=
              fun k hk ↦ hkeys k (List.mem_cons_of_mem m' hk)
            rw [afterFirst_member_of_ne (hkeys m hm) (hkeys m' List.mem_cons_self)
              (hvalues m' List.mem_cons_self) hne, afterFirst_quoted_append (by decide)]
            exact ih hkeys' (fun k hk ↦ hvalues k (List.mem_cons_of_mem m' hk))
              (List.nodup_cons.mp hnodup).2 hmem

theorem mem_intercalate_singleton {sep c : UInt8} {fields : List Bytes}
    (h : c ∈ [sep].intercalate fields) : c = sep ∨ ∃ field ∈ fields, c ∈ field := by
  induction fields with
  | nil => exact absurd h List.not_mem_nil
  | cons f fields ih =>
      cases fields with
      | nil =>
          rw [List.intercalate_singleton] at h
          exact .inr ⟨f, List.mem_cons_self, h⟩
      | cons g fields =>
          rw [List.intercalate_cons_cons] at h
          rcases List.mem_append.mp h with h | h
          · rcases List.mem_append.mp h with h | h
            · exact .inr ⟨f, List.mem_cons_self, h⟩
            · exact .inl (List.mem_singleton.mp h)
          · rcases ih h with hsep | ⟨field, hfield, hc⟩
            · exact .inl hsep
            · exact .inr ⟨field, List.mem_cons_of_mem f hfield, hc⟩

/-- The text of an object holds its keys, its values and punctuation. -/
theorem mem_objectText {c : UInt8} {members : List (Bytes × Bytes)}
    (h : c ∈ objectText members) :
    c ∈ [34, 44, 58, 123, 125] ∨ ∃ m ∈ members, c ∈ m.1 ∨ c ∈ m.2 := by
  simp only [objectText, List.mem_cons, List.mem_append, List.not_mem_nil, or_false] at h
  rcases h with rfl | h | rfl
  · exact .inl (by simp)
  · rcases mem_intercalate_singleton h with rfl | ⟨field, hfield, hc⟩
    · exact .inl (by simp)
    · obtain ⟨m, hm, rfl⟩ := List.mem_map.mp hfield
      simp only [memberText, quoted, List.mem_append, List.mem_cons, List.not_mem_nil,
        or_false] at hc
      rcases hc with (rfl | hc | rfl) | rfl | hc
      · exact .inl (by simp)
      · exact .inr ⟨m, hm, .inl hc⟩
      · exact .inl (by simp)
      · exact .inl (by simp)
      · exact .inr ⟨m, hm, .inr hc⟩
  · exact .inl (by simp)

end Foundations.QuotedKeys
