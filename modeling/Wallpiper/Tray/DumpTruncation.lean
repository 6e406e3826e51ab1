import Wallpiper.Tray.MenuDump

/-!
# Truncated dumps

The buffer of a dump is filled greedily: a line that does not fit is
skipped and shorter lines after it are still written.  The dump shows every
entry below its real parent exactly when an item whose line is skipped never
has a child whose line still fits.
-/

namespace Wallpiper.Tray

open Foundations Foundations.CText

/-- The serializer, with the preorder positions of the items whose lines it
appended. -/
def serializeMenuTrace (bufCap : ℕ) : Menu → ℕ → ℕ → Bytes × List ℕ → Bytes × List ℕ
  | .nil, _, _, out => out
  | .cons item hSubMenu rest, depth, position, out =>
      if depth > 4 then out
      else
        let line := menuLine depth item
        let out := (appendStr bufCap out.1 line,
          if out.1.length + line.length ≥ bufCap then out.2 else out.2 ++ [position])
        let out := serializeMenuTrace bufCap hSubMenu (depth + 1) (position + 1) out
        serializeMenuTrace bufCap rest depth (position + 1 + hSubMenu.size) out

/-- The items whose lines are in the dump, by preorder position. -/
def dumpedPositions (menu : Menu) : List ℕ := (serializeMenuTrace 16384 menu 0 0 ([], [])).2

/-- Below the top level, the nearest earlier entry of the dump that is one
level up exists and is the real parent. -/
def TruthfulDump (menu : Menu) : Prop :=
  ∀ (k d : ℕ), k ∈ dumpedPositions menu → menu.depths[k]? = some (d + 1) →
    ∃ p, menu.parents[k]? = some (some p) ∧
      NearestBefore (fun j ↦ j ∈ dumpedPositions menu ∧ menu.depths[j]? = some d) k p

def lineLengths (menu : Menu) (depth : ℕ) : List ℕ := (menuLines menu depth).map List.length

/-- When the lines are packed in order into 16383 bytes, an item whose line
does not fit has no child whose line fits. -/
def SkipsWholeMenus (menu : Menu) : Prop :=
  ∀ p k : ℕ, menu.parents[k]? = some (some p) →
    ¬ FirstFit.Fits 16383 (lineLengths menu 0) p → ¬ FirstFit.Fits 16383 (lineLengths menu 0) k

instance (menu : Menu) : Decidable (SkipsWholeMenus menu) :=
  decidable_of_iff (∀ k ∈ List.range menu.size, ∀ p ∈ (menu.parents[k]?).join,
      ¬ FirstFit.Fits 16383 (lineLengths menu 0) p →
        ¬ FirstFit.Fits 16383 (lineLengths menu 0) k) <| by
    constructor
    · intro h p k hparent
      have hk : k < menu.size := by
        simpa [Forest.parents] using (List.getElem?_eq_some_iff.mp hparent).1
      exact h k (List.mem_range.mpr hk) p (by simp [hparent])
    · intro h k _ p hp
      apply h p k
      simpa [Option.join_eq_some_iff] using hp

/-! ## The trace records what is in the text -/

theorem serializeMenuTrace_text (bufCap : ℕ) (menu : Menu) (depth position : ℕ)
    (out : Bytes × List ℕ) :
    (serializeMenuTrace bufCap menu depth position out).1 =
      serializeMenu bufCap menu depth out.1 := by
  induction menu generalizing depth position out with
  | nil => rfl
  | cons item hSubMenu rest hsub hrest =>
      rw [serializeMenuTrace, serializeMenu]
      split
      · rfl
      · simp only [hrest, hsub]

theorem menuLines_length (menu : Menu) (depth : ℕ) :
    (menuLines menu depth).length = menu.size := by
  rw [menuLines, List.length_map, Forest.preorderDepthsFrom_eq_zip, List.length_zip]
  simp

theorem serializeMenuTrace_eq_foldl (limit : ℕ) {menu : Menu} {depth : ℕ}
    (hdepths : ∀ d ∈ menu.depthsFrom depth, d ≤ 4) (position : ℕ) (out : Bytes × List ℕ) :
    serializeMenuTrace (limit + 1) menu depth position out =
      ((menuLines menu depth).zipIdx position).foldl (FirstFit.appendAt limit) out := by
  induction menu generalizing depth position out with
  | nil => rfl
  | cons item hSubMenu rest hsub hrest =>
      simp only [Forest.depthsFrom, List.mem_cons, List.mem_append] at hdepths
      have hdepth : ¬ depth > 4 := Nat.not_lt_of_le (hdepths depth (Or.inl rfl))
      have hline : (appendStr (limit + 1) out.1 (menuLine depth item),
          if out.1.length + (menuLine depth item).length ≥ limit + 1 then out.2
          else out.2 ++ [position]) =
          FirstFit.appendAt limit out (menuLine depth item, position) := by
        unfold appendStr FirstFit.appendAt
        by_cases hfit : out.1.length + (menuLine depth item).length ≤ limit
        · rw [if_neg (by omega), if_neg (by omega), if_pos hfit]
        · rw [if_pos (by omega), if_pos (by omega), if_neg hfit]
      rw [serializeMenuTrace, if_neg hdepth]
      simp only [hline]
      rw [hsub fun d hd ↦ hdepths d (Or.inr (Or.inl hd)),
        hrest fun d hd ↦ hdepths d (Or.inr (Or.inr hd)), menuLines_cons, List.zipIdx_cons,
        List.zipIdx_append, List.foldl_cons, List.foldl_append, menuLines_length]

/-- The dump is made of the lines at the dumped positions. -/
theorem dumpMenuToFile_eq_dumped {menu : Menu} (hdepths : ∀ d ∈ menu.depths, d ≤ 4) :
    dumpMenuToFile menu =
      ((dumpedPositions menu).filterMap fun k ↦ (menuLines menu 0)[k]?).flatten := by
  rw [dumpMenuToFile, ← serializeMenuTrace_text 16384 menu 0 0 ([], []), dumpedPositions,
    serializeMenuTrace_eq_foldl 16383 hdepths]
  apply FirstFit.foldl_appendAt_text
  · intro j _
    rw [Nat.zero_add]
  · rfl

theorem mem_dumpedPositions {menu : Menu} (hdepths : ∀ d ∈ menu.depths, d ≤ 4) (k : ℕ) :
    k ∈ dumpedPositions menu ↔ FirstFit.Fits 16383 (lineLengths menu 0) k := by
  rw [dumpedPositions, serializeMenuTrace_eq_foldl 16383 hdepths,
    FirstFit.mem_foldl_appendAt _ _ (Nat.zero_le _)]
  simp [lineLengths]

/-! ## Parents of dumped entries -/

/-- A node with a parent is below the top level. -/
theorem depth_of_parent {menu : Menu} {k p : ℕ} (h : menu.parents[k]? = some (some p)) :
    ∃ d, menu.depths[k]? = some (d + 1) := by
  have hk : k < menu.size := by
    simpa [Forest.parents] using (List.getElem?_eq_some_iff.mp h).1
  rcases menu.parentAt hk with ⟨_, hpar⟩ | ⟨d, _, hdepth, _⟩
  · rw [h] at hpar
    exact absurd hpar (by simp)
  · exact ⟨d, hdepth⟩

theorem TruthfulDump.parent_dumped {menu : Menu} (h : TruthfulDump menu) {p k : ℕ}
    (hparent : menu.parents[k]? = some (some p)) (hk : k ∈ dumpedPositions menu) :
    p ∈ dumpedPositions menu := by
  obtain ⟨d, hd⟩ := depth_of_parent hparent
  obtain ⟨p', hp', _, hdumped, _⟩ := h k d hk hd
  have heq : p' = p := by
    rw [hparent] at hp'
    simpa using hp'.symm
  exact heq ▸ hdumped.1

theorem truthfulDump_of_parents {menu : Menu}
    (h : ∀ p k : ℕ, menu.parents[k]? = some (some p) → k ∈ dumpedPositions menu →
      p ∈ dumpedPositions menu) : TruthfulDump menu := by
  intro k d hk hd
  obtain ⟨p, hparent, hlt, hdepth, hbetween⟩ := menu.parents_of_depth_succ hd
  refine ⟨p, hparent, hlt, ⟨h p k hparent hk, hdepth⟩, ?_⟩
  intro i hpi hik hi
  exact hbetween i hpi hik hi.2

theorem truthfulDump_iff_skipsWholeMenus {menu : Menu} (hdepths : ∀ d ∈ menu.depths, d ≤ 4) :
    TruthfulDump menu ↔ SkipsWholeMenus menu := by
  constructor
  · intro h p k hparent hp hk
    rw [← mem_dumpedPositions hdepths] at hp hk
    exact hp (h.parent_dumped hparent hk)
  · intro h
    apply truthfulDump_of_parents
    intro p k hparent hk
    rw [mem_dumpedPositions hdepths] at hk ⊢
    by_contra hp
    exact h p k hparent hp hk

/-! ## A menu that is not truthful -/

/-- An item with the given number of letters as its text. -/
def letterItem (n : ℕ) : MenuItem :=
  ⟨1, 0, 0, List.replicate n 65, fun b hb ↦ by rw [List.eq_of_mem_replicate hb]; decide⟩

def repeatItem (item : MenuItem) (rest : Menu) : ℕ → Menu
  | 0 => rest
  | n + 1 => .cons item .nil (repeatItem item rest n)

/-- Sixty-one long items leave 35 bytes: too few for a menu title of 100
letters, enough for the item below it. -/
def crowdedMenu : Menu :=
  repeatItem (letterItem 255) (.cons (letterItem 100) (.cons (letterItem 0) .nil .nil) .nil) 61

theorem truthfulDump_small :
    TruthfulDump (.cons (letterItem 4) (.cons (letterItem 0) .nil .nil) .nil) :=
  (truthfulDump_iff_skipsWholeMenus (by decide)).mpr (by decide +kernel)

theorem crowdedMenu_not_truthful :
    (∀ d ∈ crowdedMenu.depths, d ≤ 4) ∧ (∀ item ∈ crowdedMenu.preorder, item.text.length ≤ 255) ∧
      ¬ TruthfulDump crowdedMenu := by
  have hdepths : ∀ d ∈ crowdedMenu.depths, d ≤ 4 := by decide +kernel
  refine ⟨hdepths, by decide +kernel, ?_⟩
  intro h
  have hparent : crowdedMenu.parents[62]? = some (some 61) := by decide +kernel
  have hchild : FirstFit.Fits 16383 (lineLengths crowdedMenu 0) 62 := by decide +kernel
  have htitle : ¬ FirstFit.Fits 16383 (lineLengths crowdedMenu 0) 61 := by decide +kernel
  rw [← mem_dumpedPositions hdepths] at hchild htitle
  exact htitle (h.parent_dumped hparent hchild)

end Wallpiper.Tray
