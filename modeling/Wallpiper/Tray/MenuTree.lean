import Mathlib.Tactic.Linarith
import Wallpiper.Tray.MenuLayout

/-!
# When the D-Bus tree is the real menu

The tree of `GetLayout(0, -1)` is compared with the menu that the depths
describe.  Every entry that the walk reaches is preceded only by entries at
most one level deeper, so an entry after a deeper one is lost; when there is
no such entry, each loop covers a whole block of the list.
-/

namespace Wallpiper.Tray

open Foundations

def entryDepths (entries : List TrayEntry) : List ℤ := entries.map TrayEntry.depth

@[simp] theorem entryDepths_length (entries : List TrayEntry) :
    (entryDepths entries).length = entries.length := List.length_map _

theorem entryDepths_getElem? {entries : List TrayEntry} {k : ℕ} (hk : k < entries.length) :
    (entryDepths entries)[k]? = some entries[k].depth := by
  simp [entryDepths, hk]

/-- The node has the id and the properties of its entry, and those of a submenu if
something is below it. -/
def Shows (entries : List TrayEntry) (node : LayoutNode) (children : Forest LayoutNode) : Prop :=
  ∃ k e hasChildren, node.entry = some k ∧ entries[k]? = some e ∧ node.id = e.dbusId ∧
    node.properties = appendNodeProperties (computeNodeProperties (some e) hasChildren) ∧
      (hasChildren = true ↔ children ≠ .nil)

/-- The forest holds every entry once, in list order, with depth-zero
entries at the top and every other entry below the nearest earlier entry
that is one level up, and shows each entry as it is. -/
structure RealMenu (entries : List TrayEntry) (f : Forest LayoutNode) : Prop where
  preorder : f.preorder.map LayoutNode.entry = (List.range entries.length).map some
  top : ∀ k : ℕ, (entryDepths entries)[k]? = some 0 → f.parents[k]? = some none
  nested : ∀ (k : ℕ) (d : ℤ), (entryDepths entries)[k]? = some d → 0 < d →
    ∃ j : ℕ, f.parents[k]? = some (some j) ∧
      NearestBefore (fun i ↦ (entryDepths entries)[i]? = some (d - 1)) k j
  shown : ∀ node children, (node, children) ∈ f.trees → Shows entries node children

/-- No entry is more than one level shallower than an earlier entry. -/
def NoLaterDrop (entries : List TrayEntry) : Prop :=
  (entryDepths entries).Pairwise fun a b ↦ a ≤ b + 1

instance (entries : List TrayEntry) : Decidable (NoLaterDrop entries) :=
  inferInstanceAs (Decidable (List.Pairwise _ _))

theorem noLaterDrop_iff (entries : List TrayEntry) :
    NoLaterDrop entries ↔ ∀ (j k : ℕ) (hj : j < entries.length) (hk : k < entries.length),
      j < k → entries[j].depth ≤ entries[k].depth + 1 := by
  rw [NoLaterDrop, List.pairwise_iff_getElem]
  constructor
  · intro h j k hj hk hjk
    simpa [entryDepths] using h j k (by simpa using hj) (by simpa using hk) hjk
  · intro h j k hj hk hjk
    simpa [entryDepths] using h j k (by simpa using hj) (by simpa using hk) hjk

/-! ## The skipped run and the loop -/

/-- The run consists of entries at the child depth and stops before the
first entry at another depth. -/
theorem childrenRunLength_spec (entries : List TrayEntry) (i : ℕ) (c : ℤ)
    (hi : i ≤ entries.length) :
    i + childrenRunLength entries i c ≤ entries.length ∧
      (∀ (k : ℕ) (hk : k < entries.length), i ≤ k →
        k < i + childrenRunLength entries i c → entries[k].depth = c) ∧
      ∀ (k : ℕ) (hk : k < entries.length), k = i + childrenRunLength entries i c →
        entries[k].depth ≠ c := by
  fun_induction childrenRunLength entries i c with
  | case1 i h hne =>
      refine ⟨by omega, fun k hk hik hkrun ↦ by omega, ?_⟩
      rintro k hk rfl
      exact hne
  | case2 i h heq ih =>
      obtain ⟨hle, hrun, hstop⟩ := ih h
      refine ⟨by omega, ?_, fun k hk hkeq ↦ hstop k hk (by omega)⟩
      intro k hk hik hkrun
      rcases Nat.eq_or_lt_of_le hik with rfl | hlt
      · simpa using heq
      · exact hrun k hk hlt (by omega)
  | case3 i h =>
      exact ⟨hi, fun k hk hik hkrun ↦ by omega, fun k hk hkeq ↦ by omega⟩

theorem buildMenuChildren_of_length_le {entries : List TrayEntry} {i : ℕ} (c r : ℤ)
    (hi : entries.length ≤ i) : buildMenuChildren entries c r i = .nil := by
  rw [buildMenuChildren, dif_neg (by omega)]

theorem buildMenuChildren_of_depth_ne {entries : List TrayEntry} {i : ℕ} {c : ℤ} (r : ℤ)
    (hi : i < entries.length) (hd : entries[i].depth ≠ c) :
    buildMenuChildren entries c r i = .nil := by
  rw [buildMenuChildren, dif_pos hi, if_neg hd]

theorem buildMenuChildren_of_depth_eq {entries : List TrayEntry} {i : ℕ} {c : ℤ} (r : ℤ)
    (hi : i < entries.length) (hd : entries[i].depth = c) :
    buildMenuChildren entries c r i =
      .cons (buildMenuNode entries (some i) entries[i].dbusId (i + 1) (c + 1) r).1
        (buildMenuNode entries (some i) entries[i].dbusId (i + 1) (c + 1) r).2
        (buildMenuChildren entries c r (i + 1 + childrenRunLength entries (i + 1) (c + 1))) := by
  conv_lhs => rw [buildMenuChildren]
  rw [dif_pos hi, if_pos hd]

theorem buildMenuNode_entry (entries : List TrayEntry) (entry : Option ℕ) (id : ℤ) (i : ℕ)
    (c r : ℤ) : (buildMenuNode entries entry id i c r).1.entry = entry := by
  rw [buildMenuNode]
  split <;> rfl

/-- The children below a node are those of the loop at its first child, or
none when the recursion depth is used up. -/
theorem buildMenuNode_children (entries : List TrayEntry) (entry : Option ℕ) (id : ℤ) (i : ℕ)
    (c r : ℤ) : (buildMenuNode entries entry id i c r).2 = .nil ∨
      ∃ r', (buildMenuNode entries entry id i c r).2 = buildMenuChildren entries c r' i := by
  rw [buildMenuNode]
  split
  · exact Or.inr ⟨_, rfl⟩
  · exact Or.inl rfl

/-- With unlimited recursion depth nothing is cut off. -/
theorem buildMenuNode_unlimited (entries : List TrayEntry) (entry : Option ℕ) (id : ℤ) (i : ℕ)
    (c : ℤ) : (buildMenuNode entries entry id i c (-1)).2 = buildMenuChildren entries c (-1) i := by
  rw [buildMenuNode]
  by_cases hchild : hasChildrenAt entries i c = true
  · simp [hchild]
  · rw [if_neg (by simp [hchild])]
    symm
    by_cases hi : i < entries.length
    · apply buildMenuChildren_of_depth_ne _ hi
      intro hd
      exact hchild (by simp [hasChildrenAt, hi, hd])
    · exact buildMenuChildren_of_length_le _ _ (Nat.le_of_not_lt hi)

/-! ## Reached entries have no drop before them -/

/-- What is known of an entry that the loop from position `i` at child depth
`c` reaches. -/
def Reached (entries : List TrayEntry) (c : ℤ) (i j : ℕ) : Prop :=
  ∃ hj : j < entries.length, i ≤ j ∧ c ≤ entries[j].depth ∧
    ∀ (k : ℕ) (hk : k < entries.length), k < j → i ≤ k →
      entries[k].depth ≤ entries[j].depth + 1

theorem reached_of_mem_preorder (entries : List TrayEntry) (c r : ℤ) (i j : ℕ)
    (hj : some j ∈ (buildMenuChildren entries c r i).preorder.map LayoutNode.entry) :
    Reached entries c i j := by
  induction hn : entries.length - i using Nat.strong_induction_on generalizing c r i with
  | _ n ih =>
    by_cases hi : i < entries.length
    · by_cases hd : entries[i].depth = c
      · rw [buildMenuChildren_of_depth_eq r hi hd] at hj
        simp only [Forest.preorder, List.map_cons, List.map_append, buildMenuNode_entry,
          List.mem_cons, List.mem_append] at hj
        rcases hj with heq | hchild | hsib
        · -- the entry at the loop position itself
          have heq : j = i := Option.some.inj heq
          subst heq
          exact ⟨hi, le_refl _, hd.ge, fun k hk hkj hik ↦ by omega⟩
        · -- an entry below it: only the parent is added in front
          rcases buildMenuNode_children entries (some i) entries[i].dbusId (i + 1) (c + 1) r with
            hnil | ⟨r', hloop⟩
          · rw [hnil] at hchild
            simp [Forest.preorder] at hchild
          · rw [hloop] at hchild
            obtain ⟨hjn, hij, hcj, hbefore⟩ :=
              ih (entries.length - (i + 1)) (by omega) (c + 1) r' (i + 1) hchild rfl
            refine ⟨hjn, by omega, by omega, ?_⟩
            intro k hk hkj hik
            rcases Nat.eq_or_lt_of_le hik with rfl | hlt
            · omega
            · exact hbefore k hk hkj hlt
        · -- an entry of a later child: the skipped run is one level down
          obtain ⟨hle, hrun, _⟩ := childrenRunLength_spec entries (i + 1) (c + 1) (by omega)
          obtain ⟨hjn, hij, hcj, hbefore⟩ :=
            ih (entries.length - (i + 1 + childrenRunLength entries (i + 1) (c + 1)))
              (by omega) c r _ hsib rfl
          refine ⟨hjn, by omega, hcj, ?_⟩
          intro k hk hkj hik
          rcases Nat.eq_or_lt_of_le hik with rfl | hlt
          · omega
          · by_cases hkrun : k < i + 1 + childrenRunLength entries (i + 1) (c + 1)
            · have hkdepth := hrun k hk hlt hkrun
              omega
            · exact hbefore k hk hkj (Nat.le_of_not_lt hkrun)
      · rw [buildMenuChildren_of_depth_ne r hi hd] at hj
        simp [Forest.preorder] at hj
    · rw [buildMenuChildren_of_length_le c r (Nat.le_of_not_lt hi)] at hj
      simp [Forest.preorder] at hj

/-! ## Without drops every loop covers a block -/

theorem PreorderDump.next_le {entries : List TrayEntry} (hpre : PreorderDump entries) {k : ℕ}
    (hk : k < entries.length) (hnext : k + 1 < entries.length) :
    entries[k + 1].depth ≤ entries[k].depth + 1 :=
  PreorderFrom.step_le hpre (entryDepths_getElem? hk) (entryDepths_getElem? hnext)

/-- The forest holds exactly the entries at positions `i` to `e`, at the
depths of the list, the top level being depth `c`. -/
structure Covers (entries : List TrayEntry) (f : Forest LayoutNode) (c i e : ℕ) : Prop where
  preorder : f.preorder.map LayoutNode.entry = (List.range' i (e - i)).map some
  depths : (f.depthsFrom c).map (Nat.cast : ℕ → ℤ) =
    (List.range' i (e - i)).map fun k ↦ (entryDepths entries).getD k 0

theorem Covers.nil (entries : List TrayEntry) (c i : ℕ) : Covers entries .nil c i i :=
  ⟨by simp [Forest.preorder], by simp [Forest.depthsFrom]⟩

theorem range'_split {i m e : ℕ} (him : i < m) (hme : m ≤ e) :
    List.range' i (e - i) = i :: (List.range' (i + 1) (m - (i + 1)) ++ List.range' m (e - m)) := by
  obtain ⟨a, rfl⟩ := Nat.exists_eq_add_of_le (show i + 1 ≤ m from him)
  obtain ⟨b, rfl⟩ := Nat.exists_eq_add_of_le hme
  rw [show i + 1 + a + b - i = (a + b) + 1 by omega, List.range'_succ,
    show i + 1 + a - (i + 1) = a by omega, show i + 1 + a + b - (i + 1 + a) = b by omega,
    List.range'_append_1]

theorem Covers.cons {entries : List TrayEntry} {node : LayoutNode}
    {children siblings : Forest LayoutNode} {c i m e : ℕ} (hnode : node.entry = some i)
    (hdepth : (entryDepths entries).getD i 0 = c) (him : i < m) (hme : m ≤ e)
    (hchildren : Covers entries children (c + 1) (i + 1) m)
    (hsiblings : Covers entries siblings c m e) :
    Covers entries (.cons node children siblings) c i e := by
  constructor
  · rw [Forest.preorder, List.map_cons, List.map_append, hchildren.preorder,
      hsiblings.preorder, range'_split him hme, hnode, List.map_cons, List.map_append]
  · rw [Forest.depthsFrom, List.map_cons, List.map_append, hchildren.depths,
      hsiblings.depths, range'_split him hme, List.map_cons, List.map_append, hdepth]

/-- A forest over the whole list at the depths of the list is the real menu:
parents are determined by depths. -/
theorem Covers.realMenu {entries : List TrayEntry} {f : Forest LayoutNode}
    (h : Covers entries f 0 0 entries.length)
    (hshown : ∀ node children, (node, children) ∈ f.trees → Shows entries node children) :
    RealMenu entries f := by
  have hdepths : f.depths.map (Nat.cast : ℕ → ℤ) = entryDepths entries := by
    rw [Forest.depths, h.depths]
    apply List.ext_getElem
    · simp
    · intro k _ hk
      simp [List.getD_eq_getElem?_getD, List.getElem?_eq_getElem hk]
  have hcast : ∀ (k d : ℕ), f.depths[k]? = some d ↔
      (entryDepths entries)[k]? = some (d : ℤ) := by
    intro k d
    rw [← hdepths, List.getElem?_map, Option.map_eq_some_iff]
    simp
  refine ⟨by simpa [List.range_eq_range'] using h.preorder, ?_, ?_, hshown⟩
  · intro k hk
    exact f.parents_of_depth_zero ((hcast k 0).mpr hk)
  · intro k d hk hd
    obtain ⟨e, rfl⟩ : ∃ e : ℕ, d = (e + 1 : ℕ) := ⟨(d - 1).toNat, by omega⟩
    obtain ⟨j, hj, hnear⟩ := f.parents_of_depth_succ ((hcast k (e + 1)).mpr hk)
    refine ⟨j, hj, ?_⟩
    simpa only [hcast, Nat.cast_add, Nat.cast_one, add_sub_cancel_right] using hnear

/-- Positions `i` to `e` hold the entries from `i` on up to the first one that
is shallower than `c`. -/
structure Block (entries : List TrayEntry) (c i e : ℕ) : Prop where
  le : i ≤ e
  le_length : e ≤ entries.length
  deep : ∀ (k : ℕ) (hk : k < entries.length), i ≤ k → k < e → (c : ℤ) ≤ entries[k].depth
  stop : ∀ (k : ℕ) (hk : k < entries.length), k = e → entries[k].depth < c

theorem Block.nil {entries : List TrayEntry} {c i : ℕ} (hi : i ≤ entries.length)
    (hstop : ∀ hi : i < entries.length, entries[i].depth < c) : Block entries c i i := by
  refine ⟨le_refl i, hi, ?_, ?_⟩
  · intro k hk hik hki
    omega
  · rintro k hk rfl
    exact hstop hk

theorem Block.cons {entries : List TrayEntry} {c i m e : ℕ} (hi : i < entries.length)
    (hd : entries[i].depth = (c : ℤ)) (hchildren : Block entries (c + 1) (i + 1) m)
    (hsiblings : Block entries c m e) : Block entries c i e := by
  have him := hchildren.le
  have hme := hsiblings.le
  refine ⟨by omega, hsiblings.le_length, ?_, hsiblings.stop⟩
  intro k hk hik hke
  rcases Nat.eq_or_lt_of_le hik with rfl | hik
  · exact hd.ge
  · by_cases hkm : k < m
    · have hdeep := hchildren.deep k hk hik hkm
      push_cast at hdeep
      omega
    · exact hsiblings.deep k hk (Nat.le_of_not_lt hkm) hke

/-- A run of children that a grandchild ends: nothing shallower follows. -/
theorem Block.eq_length_of_grandchild {entries : List TrayEntry} {c i m s : ℕ}
    (hdrop : NoLaterDrop entries) (h : Block entries c i m) (hs : s < entries.length)
    (hrun : ∀ (k : ℕ) (hk : k < entries.length), i ≤ k → k < s → entries[k].depth = (c : ℤ))
    (hdeep : (c : ℤ) < entries[s].depth) : m = entries.length := by
  by_contra hne
  have hm : m < entries.length := Nat.lt_of_le_of_ne h.le_length hne
  have hstop := h.stop m hm rfl
  rcases Nat.lt_trichotomy s m with hsm | heq | hms
  · have hnear := (noLaterDrop_iff entries).mp hdrop s m hs hm hsm
    omega
  · subst heq
    omega
  · have hchild := hrun m hm h.le hms
    omega

/-- A run of children that no grandchild ends is the whole block. -/
theorem Block.eq_of_run {entries : List TrayEntry} {c i m s : ℕ} (h : Block entries c i m)
    (his : i ≤ s) (hsn : s ≤ entries.length)
    (hrun : ∀ (k : ℕ) (hk : k < entries.length), i ≤ k → k < s → entries[k].depth = (c : ℤ))
    (hshallow : ∀ hs : s < entries.length, entries[s].depth < c) : m = s := by
  rcases Nat.lt_trichotomy m s with hms | heq | hsm
  · have hm := hms.trans_le hsn
    have hchild := hrun m hm h.le hms
    have hstop := h.stop m hm rfl
    omega
  · exact heq
  · have hs := hsm.trans_le h.le_length
    have hdeep := h.deep s hs his hsm
    have hshallow := hshallow hs
    omega

theorem buildMenuChildren_covers {entries : List TrayEntry} (hpre : PreorderDump entries)
    (hdrop : NoLaterDrop entries) (c i : ℕ) (hi : i ≤ entries.length)
    (hstart : ∀ h : i < entries.length, entries[i].depth ≤ c) :
    ∃ e, Block entries c i e ∧ Covers entries (buildMenuChildren entries c (-1) i) c i e := by
  induction hn : entries.length - i using Nat.strong_induction_on generalizing c i with
  | _ n ih =>
    rcases Nat.eq_or_lt_of_le hi with hend | hlt
    · refine ⟨i, Block.nil hi fun h ↦ absurd hend h.ne, ?_⟩
      rw [buildMenuChildren_of_length_le _ _ hend.ge]
      exact Covers.nil entries c i
    · by_cases hd : entries[i].depth = (c : ℤ)
      · -- the block of the first child, then what follows the skipped run
        have hnext : ∀ h : i + 1 < entries.length, entries[i + 1].depth ≤ (c + 1 : ℕ) := by
          intro h
          have hstep := hpre.next_le hlt h
          push_cast
          omega
        obtain ⟨m, hblock, hchildren⟩ :=
          ih (entries.length - (i + 1)) (by omega) (c + 1) (i + 1) hlt hnext rfl
        obtain ⟨hrunle, hrun, hrunstop⟩ :=
          childrenRunLength_spec entries (i + 1) ((c + 1 : ℕ) : ℤ) hlt
        have hdepth : (entryDepths entries).getD i 0 = (c : ℤ) := by
          simp [List.getD_eq_getElem?_getD, entryDepths_getElem? hlt, hd]
        have him := hblock.le
        rw [buildMenuChildren_of_depth_eq _ hlt hd, buildMenuNode_unlimited]
        push_cast at hchildren hrun hrunstop hrunle
        have his : i + 1 ≤ i + 1 + childrenRunLength entries (i + 1) ((c : ℤ) + 1) :=
          Nat.le_add_right _ _
        generalize i + 1 + childrenRunLength entries (i + 1) ((c : ℤ) + 1) = s at *
        by_cases hdeep : ∃ h : s < entries.length, (c : ℤ) + 1 < entries[s].depth
        · -- a grandchild ends the run, the rest is one block
          obtain ⟨hsn, hsdepth⟩ := hdeep
          obtain rfl := hblock.eq_length_of_grandchild hdrop hsn hrun hsdepth
          have hlast : Block entries c entries.length entries.length :=
            Block.nil (le_refl _) fun h ↦ absurd h (Nat.lt_irrefl _)
          refine ⟨entries.length, Block.cons hlt hd hblock hlast, ?_⟩
          rw [buildMenuChildren_of_depth_ne _ hsn (by omega)]
          exact Covers.cons (buildMenuNode_entry _ _ _ _ _ _) hdepth him (le_refl _)
            hchildren (Covers.nil entries c _)
        · have hshallow : ∀ hs : s < entries.length, entries[s].depth < (c + 1 : ℕ) := by
            intro hs
            have hne := hrunstop s hs rfl
            push_cast
            by_contra hle
            exact hdeep ⟨hs, by omega⟩
          obtain rfl := hblock.eq_of_run his hrunle hrun hshallow
          have hparent : ∀ h : m < entries.length, entries[m].depth ≤ c := by
            intro h
            exact Int.lt_add_one_iff.mp (hblock.stop m h rfl)
          obtain ⟨e, hrest, hsiblings⟩ :=
            ih (entries.length - m) (by omega) c m hrunle hparent rfl
          refine ⟨e, Block.cons hlt hd hblock hrest, ?_⟩
          exact Covers.cons (buildMenuNode_entry _ _ _ _ _ _) hdepth him hrest.le
            hchildren hsiblings
      · refine ⟨i, Block.nil hi fun h ↦ lt_of_le_of_ne (hstart h) hd, ?_⟩
        rw [buildMenuChildren_of_depth_ne _ hlt hd]
        exact Covers.nil entries c i

/-! ## Every subtree is built from its entry -/

/-- The subtree of the entry at a position. -/
def entryTree (entries : List TrayEntry) (k : ℕ) (e : TrayEntry) :
    LayoutNode × Forest LayoutNode :=
  buildMenuNode entries (some k) e.dbusId (k + 1) (e.depth + 1) (-1)

theorem trees_eq_entryTree {entries : List TrayEntry} {c : ℤ} {i : ℕ}
    {t : LayoutNode × Forest LayoutNode}
    (ht : t ∈ (buildMenuChildren entries c (-1) i).trees) :
    ∃ k e, entries[k]? = some e ∧ t = entryTree entries k e := by
  induction hn : entries.length - i using Nat.strong_induction_on generalizing c i with
  | _ n ih =>
    by_cases hi : i < entries.length
    · by_cases hd : entries[i].depth = c
      · rw [buildMenuChildren_of_depth_eq (-1) hi hd] at ht
        rcases List.mem_cons.mp ht with rfl | ht
        · refine ⟨i, entries[i], List.getElem?_eq_getElem hi, ?_⟩
          rw [entryTree, hd]
        · rcases List.mem_append.mp ht with ht | ht
          · rw [buildMenuNode_unlimited] at ht
            exact ih (entries.length - (i + 1)) (by omega) ht rfl
          · exact ih (entries.length - (i + 1 + childrenRunLength entries (i + 1) (c + 1)))
              (by omega) ht rfl
      · rw [buildMenuChildren_of_depth_ne (-1) hi hd] at ht
        exact absurd ht List.not_mem_nil
    · rw [buildMenuChildren_of_length_le c (-1) (Nat.le_of_not_lt hi)] at ht
      exact absurd ht List.not_mem_nil

theorem buildMenuNode_id (entries : List TrayEntry) (entry : Option ℕ) (id : ℤ) (i : ℕ)
    (c d : ℤ) : (buildMenuNode entries entry id i c d).1.id = id := by
  rw [buildMenuNode]
  split <;> rfl

theorem buildMenuNode_properties (entries : List TrayEntry) (entry : Option ℕ) (id : ℤ) (i : ℕ)
    (c d : ℤ) : (buildMenuNode entries entry id i c d).1.properties =
      appendNodeProperties (computeNodeProperties (entry.bind fun i ↦ entries[i]?)
        (hasChildrenAt entries i c)) := by
  rw [buildMenuNode]
  split <;> rfl

theorem entryTree_properties {entries : List TrayEntry} {k : ℕ} {e : TrayEntry}
    (he : entries[k]? = some e) :
    (entryTree entries k e).1.properties =
      appendNodeProperties (computeNodeProperties (some e)
        (hasChildrenAt entries (k + 1) (e.depth + 1))) := by
  rw [entryTree, buildMenuNode_properties, Option.bind_some, he]

/-- The menu of a node says that it has children when something is below it. -/
theorem hasChildrenAt_iff {entries : List TrayEntry} {k : ℕ} {e : TrayEntry} :
    hasChildrenAt entries (k + 1) (e.depth + 1) = true ↔ (entryTree entries k e).2 ≠ .nil := by
  rw [entryTree, buildMenuNode_unlimited]
  by_cases hk : k + 1 < entries.length
  · by_cases hd : entries[k + 1].depth = e.depth + 1
    · rw [buildMenuChildren_of_depth_eq _ hk hd]
      simp [hasChildrenAt, hk, hd]
    · rw [buildMenuChildren_of_depth_ne _ hk hd]
      simp [hasChildrenAt, hk, hd]
  · rw [buildMenuChildren_of_length_le _ _ (Nat.le_of_not_lt hk)]
    simp [hasChildrenAt, hk]

theorem shows_of_mem_trees {entries : List TrayEntry} {node : LayoutNode}
    {children : Forest LayoutNode}
    (h : (node, children) ∈ (buildMenuChildren entries 0 (-1) 0).trees) :
    Shows entries node children := by
  obtain ⟨k, e, he, htree⟩ := trees_eq_entryTree h
  have hfst : node = (entryTree entries k e).1 := congrArg Prod.fst htree
  have hsnd : children = (entryTree entries k e).2 := congrArg Prod.snd htree
  refine ⟨k, e, hasChildrenAt entries (k + 1) (e.depth + 1), ?_, he, ?_, ?_, ?_⟩
  · rw [hfst]
    exact buildMenuNode_entry entries (some k) e.dbusId (k + 1) (e.depth + 1) (-1)
  · rw [hfst]
    exact buildMenuNode_id entries (some k) e.dbusId (k + 1) (e.depth + 1) (-1)
  · rw [hfst, entryTree_properties he]
  · rw [hsnd]
    exact hasChildrenAt_iff

/-! ## The tree of the whole menu -/

def layoutTree (entries : List TrayEntry) : Forest LayoutNode :=
  (buildMenuNode entries none 0 0 0 (-1)).2

theorem handleMenuGetLayout_root (entries : List TrayEntry) (revision : UInt32) :
    (handleMenuGetLayout entries revision 0 (-1)).map (fun reply ↦ reply.2.2) =
      .ok (layoutTree entries) := rfl

theorem realMenu_of_noLaterDrop {entries : List TrayEntry} (hpre : PreorderDump entries)
    (hdrop : NoLaterDrop entries) : RealMenu entries (layoutTree entries) := by
  have hhead : ∀ h : 0 < entries.length, entries[0].depth ≤ (0 : ℕ) := by
    intro h
    have hle := PreorderFrom.head_le hpre (entryDepths_getElem? h)
    push_cast
    omega
  obtain ⟨e, hblock, hcovers⟩ :=
    buildMenuChildren_covers hpre hdrop 0 0 (Nat.zero_le _) hhead
  have hend : e = entries.length := by
    by_contra hne
    have hlt : e < entries.length := Nat.lt_of_le_of_ne hblock.le_length hne
    have hneg := hblock.stop e hlt rfl
    have hpos := PreorderFrom.nonneg hpre (entryDepths_getElem? hlt)
    push_cast at hneg
    omega
  subst hend
  have htree : layoutTree entries = buildMenuChildren entries 0 (-1) 0 :=
    buildMenuNode_unlimited entries none 0 0 0
  push_cast at hcovers
  rw [htree]
  exact hcovers.realMenu fun _ _ h ↦ shows_of_mem_trees h

theorem noLaterDrop_of_realMenu {entries : List TrayEntry}
    (h : RealMenu entries (layoutTree entries)) : NoLaterDrop entries := by
  rw [noLaterDrop_iff]
  intro j k hj hk hjk
  have hmem : some k ∈ (layoutTree entries).preorder.map LayoutNode.entry := by
    rw [h.preorder]
    exact List.mem_map_of_mem (List.mem_range.mpr hk)
  rw [layoutTree, buildMenuNode_unlimited] at hmem
  obtain ⟨_, _, _, hbefore⟩ := reached_of_mem_preorder entries 0 (-1) 0 k hmem
  exact hbefore j hj hjk (Nat.zero_le j)

/-- `GetLayout(0, -1)` answers with the real menu exactly when nothing comes
after a grandchild of an earlier sibling. -/
theorem handleMenuGetLayout_real_iff (entries : List TrayEntry) (revision : UInt32)
    (hpre : PreorderDump entries) :
    (∃ node children,
      handleMenuGetLayout entries revision 0 (-1) = .ok (revision, node, children) ∧
        RealMenu entries children) ↔ NoLaterDrop entries := by
  constructor
  · rintro ⟨node, children, hreply, hreal⟩
    have hchildren : children = layoutTree entries := by
      have h := handleMenuGetLayout_root entries revision
      rw [hreply] at h
      exact Except.ok.inj h
    rw [hchildren] at hreal
    exact noLaterDrop_of_realMenu hreal
  · intro hdrop
    exact ⟨_, layoutTree entries, rfl, realMenu_of_noLaterDrop hpre hdrop⟩

/-- Entries at the given depths, told apart by their ids. -/
def plainEntries (depths : List ℤ) : List TrayEntry :=
  depths.mapIdx fun k d ↦ ⟨d, k.toUInt32, 0, 0, [], k + 1⟩

theorem handleMenuGetLayout_real_submenu :
    ∃ node children,
      handleMenuGetLayout (plainEntries [0, 1, 1, 0]) 1 0 (-1) = .ok (1, node, children) ∧
        RealMenu (plainEntries [0, 1, 1, 0]) children :=
  (handleMenuGetLayout_real_iff (plainEntries [0, 1, 1, 0]) 1 (by decide)).mpr (by decide)

/-- In the menu `0 1 2 1 0` the last entry is lost. -/
theorem handleMenuGetLayout_loses_entries :
    PreorderDump (plainEntries [0, 1, 2, 1, 0]) ∧
      ¬ ∃ node children,
        handleMenuGetLayout (plainEntries [0, 1, 2, 1, 0]) 1 0 (-1) = .ok (1, node, children) ∧
          RealMenu (plainEntries [0, 1, 2, 1, 0]) children := by
  refine ⟨by decide, ?_⟩
  rintro ⟨node, children, hreply, hreal⟩
  have hchildren : children = layoutTree (plainEntries [0, 1, 2, 1, 0]) := by
    have h := handleMenuGetLayout_root (plainEntries [0, 1, 2, 1, 0]) 1
    rw [hreply] at h
    exact Except.ok.inj h
  rw [hchildren] at hreal
  exact absurd (noLaterDrop_of_realMenu hreal) (by decide)

end Wallpiper.Tray
