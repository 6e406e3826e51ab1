import Wallpiper.Tray.MenuTree

/-!
# The views of one menu agree

A client may ask for the whole tree, for the part below one entry down to some
depth, and for the properties of single entries.  Each answer is computed from
the entry list on its own.  While ids are not shared, all of them show the
same tree.
-/

namespace Wallpiper.Tray

open Foundations

/-- The reply to `GetGroupProperties`; ids that no entry carries are left out. -/
def handleMenuGetGroupProperties (entries : List TrayEntry) (ids : List ℤ) :
    List (ℤ × List (String × MenuVariant)) :=
  ids.filterMap fun id ↦
    match findIndexById entries id with
    | none => none
    | some idx =>
        let childDepth := (entries[idx]?.map TrayEntry.depth).getD 0 + 1
        let hasChildren := hasChildrenAt entries (idx + 1) childDepth
        some (id, appendNodeProperties (computeNodeProperties entries[idx]? hasChildren))

/-! ## The recursion depth cuts levels off -/

/-- The depth that the loop over the children is called with, as a number of
levels. -/
def loopLevels (nextRemaining : ℤ) : ℤ :=
  if nextRemaining < 0 then nextRemaining else nextRemaining + 1

theorem levels_loopLevels_cons (r : ℤ) (a : LayoutNode) (cs ss : Forest LayoutNode) :
    (Forest.cons a cs ss).levels (loopLevels r) =
      .cons a (cs.levels r) (ss.levels (loopLevels r)) := by
  unfold loopLevels
  split
  · rename_i hneg
    rw [Forest.levels_of_neg hneg, Forest.levels_of_neg hneg, Forest.levels_of_neg hneg]
  · rename_i hneg
    exact Forest.levels_succ_cons (by omega) a cs ss

/-- A node does not depend on the recursion depth, and what is below it is the
upper part of what is below it without a limit. -/
theorem buildMenuNode_levels {entries : List TrayEntry} {i : ℕ} {c : ℤ}
    (hloop : ∀ r, buildMenuChildren entries c r i =
      (buildMenuChildren entries c (-1) i).levels (loopLevels r))
    (entry : Option ℕ) (id d : ℤ) :
    buildMenuNode entries entry id i c d =
      ((buildMenuNode entries entry id i c (-1)).1,
        (buildMenuNode entries entry id i c (-1)).2.levels d) := by
  rw [buildMenuNode_unlimited]
  by_cases hchild : hasChildrenAt entries i c = true
  · by_cases hd : d = 0
    · rw [hd, Forest.levels_zero, buildMenuNode, buildMenuNode]
      simp [hchild]
    · have hnext : loopLevels (if d > 0 then d - 1 else d) = d := by
        unfold loopLevels
        split <;> split <;> omega
      rw [buildMenuNode, buildMenuNode]
      simp only [hchild, true_and, ne_eq, hd, not_false_eq_true, if_true]
      rw [hloop, hnext]
      simp
  · have hnone : buildMenuChildren entries c (-1) i = .nil := by
      rw [← buildMenuNode_unlimited entries none 0, buildMenuNode]
      simp [hchild]
    rw [hnone, Forest.levels_nil, buildMenuNode, buildMenuNode]
    simp [hchild]

theorem buildMenuChildren_levels (entries : List TrayEntry) (c r : ℤ) (i : ℕ) :
    buildMenuChildren entries c r i =
      (buildMenuChildren entries c (-1) i).levels (loopLevels r) := by
  induction hn : entries.length - i using Nat.strong_induction_on generalizing c r i with
  | _ n ih =>
    by_cases hi : i < entries.length
    · by_cases hd : entries[i].depth = c
      · have hchild := fun r ↦ ih (entries.length - (i + 1)) (by omega) (c + 1) r (i + 1) rfl
        have hnode := buildMenuNode_levels hchild (some i) entries[i].dbusId r
        have hrest := ih (entries.length -
          (i + 1 + childrenRunLength entries (i + 1) (c + 1))) (by omega) c r _ rfl
        rw [buildMenuChildren_of_depth_eq r hi hd, buildMenuChildren_of_depth_eq (-1) hi hd,
          levels_loopLevels_cons, hnode, hrest]
      · rw [buildMenuChildren_of_depth_ne r hi hd, buildMenuChildren_of_depth_ne (-1) hi hd,
          Forest.levels_nil]
    · have hle := Nat.le_of_not_lt hi
      rw [buildMenuChildren_of_length_le c r hle, buildMenuChildren_of_length_le c (-1) hle,
        Forest.levels_nil]

theorem buildMenuNode_cut (entries : List TrayEntry) (entry : Option ℕ) (id : ℤ) (i : ℕ)
    (c d : ℤ) :
    buildMenuNode entries entry id i c d =
      ((buildMenuNode entries entry id i c (-1)).1,
        (buildMenuNode entries entry id i c (-1)).2.levels d) :=
  buildMenuNode_levels (fun r ↦ buildMenuChildren_levels entries c r i) entry id d

/-! ## The views -/

/-- The tree of the whole menu: its root and everything below. -/
def wholeTree (entries : List TrayEntry) : LayoutNode × Forest LayoutNode :=
  buildMenuNode entries none 0 0 0 (-1)

/-- With ids of their own, entries are found by them. -/
theorem findIndexById_of_nodup {entries : List TrayEntry}
    (hnodup : (entries.map TrayEntry.dbusId).Nodup) {k : ℕ} {e : TrayEntry}
    (he : entries[k]? = some e) : findIndexById entries e.dbusId = some k := by
  obtain ⟨hk, rfl⟩ := List.getElem?_eq_some_iff.mp he
  rw [findIndexById, List.findIdx?_eq_some_iff_getElem]
  refine ⟨hk, by simp, ?_⟩
  intro j hjk
  have hne : entries[j].dbusId ≠ entries[k].dbusId := by
    intro heq
    have hk_ids : k < (entries.map TrayEntry.dbusId).length := by rwa [List.length_map]
    have hj_ids : j < (entries.map TrayEntry.dbusId).length := hjk.trans hk_ids
    have hids : (entries.map TrayEntry.dbusId)[j] = (entries.map TrayEntry.dbusId)[k] := by
      rw [List.getElem_map, List.getElem_map, heq]
    have hjk' := hnodup.getElem_inj_iff.mp hids
    omega
  simpa using hne

theorem handleMenuGetLayout_of_entry {entries : List TrayEntry}
    (hnodup : (entries.map TrayEntry.dbusId).Nodup) (hzero : ∀ e ∈ entries, e.dbusId ≠ 0)
    {k : ℕ} {e : TrayEntry} (he : entries[k]? = some e) (revision : UInt32) (d : ℤ) :
    handleMenuGetLayout entries revision e.dbusId d =
      .ok (revision, (entryTree entries k e).1, (entryTree entries k e).2.levels d) := by
  rw [handleMenuGetLayout, if_neg (hzero e (List.mem_of_getElem? he)),
    findIndexById_of_nodup hnodup he]
  dsimp only
  rw [he, Option.map_some, Option.getD_some, buildMenuNode_cut]
  rfl

theorem groupProperties_of_entry {entries : List TrayEntry}
    (hnodup : (entries.map TrayEntry.dbusId).Nodup) {k : ℕ} {e : TrayEntry}
    (he : entries[k]? = some e) (ids : List ℤ) (props : List (String × MenuVariant)) :
    (e.dbusId, props) ∈ handleMenuGetGroupProperties entries ids ↔
      e.dbusId ∈ ids ∧ props = (entryTree entries k e).1.properties := by
  rw [entryTree_properties he, handleMenuGetGroupProperties, List.mem_filterMap]
  constructor
  · rintro ⟨id, hid, hreply⟩
    split at hreply
    · exact absurd hreply (by simp)
    · rename_i idx hidx
      simp only [Option.some.injEq, Prod.mk.injEq] at hreply
      obtain ⟨rfl, rfl⟩ := hreply
      obtain rfl : k = idx := Option.some.inj ((findIndexById_of_nodup hnodup he).symm.trans hidx)
      exact ⟨hid, by rw [he, Option.map_some, Option.getD_some]⟩
  · rintro ⟨hid, rfl⟩
    refine ⟨e.dbusId, hid, ?_⟩
    rw [findIndexById_of_nodup hnodup he]
    dsimp only
    rw [he, Option.map_some, Option.getD_some]

/-- Every node of the whole tree is answered for with its part of the tree,
down to the depth asked for, and with its properties. -/
theorem menuViews_agree {entries : List TrayEntry}
    (hnodup : (entries.map TrayEntry.dbusId).Nodup) (hzero : ∀ e ∈ entries, e.dbusId ≠ 0)
    {revision : UInt32} {root : LayoutNode} {menu : Forest LayoutNode}
    (hwhole : handleMenuGetLayout entries revision 0 (-1) = .ok (revision, root, menu))
    {node : LayoutNode} {children : Forest LayoutNode}
    (hnode : (node, children) ∈ (root, menu) :: menu.trees) :
    (∀ d, handleMenuGetLayout entries revision node.id d =
      .ok (revision, node, children.levels d)) ∧
    (node.id ≠ 0 → ∀ ids props,
      (node.id, props) ∈ handleMenuGetGroupProperties entries ids ↔
        node.id ∈ ids ∧ props = node.properties) := by
  have hroot : buildMenuNode entries none 0 0 0 (-1) = (root, menu) :=
    congrArg Prod.snd (Except.ok.inj hwhole)
  rcases List.mem_cons.mp hnode with heq | hbelow
  · obtain ⟨rfl, rfl⟩ := Prod.mk.inj heq
    have hfst : (buildMenuNode entries none 0 0 0 (-1)).1 = node := congrArg Prod.fst hroot
    have hid : node.id = 0 := hfst ▸ buildMenuNode_id entries none 0 0 0 (-1)
    refine ⟨fun d ↦ ?_, fun hne ↦ absurd hid hne⟩
    rw [hid, handleMenuGetLayout, if_pos rfl, buildMenuNode_cut, hroot]
  · have hmenu : (buildMenuNode entries none 0 0 0 (-1)).2 = menu := congrArg Prod.snd hroot
    rw [← hmenu, buildMenuNode_unlimited] at hbelow
    obtain ⟨k, e, he, htree⟩ := trees_eq_entryTree hbelow
    have hfst : node = (entryTree entries k e).1 := congrArg Prod.fst htree
    have hsnd : children = (entryTree entries k e).2 := congrArg Prod.snd htree
    have hid : node.id = e.dbusId := by
      rw [hfst]
      exact buildMenuNode_id entries (some k) e.dbusId (k + 1) (e.depth + 1) (-1)
    refine ⟨fun d ↦ ?_, fun _ ids props ↦ ?_⟩
    · rw [hid, handleMenuGetLayout_of_entry hnodup hzero he, hfst, hsnd]
    · rw [hid, groupProperties_of_entry hnodup he, hfst]

/-- The first entry of a menu, asked for by its id. -/
theorem menuViews_agree_submenu :
    ∃ node children,
      handleMenuGetLayout (plainEntries [0, 1, 1, 0]) 1 1 1 = .ok (1, node, children) ∧
        (1, node.properties) ∈ handleMenuGetGroupProperties (plainEntries [0, 1, 1, 0]) [1] := by
  have hmenu := (buildMenuNode_unlimited (plainEntries [0, 1, 1, 0]) none 0 0 0).trans
    (buildMenuChildren_of_depth_eq (-1) (by decide) rfl)
  have hfirst : entryTree (plainEntries [0, 1, 1, 0]) 0 ⟨0, 0, 0, 0, [], 1⟩ ∈
      wholeTree (plainEntries [0, 1, 1, 0]) ::
        (wholeTree (plainEntries [0, 1, 1, 0])).2.trees := by
    rw [wholeTree, hmenu]
    exact List.mem_cons_of_mem _ List.mem_cons_self
  have hid : (entryTree (plainEntries [0, 1, 1, 0]) 0 ⟨0, 0, 0, 0, [], 1⟩).1.id = 1 :=
    buildMenuNode_id (plainEntries [0, 1, 1, 0]) (some 0) 1 1 1 (-1)
  rcases htree : entryTree (plainEntries [0, 1, 1, 0]) 0 ⟨0, 0, 0, 0, [], 1⟩ with ⟨node, children⟩
  rw [htree] at hfirst hid
  obtain ⟨hlayout, hgroup⟩ := @menuViews_agree _ (by decide) (by decide) 1 _ _ rfl _ _ hfirst
  rw [show node.id = 1 from hid] at hlayout hgroup
  exact ⟨_, _, hlayout 1, (hgroup (by decide) [1] _).mpr ⟨by decide, rfl⟩⟩

end Wallpiper.Tray
