import Wallpiper.Tray.IdStability
import Wallpiper.Tray.MenuDump
import Wallpiper.Tray.MenuViews

/-!
# The menu from end to end

The loader dumps a Win32 menu, the daemon parses and publishes the dump, and
the desktop shows the layout and sends clicks back.  What it shows is the menu
itself, and a click on a node is a command for the item it stands for.
-/

namespace Wallpiper.Tray

open Foundations Foundations.CText

/-! ## What the desktop should see -/

def isSeparatorItem (item : MenuItem) : Bool := item.fType &&& wpTrayMftSeparator != 0

/-- The properties of an item's node, from the item alone. -/
def itemProperties (item : MenuItem) (hasSubMenu : Bool) : List (String × MenuVariant) :=
  if isSeparatorItem item then [("type", .string (bytesOf "separator"))]
  else
    (if item.text = [] then [] else [("label", .string (item.text.map blankByte))]) ++
    (if item.fState &&& wpTrayMfsDisabled = 0 then [] else [("enabled", .bool false)]) ++
    (if hasSubMenu = false ∧ item.fState &&& wpTrayMfsChecked ≠ 0 then
      [("toggle-type", .string (bytesOf "checkmark")), ("toggle-state", .int32 1)] else []) ++
    (if hasSubMenu = true then [("children-display", .string (bytesOf "submenu"))] else [])

def hasItems : Menu → Bool
  | .nil => false
  | .cons _ _ _ => true

/-- The layout has a node for each item, in the same places, and `click` on a
node that is no separator is the item's command. -/
def Mirrors (click : ℤ → Option UInt32) : Forest LayoutNode → Menu → Prop
  | .nil, .nil => True
  | .cons node children siblings, .cons item hSubMenu rest =>
      node.properties = itemProperties item (hasItems hSubMenu) ∧
        (isSeparatorItem item = false → click node.id = some item.wID) ∧
        Mirrors click children hSubMenu ∧ Mirrors click siblings rest
  | _, _ => False

/-! ## Entries and items -/

def TrayEntry.unassigned (e : TrayEntry) : TrayEntry := { e with dbusId := 0 }

/-- The entries are those of a menu at a depth, with ids. -/
def EntriesOf (menu : Menu) (depth : ℕ) (entries : List TrayEntry) : Prop :=
  entries.map TrayEntry.unassigned = (menu.preorderDepthsFrom depth).map fun p ↦ menuEntry p.1 p.2

theorem EntriesOf.nil {depth : ℕ} {entries : List TrayEntry} (h : EntriesOf .nil depth entries) :
    entries = [] := List.map_eq_nil_iff.mp h

theorem EntriesOf.cons {item : MenuItem} {hSubMenu rest : Menu} {depth : ℕ}
    {entries : List TrayEntry} (h : EntriesOf (.cons item hSubMenu rest) depth entries) :
    ∃ e below after, entries = e :: (below ++ after) ∧ e.unassigned = menuEntry depth item ∧
      EntriesOf hSubMenu (depth + 1) below ∧ EntriesOf rest depth after := by
  rw [EntriesOf, Forest.preorderDepthsFrom, List.map_cons, List.map_append] at h
  obtain ⟨e, others, rfl, he, hothers⟩ := List.map_eq_cons_iff.mp h
  obtain ⟨below, after, rfl, hbelow, hafter⟩ := List.map_eq_append_iff.mp hothers
  exact ⟨e, below, after, rfl, he, hbelow, hafter⟩

theorem EntriesOf.le_depth {menu : Menu} {depth : ℕ} {entries : List TrayEntry}
    (h : EntriesOf menu depth entries) {e : TrayEntry} (he : e ∈ entries) : depth ≤ e.depth := by
  have hmem : e.unassigned ∈ (menu.preorderDepthsFrom depth).map fun p ↦ menuEntry p.1 p.2 :=
    h ▸ List.mem_map_of_mem he
  obtain ⟨p, hp, heq⟩ := List.mem_map.mp hmem
  rw [Forest.preorderDepthsFrom_eq_zip] at hp
  have hle := Forest.le_of_mem_depthsFrom (List.of_mem_zip hp).1
  have hdepth : e.depth = p.1 := (congrArg TrayEntry.depth heq).symm
  rw [hdepth]
  exact_mod_cast hle

theorem EntriesOf.head_depth {menu : Menu} {depth : ℕ} {entries : List TrayEntry}
    (h : EntriesOf menu depth entries) {e : TrayEntry} (he : entries.head? = some e) :
    e.depth = depth := by
  cases menu with
  | nil => simp [h.nil] at he
  | cons item hSubMenu rest =>
      obtain ⟨first, below, after, rfl, hfirst, -, -⟩ := h.cons
      obtain rfl := Option.some.inj he
      exact congrArg TrayEntry.depth hfirst

theorem properties_of_unassigned {e : TrayEntry} {depth : ℕ} {item : MenuItem}
    (h : e.unassigned = menuEntry depth item) (hasSubMenu : Bool) :
    appendNodeProperties (computeNodeProperties (some e) hasSubMenu) =
      itemProperties item hasSubMenu := by
  have hstate : e.state = item.fState := congrArg TrayEntry.state h
  have htype : e.typeFlags = item.fType := congrArg TrayEntry.typeFlags h
  have htext : e.text = item.text.map blankByte := congrArg TrayEntry.text h
  have hseparator : e.isSeparator = isSeparatorItem item := by
    rw [TrayEntry.isSeparator, htype, isSeparatorItem]
  unfold computeNodeProperties itemProperties
  simp only [hseparator, hstate, htext]
  by_cases hsep : isSeparatorItem item = true
  · rw [if_pos hsep, if_pos hsep]
    rfl
  · rw [if_neg hsep, if_neg hsep]
    cases hasSubMenu <;>
      by_cases htextNil : item.text = [] <;>
      by_cases hdisabled : item.fState &&& wpTrayMfsDisabled = 0 <;>
      by_cases hchecked : item.fState &&& wpTrayMfsChecked = 0 <;>
      simp [appendNodeProperties, MenuNodeProps.zero, htextNil, hdisabled, hchecked]

/-! ## The layout of a menu -/

variable {click : ℤ → Option UInt32} {entries : List TrayEntry}

theorem hasChildrenAt_append {front rest : List TrayEntry} {c : ℤ} :
    hasChildrenAt (front ++ rest) front.length c = rest.head?.any fun e ↦ e.depth == c := by
  rw [hasChildrenAt, List.getElem?_append_right (le_refl _), Nat.sub_self, ← List.head?_eq_getElem?]

/-- Where the loop goes on after a child: behind the entries below it, or at a
grandchild, which ends the loop. -/
theorem childrenRunLength_block (front : List TrayEntry) {below back : List TrayEntry} {c : ℤ}
    (hbelow : ∀ e ∈ below, c ≤ e.depth) (hback : ∀ e, back.head? = some e → e.depth < c) :
    let run := childrenRunLength (front ++ (below ++ back)) front.length c
    run = below.length ∨ ∃ e, below[run]? = some e ∧ c < e.depth := by
  intro run
  obtain ⟨hle, hrun, hstop⟩ :=
    childrenRunLength_spec (front ++ (below ++ back)) front.length c (by simp)
  change front.length + run ≤ _ at hle
  change ∀ k hk, _ → k < front.length + run → _ at hrun
  change ∀ k hk, k = front.length + run → _ at hstop
  rcases Nat.lt_trichotomy run below.length with hlt | heq | hgt
  · have hlen : front.length + run < (front ++ (below ++ back)).length := by simp; omega
    have hentry : (front ++ (below ++ back))[front.length + run] = below[run] := by
      rw [List.getElem_append_right (by omega), List.getElem_append_left (by omega)]
      simp
    have hne := hstop _ hlen rfl
    rw [hentry] at hne
    exact .inr ⟨below[run], List.getElem?_eq_getElem hlt,
      lt_of_le_of_ne (hbelow _ (List.getElem_mem hlt)) hne.symm⟩
  · exact .inl heq
  · have hlen : front.length + below.length < (front ++ (below ++ back)).length := by omega
    have hmore : 0 < back.length := by
      rw [List.length_append, List.length_append] at hlen
      omega
    have hentry : (front ++ (below ++ back))[front.length + below.length] = back[0] := by
      rw [List.getElem_append_right (by omega), List.getElem_append_right (by omega)]
      simp
    have hdepth := hrun _ hlen (by omega) (by omega)
    rw [hentry] at hdepth
    have hlast := hback back[0] (by rw [List.head?_eq_getElem?, List.getElem?_eq_getElem hmore])
    omega

theorem mirrors_buildMenuChildren
    (hclick : ∀ e ∈ entries, e.isSeparator = false → click e.dbusId = some e.id)
    (hdrop : NoLaterDrop entries) (menu : Menu) (c : ℕ) (front block back : List TrayEntry)
    (hentries : entries = front ++ (block ++ back)) (hblock : EntriesOf menu c block)
    (hback : ∀ e, back.head? = some e → e.depth < c) :
    Mirrors click (buildMenuChildren entries c (-1) front.length) menu := by
  induction menu generalizing c front block back with
  | nil =>
      obtain rfl := hblock.nil
      have hnil : buildMenuChildren entries c (-1) front.length = .nil := by
        cases back with
        | nil =>
            apply buildMenuChildren_of_length_le
            simp [hentries]
        | cons e back =>
            have hlt : front.length < entries.length := by simp [hentries]
            apply buildMenuChildren_of_depth_ne _ hlt
            have he : entries[front.length] = e := by simp [hentries]
            rw [he]
            exact (hback e rfl).ne
      rw [hnil]
      trivial
  | cons item hSubMenu rest ihSub ihRest =>
      obtain ⟨e, below, after, rfl, he, hbelow, hafter⟩ := hblock.cons
      have hlt : front.length < entries.length := by simp [hentries]
      have hentry : entries[front.length] = e := by simp [hentries]
      have hdepth : e.depth = c := congrArg TrayEntry.depth he
      have hlater : ∀ e', (after ++ back).head? = some e' → e'.depth < (c + 1 : ℕ) := by
        intro e' he'
        cases hafterCases : after with
        | nil =>
            rw [hafterCases, List.nil_append] at he'
            exact (hback e' he').trans (by simp)
        | cons first others =>
            rw [hafterCases] at he' hafter
            rw [hafter.head_depth he']
            exact_mod_cast Nat.lt_succ_self c
      have hsplit : entries = (front ++ [e]) ++ (below ++ (after ++ back)) := by
        simp [hentries]
      have hnext : front.length + 1 = (front ++ [e]).length := by simp
      rw [buildMenuChildren_of_depth_eq _ hlt (hentry ▸ hdepth), hentry, buildMenuNode_unlimited]
      refine ⟨?properties, ?click, ?children, ?siblings⟩
      case properties =>
        have hchild : hasChildrenAt entries (front.length + 1) (c + 1) = hasItems hSubMenu := by
          rw [hsplit, hnext, hasChildrenAt_append]
          cases hSubMenu with
          | nil =>
              rw [hbelow.nil, List.nil_append]
              cases hhead : (after ++ back).head? with
              | none => rfl
              | some e' =>
                  have hlt := hlater e' hhead
                  push_cast at hlt
                  simpa [hasItems] using hlt.ne
          | cons first inner others =>
              obtain ⟨e', _, _, hcons, -⟩ := hbelow.cons
              have hhead := hbelow.head_depth (e := e') (by rw [hcons]; rfl)
              rw [hcons]
              simpa [hasItems] using hhead
        rw [buildMenuNode_properties, hchild]
        have hself : (some front.length).bind (fun i ↦ entries[i]?) = some e := by
          rw [Option.bind_some, List.getElem?_eq_getElem hlt, hentry]
        rw [hself]
        exact properties_of_unassigned he _
      case click =>
        intro hplain
        have hsep : e.isSeparator = false := by
          rw [TrayEntry.isSeparator, show e.typeFlags = item.fType from
            congrArg TrayEntry.typeFlags he]
          exact hplain
        rw [buildMenuNode_id, hclick e (hentry ▸ List.getElem_mem hlt) hsep]
        exact congrArg some (congrArg TrayEntry.id he)
      case children =>
        have hsub := ihSub (c + 1) (front ++ [e]) below (after ++ back) hsplit hbelow hlater
        rw [← hnext] at hsub
        exact_mod_cast hsub
      case siblings =>
        have hdeep : ∀ e' ∈ below, (c : ℤ) + 1 ≤ e'.depth := fun e' he' ↦ by
          exact_mod_cast hbelow.le_depth he'
        rcases childrenRunLength_block (front ++ [e]) hdeep
          (fun e' he' ↦ by exact_mod_cast hlater e' he') with hrun | ⟨e', he', hgrand⟩
        · rw [← hsplit, ← hnext] at hrun
          have hindex : front.length + 1 + below.length = (front ++ e :: below).length := by
            simp
            omega
          rw [hrun, hindex]
          exact ihRest c (front ++ e :: below) after back (by simp [hentries]) hafter hback
        · -- the loop has ended, and nothing comes after the grandchild
          rw [← hsplit, ← hnext] at he'
          generalize childrenRunLength entries (front.length + 1) (c + 1) = run at he' ⊢
          have hgrandchild : entries[front.length + 1 + run]? = some e' := by
            rw [hsplit, hnext, List.getElem?_append_right (Nat.le_add_right _ _),
              Nat.add_sub_cancel_left, List.getElem?_append_left
              (List.getElem?_eq_some_iff.mp he').1, he']
          obtain ⟨hlast, hdeeper⟩ := List.getElem?_eq_some_iff.mp hgrandchild
          have hrest : rest = .nil := by
            cases rest with
            | nil => rfl
            | cons next inner others =>
                obtain ⟨x, _, _, hcons, hx, -, -⟩ := hafter.cons
                have hnextIndex : entries[front.length + 1 + below.length]? = some x := by
                  rw [hsplit, hnext, List.getElem?_append_right (Nat.le_add_right _ _),
                    Nat.add_sub_cancel_left, List.getElem?_append_right (le_refl _),
                    Nat.sub_self, hcons]
                  rfl
                obtain ⟨hlen, hself⟩ := List.getElem?_eq_some_iff.mp hnextIndex
                have hrun := (List.getElem?_eq_some_iff.mp he').1
                have hbound := (noLaterDrop_iff entries).mp hdrop _ _ hlast hlen (by omega)
                have hxdepth : x.depth = c := congrArg TrayEntry.depth hx
                rw [hdeeper, hself] at hbound
                omega
          rw [hrest, buildMenuChildren_of_depth_ne _ hlast (by rw [hdeeper]; omega)]
          trivial

/-! ## Publishing a dump -/

theorem assigned_unassigned (st : WpTrayState) {dump : List TrayEntry}
    (hdump : ∀ e ∈ dump, e.unassigned = e) :
    (wpTrayStateOnMenuDumpChanged st dump).entries.map TrayEntry.unassigned = dump := by
  have hsame := assignStableDbusIdsFrom_sameButId .zero st dump
  change ((assignStableDbusIdsFrom .zero st dump).1).map _ = _
  generalize (assignStableDbusIdsFrom .zero st dump).1 = assigned at hsame ⊢
  induction hsame with
  | nil => rfl
  | cons hid hrest ih =>
      obtain ⟨id, rfl⟩ := hid
      rw [List.forall_mem_cons] at hdump
      rw [List.map_cons, ih hdump.2]
      exact congrArg (· :: _) hdump.1

/-- A dump that fits is read back as the entries of its menu. -/
theorem entriesOf_parsed {menu : Menu} (hdepths : ∀ d ∈ menu.depths, d ≤ 4)
    (hsize : menu.size ≤ wpTrayMaxEntries)
    (htext : ∀ item ∈ menu.preorder, item.text.length ≤ 255)
    (hbytes : (menuLines menu 0).flatten.length ≤ 16383) :
    EntriesOf menu 0 (wpTrayParseMenuDump (dumpMenuToFile menu)) ∧
      ∀ e ∈ wpTrayParseMenuDump (dumpMenuToFile menu), e.unassigned = e := by
  have hdump : dumpMenuToFile menu =
      ((menu.preorderDepthsFrom 0).map fun p ↦ menuLine p.1 p.2).flatten := by
    rw [dumpMenuToFile, serializeMenu_eq_foldl 16383 hdepths,
      FirstFit.foldl_append_of_le _ _ (by simpa using hbytes)]
    rfl
  have hitems : ∀ p ∈ menu.preorderDepthsFrom 0, p.1 ≤ 4 ∧ p.2.text.length ≤ 255 := by
    intro p hp
    rw [Forest.preorderDepthsFrom_eq_zip] at hp
    obtain ⟨hdepth, hitem⟩ := List.of_mem_zip hp
    exact ⟨hdepths p.1 hdepth, htext p.2 hitem⟩
  have hparsed : wpTrayParseMenuDump (dumpMenuToFile menu) =
      (menu.preorderDepthsFrom 0).map fun p ↦ menuEntry p.1 p.2 := by
    rw [hdump]
    apply wpTrayParseMenuDump_lines (fun p hp ↦ (hitems p hp).1) fun p hp ↦ (hitems p hp).2
    simpa [Forest.preorderDepthsFrom_eq_zip] using hsize
  rw [EntriesOf, hparsed, List.map_map]
  refine ⟨rfl, fun e he ↦ ?_⟩
  obtain ⟨p, -, rfl⟩ := List.mem_map.mp he
  rfl

theorem EntriesOf.noLaterDrop {menu : Menu} {entries : List TrayEntry}
    (h : EntriesOf menu 0 entries) (hdrop : menu.depths.Pairwise fun a b ↦ a ≤ b + 1) :
    NoLaterDrop entries := by
  have hdepths : entryDepths entries = menu.depths.map (Nat.cast : ℕ → ℤ) := by
    have hcongr := congrArg (List.map TrayEntry.depth) h
    rw [List.map_map, List.map_map, Forest.preorderDepthsFrom_eq_zip] at hcongr
    calc entryDepths entries
        = ((menu.depthsFrom 0).zip menu.preorder).map ((Nat.cast : ℕ → ℤ) ∘ Prod.fst) := hcongr
      _ = (((menu.depthsFrom 0).zip menu.preorder).map Prod.fst).map (Nat.cast : ℕ → ℤ) :=
          List.map_map.symm
      _ = menu.depths.map (Nat.cast : ℕ → ℤ) := by
          rw [List.map_fst_zip (by simp)]
          rfl
  rw [NoLaterDrop, hdepths, List.pairwise_map]
  exact hdrop.imp fun hle ↦ by exact_mod_cast hle

/-- A click on a current entry that is no separator sends its Win32 id. -/
theorem HistorySound.click_entry {h : TrayHistory} (hs : HistorySound h)
    (hids : h.state.nextDbusId ≤ 2 ^ 31) {e : TrayEntry} (he : e ∈ h.state.entries)
    (hplain : e.isSeparator = false) :
    handleMenuEvent h.state e.dbusId "clicked" = some e.id := by
  obtain ⟨k, hk⟩ := hs.current e he
  rw [handleMenuEvent_clicked h.state (hs.dbusId_ne_zero hids hk)]
  cases hfind : h.state.entries.find? fun e' ↦ e'.dbusId == e.dbusId with
  | none => exact absurd (List.find?_eq_none.mp hfind e he) (by simp)
  | some e' =>
      have hid : e'.dbusId = e.dbusId := by simpa using List.find?_some hfind
      obtain ⟨hsep, hcommand⟩ :=
        hs.same_command hk hplain (List.mem_of_find?_eq_some hfind) hid
      simp [hsep, hcommand]

/-- Whatever was published before, the layout of a published dump mirrors the
dumped menu and its nodes' clicks are the commands of its items. -/
theorem menu_mirrored {dumps : List (List TrayEntry)} {h h' : TrayHistory} {menu : Menu}
    (hrun : exec publish .initial dumps = some h)
    (hpublish : publish h (wpTrayParseMenuDump (dumpMenuToFile menu)) = some h')
    (hids : h'.state.nextDbusId ≤ 2 ^ 31) (hdepths : ∀ d ∈ menu.depths, d ≤ 4)
    (hsize : menu.size ≤ wpTrayMaxEntries)
    (htext : ∀ item ∈ menu.preorder, item.text.length ≤ 255)
    (hbytes : (menuLines menu 0).flatten.length ≤ 16383)
    (hdrop : menu.depths.Pairwise fun a b ↦ a ≤ b + 1) (revision : UInt32) :
    ∃ root children, handleMenuGetLayout h'.state.entries revision 0 (-1) =
        .ok (revision, root, children) ∧
      Mirrors (fun id ↦ handleMenuEvent h'.state id "clicked") children menu := by
  have hs : HistorySound h' := (historySound_of_run HistorySound.initial hrun
    ((nextDbusId_le_publish hpublish).trans hids)).step hpublish hids
  obtain ⟨hparsed, hunassigned⟩ := entriesOf_parsed hdepths hsize htext hbytes
  have hentries : EntriesOf menu 0 h'.state.entries := by
    obtain ⟨-, rfl⟩ := publish_eq_some.mp hpublish
    rw [EntriesOf, assigned_unassigned h.state hunassigned, ← hparsed]
    exact (List.map_congr_left hunassigned).trans (List.map_id _) |>.symm
  have hmirrors : Mirrors (fun id ↦ handleMenuEvent h'.state id "clicked")
      (buildMenuChildren h'.state.entries (0 : ℕ) (-1) 0) menu :=
    mirrors_buildMenuChildren (fun e he hplain ↦ hs.click_entry hids he hplain)
      (hentries.noLaterDrop hdrop) menu 0 [] h'.state.entries [] (by simp) hentries (by simp)
  refine ⟨_, (buildMenuNode h'.state.entries none 0 0 0 (-1)).2, rfl, ?_⟩
  rw [buildMenuNode_unlimited]
  exact hmirrors

/-- A checked item above a submenu with a separator. -/
def smallMenu : Menu :=
  .cons ⟨7, 8, 0, bytesOf "Pause", by decide +kernel⟩ .nil
    (.cons ⟨4294967295, 0, 0, bytesOf "Speed\t", by decide +kernel⟩
      (.cons ⟨0, 0, 2048, [], by decide +kernel⟩ .nil
        (.cons ⟨9, 3, 0, bytesOf "Faster", by decide +kernel⟩ .nil .nil)) .nil)

theorem menu_mirrored_smallMenu :
    ∃ h h', exec publish .initial [[plainEntry 7]] = some h ∧
      publish h (wpTrayParseMenuDump (dumpMenuToFile smallMenu)) = some h' ∧
      ∃ root children, handleMenuGetLayout h'.state.entries 1 0 (-1) = .ok (1, root, children) ∧
        Mirrors (fun id ↦ handleMenuEvent h'.state id "clicked") children smallMenu := by
  refine ⟨_, _, rfl, publish_eq_some.mpr ⟨by decide +kernel, rfl⟩, ?_⟩
  exact menu_mirrored (rfl : exec publish .initial [[plainEntry 7]] = some _)
    (publish_eq_some.mpr ⟨by decide +kernel, rfl⟩) (by decide +kernel) (by decide +kernel)
    (by decide) (by decide +kernel) (by decide +kernel) (by decide +kernel) 1

/-! ## Groups of events -/

/-- The entry that a click on an id is for. -/
def clickedEntry (st : WpTrayState) (id : ℤ) : Option TrayEntry :=
  ((findIndexById st.entries id).bind fun idx ↦ st.entries[idx]?).filter fun e ↦ !e.isSeparator

/-- One event of a group: the commands sent and the ids reported as errors. -/
def groupEvent (st : WpTrayState) (out : List UInt32 × List ℤ) (event : ℤ × String) :
    List UInt32 × List ℤ :=
  match clickedEntry st event.1 with
  | some e => if event.2 = "clicked" then (out.1 ++ [e.id], out.2) else out
  | none => if out.2.length < wpTrayMaxEntries then (out.1, out.2 ++ [event.1]) else out

def handleMenuEventGroup (st : WpTrayState) (events : List (ℤ × String)) :
    List UInt32 × List ℤ :=
  events.foldl (groupEvent st) ([], [])

theorem handleMenuEvent_eq (st : WpTrayState) (hzero : ∀ e ∈ st.entries, e.dbusId ≠ 0) (id : ℤ)
    (eventId : String) : handleMenuEvent st id eventId =
      if eventId = "clicked" then (clickedEntry st id).map TrayEntry.id else none := by
  unfold handleMenuEvent clickedEntry
  by_cases hclicked : eventId = "clicked"
  · rw [if_pos hclicked]
    cases hidx : findIndexById st.entries id with
    | none => simp
    | some idx =>
        obtain ⟨hlt, hid, -⟩ := List.findIdx?_eq_some_iff_getElem.mp hidx
        have hne : id ≠ 0 := by
          rw [← beq_iff_eq.mp hid]
          exact hzero _ (List.getElem_mem hlt)
        have hentry := List.getElem?_eq_getElem hlt
        rw [if_pos ⟨hclicked, hne⟩]
        cases hsep : st.entries[idx].isSeparator <;> simp [hentry, hsep, Option.filter]
  · rw [if_neg hclicked, if_neg fun h ↦ hclicked h.1]

theorem foldl_groupEvent {st : WpTrayState} (hzero : ∀ e ∈ st.entries, e.dbusId ≠ 0)
    (events : List (ℤ × String)) (out : List UInt32 × List ℤ)
    (hout : out.2.length ≤ wpTrayMaxEntries) :
    events.foldl (groupEvent st) out =
      (out.1 ++ events.filterMap fun event ↦ handleMenuEvent st event.1 event.2,
        (out.2 ++ (events.map Prod.fst).filter fun id ↦ (clickedEntry st id).isNone).take
          wpTrayMaxEntries) := by
  induction events generalizing out with
  | nil => simp [List.take_of_length_le hout]
  | cons event events ih =>
      have hevent := handleMenuEvent_eq st hzero event.1 event.2
      rw [List.foldl_cons, List.map_cons, List.filterMap_cons, hevent]
      cases hclicked : clickedEntry st event.1 with
      | some e =>
          have hstep : groupEvent st out event =
              if event.2 = "clicked" then (out.1 ++ [e.id], out.2) else out := by
            rw [groupEvent, hclicked]
          rw [hstep, List.filter_cons_of_neg (by simp [hclicked])]
          by_cases hclick : event.2 = "clicked"
          · rw [if_pos hclick, if_pos hclick, ih (out.1 ++ [e.id], out.2) hout, Option.map_some,
              List.append_assoc]
            rfl
          · rw [if_neg hclick, if_neg hclick, ih _ hout]
      | none =>
          have hstep : groupEvent st out event =
              if out.2.length < wpTrayMaxEntries then (out.1, out.2 ++ [event.1]) else out := by
            rw [groupEvent, hclicked]
          rw [hstep, List.filter_cons_of_pos (by simp [hclicked]), Option.map_none, ite_self]
          by_cases hroom : out.2.length < wpTrayMaxEntries
          · have hlength : (out.2 ++ [event.1]).length ≤ wpTrayMaxEntries := by
              rw [List.length_append, List.length_singleton]
              exact hroom
            rw [if_pos hroom, ih (out.1, out.2 ++ [event.1]) hlength, List.append_assoc]
            rfl
          · have hfull : wpTrayMaxEntries ≤ out.2.length := not_lt.mp hroom
            rw [if_neg hroom, ih _ hout, List.take_append_of_le_length hfull,
              List.take_append_of_le_length hfull]

/-- A group sends the commands of its events one after the other, and reports
the first ids that stand for no entry or a separator. -/
theorem event_group_agrees {dumps : List (List TrayEntry)} {h : TrayHistory}
    (hrun : exec publish .initial dumps = some h) (hids : h.state.nextDbusId ≤ 2 ^ 31)
    (events : List (ℤ × String)) :
    handleMenuEventGroup h.state events =
      (events.filterMap fun event ↦ handleMenuEvent h.state event.1 event.2,
        ((events.map Prod.fst).filter fun id ↦ (clickedEntry h.state id).isNone).take
          wpTrayMaxEntries) := by
  have hs := historySound_of_run HistorySound.initial hrun hids
  have hzero : ∀ e ∈ h.state.entries, e.dbusId ≠ 0 := fun e he ↦
    (hs.current e he).elim fun k hk ↦ hs.dbusId_ne_zero hids hk
  exact foldl_groupEvent hzero events ([], []) (Nat.zero_le _)

/-- A click, an id that nobody has and a hovered entry. -/
theorem event_group_agrees_mixed :
    ∃ h, exec publish .initial [[plainEntry 7, plainEntry 9]] = some h ∧
      handleMenuEventGroup h.state [(2, "clicked"), (5, "hovered"), (1, "hovered")] =
        ([9], [5]) := by
  refine ⟨_, rfl, ?_⟩
  rw [event_group_agrees (rfl : exec publish .initial [[plainEntry 7, plainEntry 9]] = some _)
    (by decide)]
  decide

end Wallpiper.Tray
