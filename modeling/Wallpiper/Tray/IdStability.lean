import Wallpiper.Tray.DbusIds

/-!
# Ids over whole runs

A run publishes one dump after another.  The history keeps every entry that
was ever published, with its key.  The table, the counter and the history
are linked by the soundness invariant of interning tables, so an id stands
for one key forever, and a click on an old id either finds an entry with the
same Win32 id or finds nothing.
-/

namespace Wallpiper.Tray

open Foundations

structure TrayHistory where
  state : WpTrayState
  handed : List (TrayKey × TrayEntry)

def TrayHistory.initial : TrayHistory := ⟨.initial, []⟩

/-- One published dump; a `wp_tray_entries_t` holds at most 512 entries. -/
def publish (h : TrayHistory) (dump : List TrayEntry) : Option TrayHistory :=
  if dump.length ≤ wpTrayMaxEntries then
    let state := wpTrayStateOnMenuDumpChanged h.state dump
    some ⟨state, h.handed ++ (entryKeys dump).zip state.entries⟩
  else none

def TrayHistory.log (h : TrayHistory) : List (TrayKey × ℤ) :=
  h.handed.map fun p ↦ (p.1, p.2.dbusId)

def TableSound (st : WpTrayState) (log : List (TrayKey × ℤ)) : Prop :=
  Interner.Sound wpTrayMaxIdSlots dbusIdOf 1 st.interner log

/-- A separator that is not the first after its anchor follows the one
before it. -/
def Precedes (k' k : TrayKey) : Prop :=
  k.isSeparator = true ∧ k.ordinal ≠ 0 ∧ k' = { k with ordinal := k.ordinal - 1 }

structure HistorySound (h : TrayHistory) : Prop where
  table : TableSound h.state h.log
  next_pos : 1 ≤ h.state.nextDbusId
  key_entry : ∀ p ∈ h.handed,
    p.1.isSeparator = p.2.isSeparator ∧ (p.2.isSeparator = false → p.1.anchor = p.2.id)
  current : ∀ e ∈ h.state.entries, ∃ k, (k, e) ∈ h.handed
  closed : ∀ k ∈ h.state.interner.keys, ∀ k', Precedes k' k → k' ∈ h.state.interner.keys

/-! ## One dump -/

theorem publish_eq_some {h h' : TrayHistory} {dump : List TrayEntry} :
    publish h dump = some h' ↔ dump.length ≤ wpTrayMaxEntries ∧
      h' = ⟨wpTrayStateOnMenuDumpChanged h.state dump,
        h.handed ++ (entryKeys dump).zip (wpTrayStateOnMenuDumpChanged h.state dump).entries⟩ := by
  unfold publish
  split
  · rename_i hlen
    simp [hlen, eq_comm]
  · rename_i hlen
    simp [hlen]

theorem wpTrayStateOnMenuDumpChanged_interner (st : WpTrayState) (dump : List TrayEntry) :
    (wpTrayStateOnMenuDumpChanged st dump).interner =
      (Interner.internAll wpTrayMaxIdSlots dbusIdOf st.interner (entryKeys dump)).2 :=
  (assignStableDbusIds_interner st dump).2

theorem wpTrayStateOnMenuDumpChanged_ids (st : WpTrayState) (dump : List TrayEntry) :
    (wpTrayStateOnMenuDumpChanged st dump).entries.map TrayEntry.dbusId =
      (Interner.internAll wpTrayMaxIdSlots dbusIdOf st.interner (entryKeys dump)).1 :=
  (assignStableDbusIds_interner st dump).1

theorem wpTrayStateOnMenuDumpChanged_length (st : WpTrayState) (dump : List TrayEntry) :
    (wpTrayStateOnMenuDumpChanged st dump).entries.length = dump.length :=
  (assignStableDbusIdsFrom_sameButId .zero st dump).length_eq.symm

theorem nextDbusId_le_publish {h h' : TrayHistory} {dump : List TrayEntry}
    (hpub : publish h dump = some h') : h.state.nextDbusId ≤ h'.state.nextDbusId := by
  obtain ⟨_, rfl⟩ := publish_eq_some.mp hpub
  have hle := Interner.next_le_internAll wpTrayMaxIdSlots dbusIdOf h.state.interner
    (entryKeys dump)
  rw [← wpTrayStateOnMenuDumpChanged_interner] at hle
  exact hle

/-- The scan gives a separator a separator key and a plain entry the key
with its Win32 id. -/
theorem scanEntry_key (scan : DepthScan) (e : TrayEntry) :
    (scanEntry scan e).1.isSeparator = e.isSeparator ∧
      (e.isSeparator = false → (scanEntry scan e).1.anchor = e.id) := by
  unfold scanEntry
  cases hsep : e.isSeparator with
  | true => exact ⟨rfl, fun h ↦ absurd h (by simp)⟩
  | false => exact ⟨rfl, fun _ ↦ rfl⟩

theorem key_entry_of_zip (scan : DepthScan) (st : WpTrayState) (dump : List TrayEntry) :
    ∀ p ∈ (entryKeysFrom scan dump).zip (assignStableDbusIdsFrom scan st dump).1,
      p.1.isSeparator = p.2.isSeparator ∧ (p.2.isSeparator = false → p.1.anchor = p.2.id) := by
  induction dump generalizing scan st with
  | nil => simp [entryKeysFrom]
  | cons e es ih =>
      intro p hp
      simp only [entryKeysFrom, assignStableDbusIdsFrom, List.zip_cons_cons, List.mem_cons] at hp
      rcases hp with rfl | hp
      · exact scanEntry_key scan e
      · exact ih _ _ p hp

/-! ## Predecessors of separators -/

/-- Whatever the arrays count at a depth has been seen there. -/
def CountsSeen (scan : DepthScan) (seen : List TrayKey) : Prop :=
  ∀ d, scan.sepOrdinalAtDepth d ≠ 0 →
    (⟨true, d, scan.lastNonsepAtDepth d, scan.sepOrdinalAtDepth d - 1⟩ : TrayKey) ∈ seen

theorem CountsSeen.clearBelow {scan : DepthScan} {seen : List TrayKey}
    (h : CountsSeen scan seen) (depth : ℕ) : CountsSeen (scan.clearBelow depth) seen := by
  intro d hd
  by_cases hlt : depth < d
  · simp [DepthScan.clearBelow, hlt] at hd
  · simp only [DepthScan.clearBelow, if_neg hlt] at hd ⊢
    exact h d hd

theorem CountsSeen.step {scan : DepthScan} {seen : List TrayKey}
    (h : CountsSeen scan seen) (e : TrayEntry) :
    CountsSeen (scanEntry scan e).2 (seen ++ [(scanEntry scan e).1]) := by
  have hclear := h.clearBelow (clampDepth e.depth)
  intro d
  unfold scanEntry
  cases hsep : e.isSeparator with
  | true =>
      intro hd
      by_cases heq : d = clampDepth e.depth
      · subst heq
        simp
      · simp only [if_true, Function.update_of_ne heq] at hd ⊢
        exact List.mem_append_left _ (hclear d hd)
  | false =>
      intro hd
      by_cases heq : d = clampDepth e.depth
      · subst heq
        simp at hd
      · simp only [Bool.false_eq_true, if_false, Function.update_of_ne heq] at hd ⊢
        exact List.mem_append_left _ (hclear d hd)

theorem CountsSeen.precedes {scan : DepthScan} {seen : List TrayKey} (h : CountsSeen scan seen)
    (e : TrayEntry) {k' : TrayKey} (hk' : Precedes k' (scanEntry scan e).1) : k' ∈ seen := by
  have hclear := h.clearBelow (clampDepth e.depth)
  obtain ⟨hsep, hne, rfl⟩ := hk'
  have he : e.isSeparator = true := (scanEntry_key scan e).1 ▸ hsep
  simp only [scanEntry, he, if_true] at hne ⊢
  exact hclear _ hne

/-- Interning a dump keeps the table sound and closed under predecessors. -/
theorem tableSound_internAll {t : Interner TrayKey ℤ} {log : List (TrayKey × ℤ)}
    {scan : DepthScan} {seen : List TrayKey} (dump : List TrayEntry)
    (hsound : Interner.Sound wpTrayMaxIdSlots dbusIdOf 1 t log) (hnext : 1 ≤ t.next)
    (hseen : CountsSeen scan seen) (hlog : ∀ k ∈ seen, ∃ id, (k, id) ∈ log)
    (hclosed : ∀ k ∈ t.keys, ∀ k', Precedes k' k → k' ∈ t.keys)
    (hinj : Set.InjOn dbusIdOf {n | n < (Interner.internAll wpTrayMaxIdSlots dbusIdOf t
      (entryKeysFrom scan dump)).2.next}) :
    ∀ k ∈ (Interner.internAll wpTrayMaxIdSlots dbusIdOf t (entryKeysFrom scan dump)).2.keys,
      ∀ k', Precedes k' k →
        k' ∈ (Interner.internAll wpTrayMaxIdSlots dbusIdOf t (entryKeysFrom scan dump)).2.keys := by
  induction dump generalizing t log scan seen with
  | nil => exact hclosed
  | cons e es ih =>
      have hle := Interner.next_le_intern wpTrayMaxIdSlots dbusIdOf t (scanEntry scan e).1
      have hrest := Interner.next_le_internAll wpTrayMaxIdSlots dbusIdOf
        (Interner.intern wpTrayMaxIdSlots dbusIdOf t (scanEntry scan e).1).2
        (entryKeysFrom (scanEntry scan e).2 es)
      have hhere := hsound.intern hnext (scanEntry scan e).1
        (hinj.mono fun n hn ↦ hn.trans_le hrest)
      refine ih hhere (hnext.trans hle) (hseen.step e) ?_ ?_ hinj
      · intro k hk
        rcases List.mem_append.mp hk with hk | hk
        · obtain ⟨id, hid⟩ := hlog k hk
          exact ⟨id, List.mem_append_left _ hid⟩
        · obtain rfl : k = (scanEntry scan e).1 := by simpa using hk
          exact ⟨_, List.mem_append_right _ (List.mem_singleton_self _)⟩
      · apply hsound.closed_intern hclosed
        intro k' hk'
        exact hlog k' (hseen.precedes e hk')

/-! ## The invariant of runs -/

theorem HistorySound.initial : HistorySound .initial := by
  refine ⟨Interner.Sound.empty _ _ _, le_refl 1, ?key_entry, ?current, ?closed⟩
  case key_entry =>
    intro p hp
    exact absurd hp (by simp [TrayHistory.initial])
  case current =>
    intro e he
    exact absurd he (by simp [TrayHistory.initial, WpTrayState.initial])
  case closed =>
    intro k hk
    exact absurd hk (by simp [TrayHistory.initial, WpTrayState.initial, WpTrayState.interner,
      Interner.keys])

theorem HistorySound.step {h h' : TrayHistory} {dump : List TrayEntry} (hs : HistorySound h)
    (hpub : publish h dump = some h') (hids : h'.state.nextDbusId ≤ 2 ^ 31) :
    HistorySound h' := by
  have hnext := nextDbusId_le_publish hpub
  obtain ⟨_, rfl⟩ := publish_eq_some.mp hpub
  have hinterner := wpTrayStateOnMenuDumpChanged_interner h.state dump
  have hpublished := wpTrayStateOnMenuDumpChanged_ids h.state dump
  have hlen : (entryKeys dump).length =
      (wpTrayStateOnMenuDumpChanged h.state dump).entries.length := by
    rw [entryKeys, entryKeysFrom_length, wpTrayStateOnMenuDumpChanged_length]
  have hinj : Set.InjOn dbusIdOf {n | n < (Interner.internAll wpTrayMaxIdSlots dbusIdOf
      h.state.interner (entryKeys dump)).2.next} := by
    rw [← hinterner]
    exact dbusIdOf_injOn hids
  refine ⟨?table, hs.next_pos.trans hnext, ?key_entry, ?current, ?closed⟩
  case table =>
    have hall := hs.table.internAll hs.next_pos (entryKeys dump) hinj
    rw [← hinterner, ← hpublished, List.zip_map_right] at hall
    rw [TableSound, TrayHistory.log, List.map_append]
    exact hall
  case key_entry =>
    intro p hp
    rcases List.mem_append.mp hp with hp | hp
    · exact hs.key_entry p hp
    · exact key_entry_of_zip .zero h.state dump p hp
  case current =>
    intro e he
    obtain ⟨i, hi, rfl⟩ := List.getElem_of_mem he
    have hkey : i < (entryKeys dump).length := hlen ▸ hi
    refine ⟨(entryKeys dump)[i], List.mem_append_right _ ?_⟩
    apply List.mem_of_getElem? (i := i)
    simp [List.getElem?_zip_eq_some, List.getElem?_eq_getElem hkey, List.getElem?_eq_getElem hi]
  case closed =>
    rw [hinterner]
    exact tableSound_internAll dump hs.table hs.next_pos
      (fun d hd ↦ absurd rfl hd)
      (fun k hk ↦ absurd hk List.not_mem_nil) hs.closed hinj

/-! ## Stability and routing -/

theorem nextDbusId_le_run {h h' : TrayHistory} {dumps : List (List TrayEntry)}
    (hrun : exec publish h dumps = some h') : h.state.nextDbusId ≤ h'.state.nextDbusId :=
  exec_relates (R := fun a b ↦ a.state.nextDbusId ≤ b.state.nextDbusId) (fun _ ↦ le_refl _)
    (fun _ _ _ ↦ le_trans) (fun _ _ _ ↦ nextDbusId_le_publish) hrun

theorem historySound_of_run {h h' : TrayHistory} {dumps : List (List TrayEntry)}
    (hs : HistorySound h) (hrun : exec publish h dumps = some h')
    (hids : h'.state.nextDbusId ≤ 2 ^ 31) : HistorySound h' := by
  refine exec_invariant (I := fun a ↦ a.state.nextDbusId ≤ 2 ^ 31 → HistorySound a) ?_
    (fun _ ↦ hs) hrun hids
  intro a dump b ha hpub hb
  exact (ha ((nextDbusId_le_publish hpub).trans hb)).step hpub hb

theorem handed_sub_of_run {h h' : TrayHistory} {dumps : List (List TrayEntry)}
    (hrun : exec publish h dumps = some h') : h.handed ⊆ h'.handed := by
  refine exec_relates (R := fun a b ↦ a.handed ⊆ b.handed) (fun _ ↦ List.Subset.refl _)
    (fun _ _ _ ↦ List.Subset.trans) ?_ hrun
  intro a dump b hpub
  obtain ⟨_, rfl⟩ := publish_eq_some.mp hpub
  exact List.subset_append_left _ _

theorem idSlots_sub_assignDbusId (st : WpTrayState) (isSeparator : Bool) (depth : ℕ)
    (anchor ordinal : UInt32) :
    st.idSlots ⊆ (assignDbusId st isSeparator depth anchor ordinal).2.idSlots := by
  unfold assignDbusId
  split
  · exact List.Subset.refl _
  · split
    · exact List.Subset.refl _
    · exact List.subset_append_left _ _

theorem idSlots_sub_assignStableDbusIdsFrom (scan : DepthScan) (st : WpTrayState)
    (dump : List TrayEntry) :
    st.idSlots ⊆ (assignStableDbusIdsFrom scan st dump).2.idSlots := by
  induction dump generalizing scan st with
  | nil => exact List.Subset.refl _
  | cons e es ih =>
      apply List.Subset.trans (idSlots_sub_assignDbusId st (scanEntry scan e).1.isSeparator
        (scanEntry scan e).1.depth (scanEntry scan e).1.anchor (scanEntry scan e).1.ordinal)
      exact ih (scanEntry scan e).2 _

theorem idSlots_sub_of_run {h h' : TrayHistory} {dumps : List (List TrayEntry)}
    (hrun : exec publish h dumps = some h') : h.state.idSlots ⊆ h'.state.idSlots := by
  refine exec_relates (R := fun a b ↦ a.state.idSlots ⊆ b.state.idSlots)
    (fun _ ↦ List.Subset.refl _) (fun _ _ _ ↦ List.Subset.trans) ?_ hrun
  intro a dump b hpub
  obtain ⟨_, rfl⟩ := publish_eq_some.mp hpub
  exact idSlots_sub_assignStableDbusIdsFrom .zero a.state dump

/-- Different keys never share an id. -/
theorem HistorySound.dbusId_ne {h : TrayHistory} (hs : HistorySound h)
    {p q : TrayKey × TrayEntry} (hp : p ∈ h.handed) (hq : q ∈ h.handed) (hne : p.1 ≠ q.1) :
    p.2.dbusId ≠ q.2.dbusId := by
  intro heq
  apply hne
  exact hs.table.owner (p.1, p.2.dbusId) (List.mem_map_of_mem hp) (q.1, q.2.dbusId)
    (List.mem_map_of_mem hq) heq

/-- A stored key is only ever given its stored id. -/
theorem HistorySound.dbusId_stored {h : TrayHistory} (hs : HistorySound h) {s : WpTrayIdSlot}
    (hslot : s ∈ h.state.idSlots) {p : TrayKey × TrayEntry} (hp : p ∈ h.handed)
    (hkey : p.1 = s.key) : p.2.dbusId = s.dbusId := by
  have hlookup : h.state.interner.lookup p.1 = some s.dbusId := by
    rw [hkey]
    exact Interner.lookup_of_mem_slots hs.table.keys_nodup
      (WpTrayState.mem_interner_slots hslot)
  exact hs.table.stable (p.1, p.2.dbusId) (List.mem_map_of_mem hp) s.dbusId hlookup

theorem HistorySound.dbusId_ne_zero {h : TrayHistory} (hs : HistorySound h)
    (hids : h.state.nextDbusId ≤ 2 ^ 31) {p : TrayKey × TrayEntry} (hp : p ∈ h.handed) :
    p.2.dbusId ≠ 0 := by
  obtain ⟨n, hpos, hn, hid⟩ := hs.table.issued (p.1, p.2.dbusId) (List.mem_map_of_mem hp)
  have hlt : n < h.state.nextDbusId := hn
  rw [show p.2.dbusId = dbusIdOf n from hid, dbusIdOf_of_lt (hlt.trans_le hids)]
  omega

/-- Any current entry with the id of an old plain entry has its key, and so
its Win32 id. -/
theorem HistorySound.same_command {h : TrayHistory} (hs : HistorySound h)
    {p : TrayKey × TrayEntry} (hp : p ∈ h.handed) (hplain : p.2.isSeparator = false)
    {e : TrayEntry} (he : e ∈ h.state.entries) (hid : e.dbusId = p.2.dbusId) :
    e.isSeparator = false ∧ e.id = p.2.id := by
  obtain ⟨k, hk⟩ := hs.current e he
  have hkey : k = p.1 := by
    by_contra hne
    exact hs.dbusId_ne hk hp hne hid
  obtain ⟨hsep, hanchor⟩ := hs.key_entry _ hk
  obtain ⟨hsep', hanchor'⟩ := hs.key_entry _ hp
  have hplain' : e.isSeparator = false := by
    rw [← hsep, hkey, hsep', hplain]
  refine ⟨hplain', ?_⟩
  rw [← hanchor hplain', ← hanchor' hplain, hkey]

theorem handleMenuEvent_clicked (st : WpTrayState) {id : ℤ} (hid : id ≠ 0) :
    handleMenuEvent st id "clicked" =
      (st.entries.find? fun e ↦ e.dbusId == id).bind
        fun e ↦ if e.isSeparator then none else some e.id := by
  rw [handleMenuEvent, if_pos ⟨rfl, hid⟩, findIndexById]
  cases hidx : st.entries.findIdx? fun e ↦ e.dbusId == id with
  | none =>
      have hnone : st.entries.find? (fun e ↦ e.dbusId == id) = none := by
        rw [List.find?_eq_none]
        intro e he
        simpa using List.findIdx?_eq_none_iff.mp hidx e he
      rw [hnone]
      rfl
  | some i =>
      have hfind : st.entries.find? (fun e ↦ e.dbusId == id) = st.entries[i]? := by
        rw [List.find?_eq_bind_findIdx?_getElem?, hidx]
        rfl
      rw [hfind]

/-- Ids stand for keys through any run, and a click on the id of a plain
entry sends its Win32 id or nothing. -/
theorem menu_ids_stable_and_routed {early late : List (List TrayEntry)} {h₁ h₂ : TrayHistory}
    (hearly : exec publish .initial early = some h₁) (hlate : exec publish h₁ late = some h₂)
    (hids : h₂.state.nextDbusId ≤ 2 ^ 31) :
    (∀ p ∈ h₂.handed, ∀ q ∈ h₂.handed, p.1 ≠ q.1 → p.2.dbusId ≠ q.2.dbusId) ∧
      (∀ s ∈ h₁.state.idSlots, ∀ p ∈ h₂.handed, p.1 = s.key → p.2.dbusId = s.dbusId) ∧
      ∀ p ∈ h₁.handed, p.2.isSeparator = false →
        (handleMenuEvent h₂.state p.2.dbusId "clicked" = none ∨
          handleMenuEvent h₂.state p.2.dbusId "clicked" = some p.2.id) ∧
        ((∃ e ∈ h₂.state.entries, e.dbusId = p.2.dbusId) →
          handleMenuEvent h₂.state p.2.dbusId "clicked" = some p.2.id) := by
  have hs₁ := historySound_of_run HistorySound.initial hearly
    ((nextDbusId_le_run hlate).trans hids)
  have hs := historySound_of_run hs₁ hlate hids
  refine ⟨fun p hp q hq ↦ hs.dbusId_ne hp hq,
    fun s hslot p hp ↦ hs.dbusId_stored (idSlots_sub_of_run hlate hslot) hp, ?_⟩
  intro p hp hplain
  have hp := handed_sub_of_run hlate hp
  rw [handleMenuEvent_clicked h₂.state (hs.dbusId_ne_zero hids hp)]
  cases hfind : h₂.state.entries.find? fun e ↦ e.dbusId == p.2.dbusId with
  | none =>
      refine ⟨Or.inl rfl, ?_⟩
      rintro ⟨e, he, hid⟩
      have hne := List.find?_eq_none.mp hfind e he
      exact absurd hid (by simpa using hne)
  | some e =>
      have hid : e.dbusId = p.2.dbusId := by simpa using List.find?_some hfind
      obtain ⟨hsep, hcommand⟩ := hs.same_command hp hplain (List.mem_of_find?_eq_some hfind) hid
      simp [hsep, hcommand]

/-- A top-level item that is enabled, unchecked and without text. -/
def plainEntry (id : UInt32) : TrayEntry := ⟨0, id, 0, 0, [], 0⟩

/-- The item 7 keeps its id when another one is put before it. -/
theorem menu_ids_stable_and_routed_rebuild : ∃ h₁ h₂ : TrayHistory,
    exec publish .initial [[plainEntry 7]] = some h₁ ∧
      exec publish h₁ [[plainEntry 9, plainEntry 7]] = some h₂ ∧
      h₂.state.nextDbusId ≤ 2 ^ 31 ∧ handleMenuEvent h₂.state 1 "clicked" = some 7 := by
  refine ⟨_, _, rfl, rfl, by decide, ?_⟩
  have hrouted := (menu_ids_stable_and_routed
    (rfl : exec publish .initial [[plainEntry 7]] = some _)
    (rfl : exec publish _ [[plainEntry 9, plainEntry 7]] = some _) (by decide)).2.2
  exact (hrouted (⟨false, 0, 7, 0⟩, ⟨0, 7, 0, 0, [], 1⟩) (by decide) rfl).2 (by decide)

end Wallpiper.Tray
