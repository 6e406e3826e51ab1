import Mathlib.Logic.Function.Basic
import Wallpiper.Foundations.Interning
import Wallpiper.Foundations.Runs
import Wallpiper.Tray.MenuLayout

/-!
# D-Bus ids of menu entries

Each published dump gets D-Bus ids from a slot table of at most 2048 keys.
The key of a plain entry is its Win32 id; a separator is identified by the
last plain entry before it at its depth and by its ordinal after that entry.
The table is an interning table whose identifiers are the `int32_t` values
of a counter.
-/

namespace Wallpiper.Tray

open Foundations

def wpTrayMaxMenuDepth : ℕ := 8

def wpTrayMaxIdSlots : ℕ := 2048

structure WpTrayIdSlot where
  isSeparator : Bool
  depth : ℕ
  anchor : UInt32
  ordinal : UInt32
  dbusId : ℤ
  deriving DecidableEq, Repr

/-- The part of the tray state under its mutex that menus use.  `nextDbusId`
counts up from one; the id handed out is its `int32_t` value. -/
structure WpTrayState where
  entries : List TrayEntry
  generation : UInt64
  idSlots : List WpTrayIdSlot
  nextDbusId : ℕ
  deriving DecidableEq, Repr

def WpTrayState.initial : WpTrayState :=
  { entries := [], generation := 0, idSlots := [], nextDbusId := 1 }

def dbusIdOf (n : ℕ) : ℤ := (Int32.ofNat n).toInt

def assignDbusId (st : WpTrayState) (isSeparator : Bool) (depth : ℕ) (anchor ordinal : UInt32) :
    ℤ × WpTrayState :=
  match st.idSlots.find? fun s ↦ s.isSeparator == isSeparator && s.depth == depth &&
      s.anchor == anchor && s.ordinal == ordinal with
  | some s => (s.dbusId, st)
  | none =>
      if st.idSlots.length ≥ wpTrayMaxIdSlots then
        (dbusIdOf st.nextDbusId, { st with nextDbusId := st.nextDbusId + 1 })
      else
        let s : WpTrayIdSlot := ⟨isSeparator, depth, anchor, ordinal, dbusIdOf st.nextDbusId⟩
        (s.dbusId, { st with
          idSlots := st.idSlots ++ [s], nextDbusId := st.nextDbusId + 1 })

/-! ## The scan over a dump -/

/-- The two arrays of `assign_stable_dbus_ids`, indexed by depth. -/
structure DepthScan where
  lastNonsepAtDepth : ℕ → UInt32
  sepOrdinalAtDepth : ℕ → UInt32

def DepthScan.zero : DepthScan := ⟨fun _ ↦ 0, fun _ ↦ 0⟩

/-- Depths below the current entry start over. -/
def DepthScan.clearBelow (scan : DepthScan) (depth : ℕ) : DepthScan :=
  { lastNonsepAtDepth := fun d ↦ if depth < d then 0 else scan.lastNonsepAtDepth d
    sepOrdinalAtDepth := fun d ↦ if depth < d then 0 else scan.sepOrdinalAtDepth d }

def clampDepth (depth : ℤ) : ℕ :=
  if depth < 0 then 0
  else if depth ≥ wpTrayMaxMenuDepth then wpTrayMaxMenuDepth - 1
  else depth.toNat

/-- The arguments of an `assign_dbus_id` call. -/
structure TrayKey where
  isSeparator : Bool
  depth : ℕ
  anchor : UInt32
  ordinal : UInt32
  deriving DecidableEq, Repr

/-- The key of the next entry and the arrays after it. -/
def scanEntry (scan : DepthScan) (e : TrayEntry) : TrayKey × DepthScan :=
  let depth := clampDepth e.depth
  let scan := scan.clearBelow depth
  if e.isSeparator then
    let ordinal := scan.sepOrdinalAtDepth depth
    (⟨true, depth, scan.lastNonsepAtDepth depth, ordinal⟩,
      { scan with
        sepOrdinalAtDepth := Function.update scan.sepOrdinalAtDepth depth (ordinal + 1) })
  else
    (⟨false, depth, e.id, 0⟩,
      { lastNonsepAtDepth := Function.update scan.lastNonsepAtDepth depth e.id
        sepOrdinalAtDepth := Function.update scan.sepOrdinalAtDepth depth 0 })

def assignStableDbusIdsFrom (scan : DepthScan) (st : WpTrayState) :
    List TrayEntry → List TrayEntry × WpTrayState
  | [] => ([], st)
  | e :: es =>
      let (key, scan) := scanEntry scan e
      let (id, st) := assignDbusId st key.isSeparator key.depth key.anchor key.ordinal
      let (rest, st) := assignStableDbusIdsFrom scan st es
      ({ e with dbusId := id } :: rest, st)

def assignStableDbusIds (st : WpTrayState) (entries : List TrayEntry) :
    List TrayEntry × WpTrayState :=
  assignStableDbusIdsFrom .zero st entries

def wpTrayStateOnMenuDumpChanged (st : WpTrayState) (entries : List TrayEntry) : WpTrayState :=
  let (assigned, st) := assignStableDbusIds st entries
  { st with entries := assigned, generation := st.generation + 1 }

/-- The command that a menu event sends to the loader, if any. -/
def handleMenuEvent (st : WpTrayState) (id : ℤ) (eventId : String) : Option UInt32 :=
  if eventId = "clicked" ∧ id ≠ 0 then
    match findIndexById st.entries id with
    | none => none
    | some idx => st.entries[idx]?.bind fun e ↦ if e.isSeparator then none else some e.id
  else none

/-! ## The table interns keys -/

def WpTrayIdSlot.key (s : WpTrayIdSlot) : TrayKey :=
  ⟨s.isSeparator, s.depth, s.anchor, s.ordinal⟩

def WpTrayState.interner (st : WpTrayState) : Interner TrayKey ℤ :=
  ⟨st.idSlots.map fun s ↦ (s.key, s.dbusId), st.nextDbusId⟩

theorem WpTrayState.mem_interner_slots {st : WpTrayState} {s : WpTrayIdSlot}
    (hs : s ∈ st.idSlots) : (s.key, s.dbusId) ∈ st.interner.slots :=
  List.mem_map_of_mem (f := fun s ↦ (WpTrayIdSlot.key s, s.dbusId)) hs

theorem lookup_interner (st : WpTrayState) (key : TrayKey) :
    st.interner.lookup key =
      (st.idSlots.find? fun s ↦ s.isSeparator == key.isSeparator && s.depth == key.depth &&
        s.anchor == key.anchor && s.ordinal == key.ordinal).map WpTrayIdSlot.dbusId := by
  have hkey : ((fun p : TrayKey × ℤ ↦ decide (p.1 = key)) ∘
      fun s : WpTrayIdSlot ↦ (s.key, s.dbusId)) =
      fun s ↦ s.isSeparator == key.isSeparator && s.depth == key.depth &&
        s.anchor == key.anchor && s.ordinal == key.ordinal := by
    funext s
    rw [Bool.eq_iff_iff]
    cases key
    simp [WpTrayIdSlot.key, and_assoc]
  rw [Interner.lookup, WpTrayState.interner, List.find?_map, hkey, Option.map_map]
  rfl

theorem assignDbusId_interner (st : WpTrayState) (key : TrayKey) :
    (assignDbusId st key.isSeparator key.depth key.anchor key.ordinal).1 =
        (Interner.intern wpTrayMaxIdSlots dbusIdOf st.interner key).1 ∧
      (assignDbusId st key.isSeparator key.depth key.anchor key.ordinal).2.interner =
        (Interner.intern wpTrayMaxIdSlots dbusIdOf st.interner key).2 := by
  have hlookup := lookup_interner st key
  have hlen : st.interner.slots.length = st.idSlots.length := List.length_map _
  unfold assignDbusId Interner.intern
  cases hfind : st.idSlots.find? fun s ↦ s.isSeparator == key.isSeparator &&
      s.depth == key.depth && s.anchor == key.anchor && s.ordinal == key.ordinal with
  | some s =>
      rw [hfind] at hlookup
      rw [hlookup]
      exact ⟨rfl, rfl⟩
  | none =>
      rw [hfind] at hlookup
      rw [hlookup]
      by_cases hcap : wpTrayMaxIdSlots ≤ st.idSlots.length
      · simp only [ge_iff_le, hlen, if_pos hcap]
        exact ⟨rfl, rfl⟩
      · simp only [ge_iff_le, hlen, if_neg hcap]
        refine ⟨rfl, ?_⟩
        simp [WpTrayState.interner, WpTrayIdSlot.key]

/-- The keys of a dump, in order. -/
def entryKeysFrom (scan : DepthScan) : List TrayEntry → List TrayKey
  | [] => []
  | e :: es => (scanEntry scan e).1 :: entryKeysFrom (scanEntry scan e).2 es

def entryKeys (entries : List TrayEntry) : List TrayKey := entryKeysFrom .zero entries

theorem entryKeysFrom_length (scan : DepthScan) (entries : List TrayEntry) :
    (entryKeysFrom scan entries).length = entries.length := by
  induction entries generalizing scan with
  | nil => rfl
  | cons e es ih => simp [entryKeysFrom, ih]

theorem assignStableDbusIdsFrom_interner (scan : DepthScan) (st : WpTrayState)
    (entries : List TrayEntry) :
    (assignStableDbusIdsFrom scan st entries).1.map TrayEntry.dbusId =
        (Interner.internAll wpTrayMaxIdSlots dbusIdOf st.interner
          (entryKeysFrom scan entries)).1 ∧
      (assignStableDbusIdsFrom scan st entries).2.interner =
        (Interner.internAll wpTrayMaxIdSlots dbusIdOf st.interner
          (entryKeysFrom scan entries)).2 := by
  induction entries generalizing scan st with
  | nil => exact ⟨rfl, rfl⟩
  | cons e es ih =>
      obtain ⟨hid, hstate⟩ := assignDbusId_interner st (scanEntry scan e).1
      obtain ⟨hids, hrest⟩ := ih (scanEntry scan e).2 (assignDbusId st
        (scanEntry scan e).1.isSeparator (scanEntry scan e).1.depth
        (scanEntry scan e).1.anchor (scanEntry scan e).1.ordinal).2
      rw [hstate] at hids hrest
      simp only [assignStableDbusIdsFrom, entryKeysFrom, Interner.internAll, List.map_cons]
      exact ⟨by rw [hid, hids], hrest⟩

theorem assignStableDbusIds_interner (st : WpTrayState) (entries : List TrayEntry) :
    (assignStableDbusIds st entries).1.map TrayEntry.dbusId =
        (Interner.internAll wpTrayMaxIdSlots dbusIdOf st.interner (entryKeys entries)).1 ∧
      (assignStableDbusIds st entries).2.interner =
        (Interner.internAll wpTrayMaxIdSlots dbusIdOf st.interner (entryKeys entries)).2 :=
  assignStableDbusIdsFrom_interner .zero st entries

/-- Below `2^31` the ids are the numbers themselves. -/
theorem dbusIdOf_of_lt {n : ℕ} (hn : n < 2 ^ 31) : dbusIdOf n = n := Int32.toInt_ofNat_of_lt hn

theorem dbusIdOf_injOn {bound : ℕ} (hbound : bound ≤ 2 ^ 31) :
    Set.InjOn dbusIdOf {n | n < bound} := by
  intro n hn m hm heq
  rw [dbusIdOf_of_lt (hn.trans_le hbound), dbusIdOf_of_lt (hm.trans_le hbound)] at heq
  exact_mod_cast heq

/-! ## Only the id of an entry changes -/

theorem assignStableDbusIdsFrom_sameButId (scan : DepthScan) (st : WpTrayState)
    (entries : List TrayEntry) :
    List.Forall₂ (fun e e' ↦ ∃ id, e' = { e with dbusId := id }) entries
      (assignStableDbusIdsFrom scan st entries).1 := by
  induction entries generalizing scan st with
  | nil => exact List.Forall₂.nil
  | cons e es ih => exact List.Forall₂.cons ⟨_, rfl⟩ (ih _ _)

end Wallpiper.Tray
