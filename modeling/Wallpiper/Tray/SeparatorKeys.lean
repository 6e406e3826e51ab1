import Mathlib.Data.List.Duplicate
import Wallpiper.Tray.IdStability

/-!
# When published ids are unique

Plain entries have keys of their own when their Win32 ids differ.  A
separator shares its key with another one exactly when both count from
anchor zero at one depth, which happens when two menus of that depth start
with a separator.  Whether the shared key becomes a shared id depends only
on the room in the slot table.
-/

namespace Wallpiper.Tray

open Foundations

/-- The last of the entries that is not deeper than `d`. -/
def lastNotDeeper (entries : List TrayEntry) (d : ℤ) : Option TrayEntry :=
  entries.reverse.find? fun p ↦ p.depth ≤ d

/-- A separator of depth `d` at the start of its menu, or right after a
plain entry of its menu whose Win32 id is zero. -/
def ZeroStart (entries : List TrayEntry) (k : ℕ) (d : ℤ) : Prop :=
  ∃ e, entries[k]? = some e ∧ e.isSeparator = true ∧ e.depth = d ∧
    ∀ p, lastNotDeeper (entries.take k) d = some p →
      p.depth < d ∨ p.isSeparator = false ∧ p.id = 0

def zeroKey (d : ℕ) : TrayKey := ⟨true, d, 0, 0⟩

/-- Two such separators of one depth only occur when their key has no slot
and the table is used up before the first of them is reached. -/
def ZeroStartsApart (st : WpTrayState) (dump : List TrayEntry) : Prop :=
  ∀ (i j : ℕ) (d : ℤ), i < j → ZeroStart dump i d → ZeroStart dump j d →
    zeroKey d.toNat ∉ st.idSlots.map WpTrayIdSlot.key ∧
      wpTrayMaxIdSlots ≤
        (st.idSlots.map WpTrayIdSlot.key ++ entryKeys (dump.take i)).toFinset.card

/-- The dumps of the loader: depths `0..4` in preorder, distinct ids. -/
structure LoaderDump (dump : List TrayEntry) : Prop where
  length_le : dump.length ≤ wpTrayMaxEntries
  preorder : PreorderDump dump
  depth_le : ∀ e ∈ dump, e.depth ≤ 4
  ids_nodup : ((dump.filter fun e ↦ !e.isSeparator).map TrayEntry.id).Nodup

/-! ## Scanning one more entry -/

def scanAfter (scan : DepthScan) : List TrayEntry → DepthScan
  | [] => scan
  | e :: es => scanAfter (scanEntry scan e).2 es

theorem scanAfter_concat (scan : DepthScan) (entries : List TrayEntry) (e : TrayEntry) :
    scanAfter scan (entries ++ [e]) = (scanEntry (scanAfter scan entries) e).2 := by
  induction entries generalizing scan with
  | nil => rfl
  | cons e' es ih => exact ih _

theorem entryKeysFrom_append (scan : DepthScan) (es fs : List TrayEntry) :
    entryKeysFrom scan (es ++ fs) =
      entryKeysFrom scan es ++ entryKeysFrom (scanAfter scan es) fs := by
  induction es generalizing scan with
  | nil => rfl
  | cons e es ih => simp [entryKeysFrom, scanAfter, ih]

theorem entryKeys_concat (entries : List TrayEntry) (e : TrayEntry) :
    entryKeys (entries ++ [e]) =
      entryKeys entries ++ [(scanEntry (scanAfter .zero entries) e).1] :=
  entryKeysFrom_append .zero entries [e]

theorem entryKeys_length (entries : List TrayEntry) :
    (entryKeys entries).length = entries.length := entryKeysFrom_length .zero entries

theorem entryKeys_take (entries : List TrayEntry) (k : ℕ) :
    entryKeys (entries.take k) = (entryKeys entries).take k := by
  by_cases hk : k ≤ entries.length
  · have hlen : (entryKeys (entries.take k)).length = k := by
      rw [entryKeys_length, List.length_take, Nat.min_eq_left hk]
    have hsplit := entryKeysFrom_append .zero (entries.take k) (entries.drop k)
    rw [List.take_append_drop] at hsplit
    rw [entryKeys] at hlen
    rw [entryKeys, entryKeys, hsplit, List.take_append_of_le_length hlen.ge,
      List.take_of_length_le hlen.le]
  · have hle : entries.length ≤ k := Nat.le_of_not_le hk
    rw [List.take_of_length_le hle,
      List.take_of_length_le ((entryKeys_length entries).trans_le hle)]

theorem entryKeys_getElem? {entries : List TrayEntry} {k : ℕ} {e : TrayEntry}
    (he : entries[k]? = some e) :
    (entryKeys entries)[k]? =
      some (scanEntry (scanAfter .zero (entries.take k)) e).1 := by
  have hk : k < entries.length := (List.getElem?_eq_some_iff.mp he).1
  have htake : entries.take (k + 1) = entries.take k ++ [e] := by
    rw [List.take_add_one, he]
    rfl
  have hkeys := entryKeys_take entries (k + 1)
  have hlen : (entryKeys (entries.take k)).length = k := by
    rw [entryKeys_length, List.length_take, Nat.min_eq_left hk.le]
  rw [htake, entryKeys_concat] at hkeys
  calc
    (entryKeys entries)[k]? = ((entryKeys entries).take (k + 1))[k]? := by
      rw [List.getElem?_take, if_pos (Nat.lt_succ_self k)]
    _ = some (scanEntry (scanAfter .zero (entries.take k)) e).1 := by
      rw [← hkeys, List.getElem?_append_right hlen.le, hlen, Nat.sub_self]
      rfl

theorem clampDepth_of_le {d : ℤ} (hd₀ : 0 ≤ d) (hd : d ≤ 4) : clampDepth d = d.toNat := by
  unfold clampDepth wpTrayMaxMenuDepth
  rw [if_neg (by omega), if_neg (by omega)]

theorem scanEntry_separator (scan : DepthScan) {e : TrayEntry} (he : e.isSeparator = true) :
    (scanEntry scan e).1 = ⟨true, clampDepth e.depth, scan.lastNonsepAtDepth (clampDepth e.depth),
      scan.sepOrdinalAtDepth (clampDepth e.depth)⟩ := by
  simp [scanEntry, he, DepthScan.clearBelow]

theorem scanEntry_plain (scan : DepthScan) {e : TrayEntry} (he : e.isSeparator = false) :
    (scanEntry scan e).1 = ⟨false, clampDepth e.depth, e.id, 0⟩ := by
  simp [scanEntry, he]

/-- What one entry leaves in the arrays at every depth. -/
theorem scanEntry_arrays (scan : DepthScan) (e : TrayEntry) (d : ℕ) :
    (d < clampDepth e.depth ∧
        (scanEntry scan e).2.lastNonsepAtDepth d = scan.lastNonsepAtDepth d ∧
        (scanEntry scan e).2.sepOrdinalAtDepth d = scan.sepOrdinalAtDepth d) ∨
      (clampDepth e.depth < d ∧ (scanEntry scan e).2.lastNonsepAtDepth d = 0 ∧
        (scanEntry scan e).2.sepOrdinalAtDepth d = 0) ∨
      (d = clampDepth e.depth ∧ e.isSeparator = true ∧
        (scanEntry scan e).2.lastNonsepAtDepth d = scan.lastNonsepAtDepth d ∧
        (scanEntry scan e).2.sepOrdinalAtDepth d = scan.sepOrdinalAtDepth d + 1) ∨
      (d = clampDepth e.depth ∧ e.isSeparator = false ∧
        (scanEntry scan e).2.lastNonsepAtDepth d = e.id ∧
        (scanEntry scan e).2.sepOrdinalAtDepth d = 0) := by
  rcases Nat.lt_trichotomy d (clampDepth e.depth) with hlt | heq | hgt
  · left
    refine ⟨hlt, ?_, ?_⟩
    all_goals
      cases hsep : e.isSeparator
      all_goals simp [scanEntry, hsep, DepthScan.clearBelow, hlt.ne, Nat.not_lt_of_lt hlt]
  · right; right
    subst heq
    cases hsep : e.isSeparator
    all_goals simp [scanEntry, hsep, DepthScan.clearBelow]
  · right; left
    refine ⟨hgt, ?_, ?_⟩
    all_goals
      cases hsep : e.isSeparator
      all_goals simp [scanEntry, hsep, DepthScan.clearBelow, hgt.ne', hgt]

/-! ## Zero starts have the zero key -/

theorem lastNotDeeper_concat (entries : List TrayEntry) (e : TrayEntry) (d : ℤ) :
    lastNotDeeper (entries ++ [e]) d =
      if e.depth ≤ d then some e else lastNotDeeper entries d := by
  simp only [lastNotDeeper, List.reverse_append, List.reverse_singleton, List.singleton_append,
    List.find?_cons]
  by_cases he : e.depth ≤ d
  · simp [he]
  · simp [he]

theorem sepOrdinal_le (entries : List TrayEntry) (hlen : entries.length ≤ wpTrayMaxEntries)
    (d : ℕ) : ((scanAfter .zero entries).sepOrdinalAtDepth d).toNat ≤ entries.length := by
  induction entries using List.reverseRecOn with
  | nil => exact Nat.zero_le _
  | append_singleton es e ih =>
      rw [List.length_append, List.length_singleton] at hlen ⊢
      have hes := ih (by omega)
      rw [scanAfter_concat]
      obtain ⟨_, _, h⟩ | ⟨_, _, h⟩ | ⟨_, _, _, h⟩ | ⟨_, _, _, h⟩ :=
        scanEntry_arrays (scanAfter .zero es) e d
      · rw [h]
        omega
      · rw [h]
        exact Nat.zero_le _
      · rw [h, UInt32.toNat_add]
        exact (Nat.mod_le _ _).trans (Nat.succ_le_succ hes)
      · rw [h]
        exact Nat.zero_le _

theorem sepOrdinal_succ {entries : List TrayEntry} (hlen : entries.length ≤ wpTrayMaxEntries)
    (d : ℕ) : ((scanAfter .zero entries).sepOrdinalAtDepth d + 1).toNat =
      ((scanAfter .zero entries).sepOrdinalAtDepth d).toNat + 1 := by
  have hle := sepOrdinal_le entries hlen d
  have hmax : wpTrayMaxEntries = 512 := rfl
  rw [UInt32.toNat_add, show (1 : UInt32).toNat = 1 from rfl]
  exact Nat.mod_eq_of_lt (by omega)

theorem arrays_zero_iff {entries : List TrayEntry} (hlen : entries.length ≤ wpTrayMaxEntries)
    (hdepth : ∀ e ∈ entries, 0 ≤ e.depth ∧ e.depth ≤ 4) (d : ℕ) :
    ((scanAfter .zero entries).lastNonsepAtDepth d = 0 ∧
        (scanAfter .zero entries).sepOrdinalAtDepth d = 0) ↔
      ∀ p, lastNotDeeper entries d = some p →
        p.depth < d ∨ p.isSeparator = false ∧ p.id = 0 := by
  induction entries using List.reverseRecOn with
  | nil => simp [scanAfter, DepthScan.zero, lastNotDeeper]
  | append_singleton es e ih =>
      have hlen' : es.length ≤ wpTrayMaxEntries := by
        rw [List.length_append, List.length_singleton] at hlen
        omega
      have hes := ih hlen' fun p hp ↦ hdepth p (List.mem_append_left _ hp)
      obtain ⟨he₀, he⟩ := hdepth e (List.mem_append_right _ (List.mem_singleton_self e))
      have hclamp := clampDepth_of_le he₀ he
      rw [scanAfter_concat, lastNotDeeper_concat]
      obtain ⟨hd, hl, ho⟩ | ⟨hd, hl, ho⟩ | ⟨hd, hsep, hl, ho⟩ | ⟨hd, hsep, hl, ho⟩ :=
        scanEntry_arrays (scanAfter .zero es) e d
      all_goals rw [hclamp] at hd
      · rw [hl, ho, if_neg (by omega)]
        exact hes
      · rw [hl, ho, if_pos (by omega)]
        have hlt : e.depth < d := by omega
        simp [hlt]
      · have hne : (scanAfter .zero es).sepOrdinalAtDepth d + 1 ≠ 0 := by
          intro hzero
          have hsucc := sepOrdinal_succ hlen' d
          rw [hzero] at hsucc
          exact absurd hsucc (by simp)
        have hge : ¬ e.depth < d := by omega
        rw [hl, ho, if_pos (by omega)]
        simp [hne, hge, hsep]
      · have hge : ¬ e.depth < d := by omega
        rw [hl, ho, if_pos (by omega)]
        simp [hge, hsep]

theorem LoaderDump.depths {dump : List TrayEntry} (h : LoaderDump dump) :
    ∀ e ∈ dump, 0 ≤ e.depth ∧ e.depth ≤ 4 := by
  intro e he
  obtain ⟨k, hk⟩ := List.getElem?_of_mem he
  refine ⟨?_, h.depth_le e he⟩
  apply PreorderFrom.nonneg h.preorder (k := k)
  simp [hk]

theorem zeroStart_iff {dump : List TrayEntry} (h : LoaderDump dump) (k d : ℕ) :
    ZeroStart dump k d ↔ (entryKeys dump)[k]? = some (zeroKey d) := by
  have hlen : (dump.take k).length ≤ wpTrayMaxEntries :=
    (List.length_take_le' k dump).trans h.length_le
  have hzero := fun d ↦ arrays_zero_iff hlen
    (fun e he ↦ h.depths e (List.mem_of_mem_take he)) d
  constructor
  · rintro ⟨e, he, hsep, hdepth, hlast⟩
    obtain ⟨hl, ho⟩ := (hzero d).mpr hlast
    have hmem := h.depths e (List.mem_of_getElem? he)
    rw [entryKeys_getElem? he, scanEntry_separator _ hsep, clampDepth_of_le hmem.1 hmem.2,
      hdepth, Int.toNat_natCast, hl, ho]
    rfl
  · intro hkey
    have hk : k < dump.length := by
      rw [← entryKeys_length]
      exact (List.getElem?_eq_some_iff.mp hkey).1
    have he : dump[k]? = some dump[k] := List.getElem?_eq_getElem hk
    have hmem := h.depths dump[k] (List.getElem_mem hk)
    rw [entryKeys_getElem? he] at hkey
    cases hsep : dump[k].isSeparator with
    | false =>
        rw [scanEntry_plain _ hsep] at hkey
        simp [zeroKey] at hkey
    | true =>
        rw [scanEntry_separator _ hsep, clampDepth_of_le hmem.1 hmem.2] at hkey
        simp only [zeroKey, Option.some.injEq, TrayKey.mk.injEq, true_and] at hkey
        obtain ⟨hd, hl, ho⟩ := hkey
        have hdepth : dump[k].depth = d := by omega
        rw [hd] at hl ho
        exact ⟨dump[k], he, hsep, hdepth, (hzero d).mp ⟨hl, ho⟩⟩

/-! ## Other keys do not repeat -/

/-- What the keys so far say about the arrays.  Anchors other than zero
belong to one plain entry, and the separators counted from an anchor are
those below the current ordinal. -/
structure ScanSeen (ks : List TrayKey) (scan : DepthScan) : Prop where
  anchored : ∀ d a o, (⟨true, d, a, o⟩ : TrayKey) ∈ ks → a ≠ 0 →
    (⟨false, d, a, 0⟩ : TrayKey) ∈ ks
  last_seen : ∀ d, scan.lastNonsepAtDepth d ≠ 0 →
    (⟨false, d, scan.lastNonsepAtDepth d, 0⟩ : TrayKey) ∈ ks
  run : ∀ d o, scan.lastNonsepAtDepth d ≠ 0 →
    (⟨true, d, scan.lastNonsepAtDepth d, o⟩ : TrayKey) ∈ ks →
      o.toNat < (scan.sepOrdinalAtDepth d).toNat
  zero_first : ∀ (i d : ℕ) (o : UInt32), ks[i]? = some ⟨true, d, 0, o⟩ →
    ∃ i', i' ≤ i ∧ ks[i']? = some (zeroKey d)
  zero_run : ∀ d o, scan.lastNonsepAtDepth d = 0 → scan.sepOrdinalAtDepth d ≠ 0 →
    ks.count (zeroKey d) ≤ 1 → (⟨true, d, 0, o⟩ : TrayKey) ∈ ks →
      o.toNat < (scan.sepOrdinalAtDepth d).toNat
  counts : CountsSeen scan ks

theorem ScanSeen.zero : ScanSeen [] .zero := by
  refine ⟨?_, ?_, ?_, ?_, ?_, ?_⟩
  all_goals
    intros
    simp_all [DepthScan.zero, CountsSeen]

/-- A separator with a nonzero ordinal counted from zero follows a zero
start. -/
theorem ScanSeen.zeroKey_mem {ks : List TrayKey} {scan : DepthScan} (h : ScanSeen ks scan)
    {d : ℕ} (hlast : scan.lastNonsepAtDepth d = 0) (hne : scan.sepOrdinalAtDepth d ≠ 0) :
    zeroKey d ∈ ks := by
  have hprev := h.counts d hne
  rw [hlast] at hprev
  obtain ⟨i, hi⟩ := List.getElem?_of_mem hprev
  obtain ⟨i', _, hi'⟩ := h.zero_first i d _ hi
  exact List.mem_of_getElem? hi'

/-- The next key repeats an earlier one only if the zero key of its depth
then occurs twice. -/
theorem ScanSeen.repeats {ks : List TrayKey} {scan : DepthScan} (h : ScanSeen ks scan)
    {e : TrayEntry} (hnew : e.isSeparator = false → ∀ d, (⟨false, d, e.id, 0⟩ : TrayKey) ∉ ks)
    (hmem : (scanEntry scan e).1 ∈ ks) :
    ∃ d o, (scanEntry scan e).1 = ⟨true, d, 0, o⟩ ∧
      2 ≤ (ks ++ [(scanEntry scan e).1]).count (zeroKey d) := by
  cases hsep : e.isSeparator with
  | false =>
      rw [scanEntry_plain scan hsep] at hmem
      exact absurd hmem (hnew hsep _)
  | true =>
      rw [scanEntry_separator scan hsep] at hmem ⊢
      generalize clampDepth e.depth = c at hmem ⊢
      by_cases hlast : scan.lastNonsepAtDepth c = 0
      · rw [hlast] at hmem ⊢
        refine ⟨c, _, rfl, ?_⟩
        by_cases hord : scan.sepOrdinalAtDepth c = 0
        · have hpos : 0 < ks.count (zeroKey c) := by
            apply List.count_pos_iff.mpr
            rwa [hord] at hmem
          rw [hord, List.count_append]
          exact Nat.add_le_add hpos (List.count_pos_iff.mpr (List.mem_singleton_self _))
        · by_contra hle
          have hcount : ks.count (zeroKey c) ≤ 1 := by
            rw [List.count_append] at hle
            omega
          have hlt := h.zero_run c _ hlast hord hcount hmem
          omega
      · have hlt := h.run c _ hlast hmem
        omega

/-- A separator key is counted at the entry's own depth. -/
theorem eq_scanEntry_separator {scan : DepthScan} {e : TrayEntry} {d : ℕ} {a o : UInt32}
    (h : (⟨true, d, a, o⟩ : TrayKey) = (scanEntry scan e).1) :
    d = clampDepth e.depth ∧ a = scan.lastNonsepAtDepth d ∧ o = scan.sepOrdinalAtDepth d := by
  cases hsep : e.isSeparator with
  | false =>
      rw [scanEntry_plain scan hsep] at h
      exact absurd h (by simp)
  | true =>
      rw [scanEntry_separator scan hsep, TrayKey.mk.injEq] at h
      obtain ⟨_, rfl, ha, ho⟩ := h
      exact ⟨rfl, ha, ho⟩

theorem mem_concat_key {ks : List TrayKey} {k k' : TrayKey} (h : k' ∈ ks ++ [k]) :
    k' ∈ ks ∨ k' = k :=
  (List.mem_append.mp h).imp_right List.mem_singleton.mp

theorem ScanSeen.last_seen_step {ks : List TrayKey} {scan : DepthScan} (h : ScanSeen ks scan)
    (e : TrayEntry) {d : ℕ} (hd : (scanEntry scan e).2.lastNonsepAtDepth d ≠ 0) :
    (⟨false, d, (scanEntry scan e).2.lastNonsepAtDepth d, 0⟩ : TrayKey) ∈
      ks ++ [(scanEntry scan e).1] := by
  obtain ⟨_, hl, _⟩ | ⟨_, hl, _⟩ | ⟨_, _, hl, _⟩ | ⟨rfl, hsep, hl, _⟩ := scanEntry_arrays scan e d
  · rw [hl] at hd ⊢
    exact List.mem_append_left _ (h.last_seen d hd)
  · exact absurd hl hd
  · rw [hl] at hd ⊢
    exact List.mem_append_left _ (h.last_seen d hd)
  · rw [hl, scanEntry_plain scan hsep]
    exact List.mem_append_right _ (List.mem_singleton_self _)

theorem ScanSeen.run_step {ks : List TrayKey} {scan : DepthScan} (h : ScanSeen ks scan)
    {e : TrayEntry} (hnew : e.isSeparator = false → ∀ d, (⟨false, d, e.id, 0⟩ : TrayKey) ∉ ks)
    (hsucc : ∀ d, (scan.sepOrdinalAtDepth d + 1).toNat = (scan.sepOrdinalAtDepth d).toNat + 1)
    {d : ℕ} {o : UInt32} (hd : (scanEntry scan e).2.lastNonsepAtDepth d ≠ 0)
    (hk : (⟨true, d, (scanEntry scan e).2.lastNonsepAtDepth d, o⟩ : TrayKey) ∈
      ks ++ [(scanEntry scan e).1]) :
    o.toNat < ((scanEntry scan e).2.sepOrdinalAtDepth d).toNat := by
  obtain ⟨hlt, hl, ho⟩ | ⟨_, hl, _⟩ | ⟨_, hsep, hl, ho⟩ | ⟨rfl, hsep, hl, _⟩ :=
    scanEntry_arrays scan e d
  · rw [hl] at hd hk
    rw [ho]
    rcases mem_concat_key hk with hk | hk
    · exact h.run d o hd hk
    · exact absurd (eq_scanEntry_separator hk).1 hlt.ne
  · exact absurd hl hd
  · rw [hl] at hd hk
    rw [ho, hsucc]
    rcases mem_concat_key hk with hk | hk
    · exact Nat.lt_succ_of_lt (h.run d o hd hk)
    · rw [(eq_scanEntry_separator hk).2.2]
      exact Nat.lt_succ_self _
  · rw [hl] at hd hk
    rcases mem_concat_key hk with hk | hk
    · exact absurd (h.anchored _ _ o hk hd) (hnew hsep _)
    · rw [scanEntry_plain scan hsep] at hk
      exact absurd hk (by simp)

theorem ScanSeen.zero_first_step {ks : List TrayKey} {scan : DepthScan} (h : ScanSeen ks scan)
    (e : TrayEntry) {i d : ℕ} {o : UInt32}
    (hi : (ks ++ [(scanEntry scan e).1])[i]? = some ⟨true, d, 0, o⟩) :
    ∃ i', i' ≤ i ∧ (ks ++ [(scanEntry scan e).1])[i']? = some (zeroKey d) := by
  by_cases hlt : i < ks.length
  · rw [List.getElem?_append_left hlt] at hi
    obtain ⟨i', hle, hi'⟩ := h.zero_first i d o hi
    refine ⟨i', hle, ?_⟩
    rw [List.getElem?_append_left (hle.trans_lt hlt)]
    exact hi'
  · have hkey : (⟨true, d, 0, o⟩ : TrayKey) = (scanEntry scan e).1 := by
      rw [List.getElem?_append_right (Nat.le_of_not_lt hlt)] at hi
      exact List.mem_singleton.mp (List.mem_of_getElem? hi)
    obtain ⟨_, hlast, hord⟩ := eq_scanEntry_separator hkey
    by_cases hzero : scan.sepOrdinalAtDepth d = 0
    · refine ⟨i, le_refl i, ?_⟩
      rw [hi, hord, hzero, zeroKey]
    · obtain ⟨i', hi'⟩ := List.getElem?_of_mem (h.zeroKey_mem hlast.symm hzero)
      have hlt' : i' < ks.length := (List.getElem?_eq_some_iff.mp hi').1
      refine ⟨i', hlt'.le.trans (Nat.le_of_not_lt hlt), ?_⟩
      rw [List.getElem?_append_left hlt']
      exact hi'

theorem ScanSeen.zero_run_step {ks : List TrayKey} {scan : DepthScan} (h : ScanSeen ks scan)
    {e : TrayEntry}
    (hsucc : ∀ d, (scan.sepOrdinalAtDepth d + 1).toNat = (scan.sepOrdinalAtDepth d).toNat + 1)
    {d : ℕ} {o : UInt32} (hlast : (scanEntry scan e).2.lastNonsepAtDepth d = 0)
    (hord : (scanEntry scan e).2.sepOrdinalAtDepth d ≠ 0)
    (hcount : (ks ++ [(scanEntry scan e).1]).count (zeroKey d) ≤ 1)
    (hk : (⟨true, d, 0, o⟩ : TrayKey) ∈ ks ++ [(scanEntry scan e).1]) :
    o.toNat < ((scanEntry scan e).2.sepOrdinalAtDepth d).toNat := by
  rw [List.count_append] at hcount
  have hcount' : ks.count (zeroKey d) ≤ 1 := (Nat.le_add_right _ _).trans hcount
  obtain ⟨hlt, hl, ho⟩ | ⟨_, _, ho⟩ | ⟨hdepth, hsep, hl, ho⟩ | ⟨_, _, _, ho⟩ :=
    scanEntry_arrays scan e d
  · rw [hl] at hlast
    rw [ho] at hord ⊢
    rcases mem_concat_key hk with hk | hk
    · exact h.zero_run d o hlast hord hcount' hk
    · exact absurd (eq_scanEntry_separator hk).1 hlt.ne
  · exact absurd ho hord
  · rw [hl] at hlast
    rw [ho, hsucc]
    rcases mem_concat_key hk with hk | hk
    · by_cases hzero : scan.sepOrdinalAtDepth d = 0
      · -- this entry is a second zero start
        obtain ⟨i, hi⟩ := List.getElem?_of_mem hk
        obtain ⟨i', _, hi'⟩ := h.zero_first i d o hi
        have hkey : (scanEntry scan e).1 = zeroKey d := by
          rw [scanEntry_separator scan hsep, ← hdepth, hlast, hzero, zeroKey]
        have hpos : 0 < ks.count (zeroKey d) :=
          List.count_pos_iff.mpr (List.mem_of_getElem? hi')
        rw [hkey, List.count_singleton_self] at hcount
        omega
      · exact Nat.lt_succ_of_lt (h.zero_run d o hlast hzero hcount' hk)
    · rw [(eq_scanEntry_separator hk).2.2]
      exact Nat.lt_succ_self _
  · exact absurd ho hord

theorem ScanSeen.step {ks : List TrayKey} {scan : DepthScan} (h : ScanSeen ks scan)
    {e : TrayEntry} (hnew : e.isSeparator = false → ∀ d, (⟨false, d, e.id, 0⟩ : TrayKey) ∉ ks)
    (hsucc : ∀ d, (scan.sepOrdinalAtDepth d + 1).toNat = (scan.sepOrdinalAtDepth d).toNat + 1) :
    ScanSeen (ks ++ [(scanEntry scan e).1]) (scanEntry scan e).2 := by
  refine ⟨?anchored, ?last_seen, ?run, ?zero_first, ?zero_run, h.counts.step e⟩
  case anchored =>
    intro d a o hk ha
    apply List.mem_append_left
    rcases mem_concat_key hk with hk | hk
    · exact h.anchored d a o hk ha
    · obtain ⟨_, rfl, _⟩ := eq_scanEntry_separator hk
      exact h.last_seen d ha
  case last_seen =>
    intro d
    exact h.last_seen_step e
  case run =>
    intro d o
    exact h.run_step hnew hsucc
  case zero_first =>
    intro i d o
    exact h.zero_first_step e
  case zero_run =>
    intro d o
    exact h.zero_run_step hsucc

theorem exists_plain_of_mem_entryKeys {entries : List TrayEntry} {d : ℕ} {a o : UInt32}
    (hk : (⟨false, d, a, o⟩ : TrayKey) ∈ entryKeys entries) :
    ∃ e ∈ entries, e.isSeparator = false ∧ e.id = a := by
  obtain ⟨k, hkey⟩ := List.getElem?_of_mem hk
  have hlt : k < entries.length := by
    rw [← entryKeys_length]
    exact (List.getElem?_eq_some_iff.mp hkey).1
  have he : entries[k]? = some entries[k] := List.getElem?_eq_getElem hlt
  rw [entryKeys_getElem? he] at hkey
  have hkey := Option.some.inj hkey
  obtain ⟨hsep, hanchor⟩ := scanEntry_key (scanAfter .zero (entries.take k)) entries[k]
  rw [hkey] at hsep hanchor
  exact ⟨entries[k], List.getElem_mem hlt, hsep.symm, (hanchor hsep.symm).symm⟩

/-- Along a list with distinct plain ids every plain key is new. -/
theorem plain_key_new {es : List TrayEntry} {e : TrayEntry}
    (hids : (((es ++ [e]).filter fun e ↦ !e.isSeparator).map TrayEntry.id).Nodup)
    (hsep : e.isSeparator = false) (d : ℕ) : (⟨false, d, e.id, 0⟩ : TrayKey) ∉ entryKeys es := by
  intro hk
  obtain ⟨p, hp, hplain, hid⟩ := exists_plain_of_mem_entryKeys hk
  simp only [List.filter_append, List.map_append, List.filter_cons, hsep, Bool.not_false,
    if_true, List.filter_nil, List.map_cons, List.map_nil] at hids
  have hdisjoint := (List.nodup_append.mp hids).2.2 p.id
    (List.mem_map_of_mem (List.mem_filter.mpr ⟨hp, by simp [hplain]⟩)) e.id (by simp)
  exact hdisjoint hid

theorem scanSeen_entryKeys {entries : List TrayEntry} (hlen : entries.length ≤ wpTrayMaxEntries)
    (hids : ((entries.filter fun e ↦ !e.isSeparator).map TrayEntry.id).Nodup) :
    ScanSeen (entryKeys entries) (scanAfter .zero entries) := by
  induction entries using List.reverseRecOn with
  | nil => exact ScanSeen.zero
  | append_singleton es e ih =>
      have hlen' : es.length ≤ wpTrayMaxEntries := by
        rw [List.length_append, List.length_singleton] at hlen
        omega
      have hes := ih hlen' (hids.sublist (((List.sublist_append_left es [e]).filter _).map _))
      rw [entryKeys_concat, scanAfter_concat]
      exact hes.step (fun hsep d ↦ plain_key_new hids hsep d) (sepOrdinal_succ hlen')

/-! ## Repeated keys and repeated ids -/

theorem exists_lt_of_two_le_count {ks : List TrayKey} {k : TrayKey} (h : 2 ≤ ks.count k) :
    ∃ p q : ℕ, p < q ∧ ks[p]? = some k ∧ ks[q]? = some k := by
  obtain ⟨p, q, hpq, hp, hq⟩ :=
    List.duplicate_iff_exists_distinct_get.mp (List.duplicate_iff_two_le_count.mpr h)
  refine ⟨p, q, hpq, ?_, ?_⟩
  · rw [hp]
    exact List.getElem?_eq_getElem p.2
  · rw [hq]
    exact List.getElem?_eq_getElem q.2

/-- A repeated key counts from zero, and then its depth has two zero starts,
the first of them no later than the key. -/
theorem LoaderDump.repeated_key {dump : List TrayEntry} (h : LoaderDump dump) {i j : ℕ}
    {k : TrayKey} (hij : i < j) (hi : (entryKeys dump)[i]? = some k)
    (hj : (entryKeys dump)[j]? = some k) :
    ∃ d o, k = ⟨true, d, 0, o⟩ ∧ ∃ p q : ℕ, p ≤ i ∧ p < q ∧
      (entryKeys dump)[p]? = some (zeroKey d) ∧ (entryKeys dump)[q]? = some (zeroKey d) := by
  have hlt : j < dump.length := by
    rw [← entryKeys_length]
    exact (List.getElem?_eq_some_iff.mp hj).1
  have he : dump[j]? = some dump[j] := List.getElem?_eq_getElem hlt
  have htake : dump.take (j + 1) = dump.take j ++ [dump[j]] := by
    rw [List.take_add_one, he]
    rfl
  have hlen : (dump.take (j + 1)).length ≤ wpTrayMaxEntries :=
    (List.length_take_le' _ _).trans h.length_le
  have hids := h.ids_nodup.sublist (((List.take_sublist (j + 1) dump).filter
    fun e ↦ !e.isSeparator).map TrayEntry.id)
  have hseen := scanSeen_entryKeys ((List.length_take_le' j dump).trans h.length_le)
    (h.ids_nodup.sublist (((List.take_sublist j dump).filter
      fun e ↦ !e.isSeparator).map TrayEntry.id))
  have hkey := entryKeys_getElem? he
  rw [hj, Option.some.injEq] at hkey
  have hmem : k ∈ entryKeys (dump.take j) := by
    rw [entryKeys_take]
    apply List.mem_of_getElem? (i := i)
    rw [List.getElem?_take, if_pos hij, hi]
  rw [hkey] at hmem
  rw [htake] at hids
  obtain ⟨d, o, hzero, hcount⟩ := hseen.repeats (fun hsep ↦ plain_key_new hids hsep) hmem
  rw [← entryKeys_concat, ← htake, entryKeys_take] at hcount
  rw [← hkey] at hzero
  obtain ⟨p, q, hpq, hp, hq⟩ := exists_lt_of_two_le_count
    (hcount.trans ((List.take_sublist _ _).count_le _))
  obtain ⟨i', hle, hi'⟩ := (scanSeen_entryKeys h.length_le h.ids_nodup).zero_first i d o
    (by rw [hi, hzero])
  refine ⟨d, o, hzero, ?_⟩
  by_cases hpi : p ≤ i
  · exact ⟨p, q, hpi, hpq, hp, hq⟩
  · exact ⟨i', p, hle, by omega, hi', hp⟩

/-- A table that stores a separator counted from zero stores the zero key. -/
theorem zeroKey_mem_of_closed {keys : List TrayKey}
    (hclosed : ∀ k ∈ keys, ∀ k', Precedes k' k → k' ∈ keys) {d : ℕ} (n : ℕ) (o : UInt32)
    (hn : o.toNat = n) (hmem : (⟨true, d, 0, o⟩ : TrayKey) ∈ keys) : zeroKey d ∈ keys := by
  induction n generalizing o with
  | zero =>
      obtain rfl : o = 0 := UInt32.toNat_inj.mp hn
      exact hmem
  | succ n ih =>
      have hne : o ≠ 0 := by
        intro hzero
        rw [hzero] at hn
        exact absurd hn (by simp)
      apply ih (o - 1)
      · rw [UInt32.toNat_sub_of_le]
        · simp [hn]
        · rw [UInt32.le_iff_toNat_le, hn]
          simp
      · exact hclosed _ hmem _ ⟨rfl, hne, rfl⟩

theorem interner_keys (st : WpTrayState) : st.interner.keys = st.idSlots.map WpTrayIdSlot.key := by
  simp [WpTrayState.interner, Interner.keys, Function.comp_def]

theorem repeatsUnstored_iff_apart {h : TrayHistory} (hs : HistorySound h)
    {dump : List TrayEntry} (hdump : LoaderDump dump) :
    Interner.RepeatsUnstored wpTrayMaxIdSlots h.state.interner.keys (entryKeys dump) ↔
      ZeroStartsApart h.state dump := by
  rw [interner_keys]
  constructor
  · intro hrep i j d hij hi hj
    obtain ⟨e, he, _, hdepth, _⟩ := id hi
    have hd := (hdump.depths e (List.mem_of_getElem? he)).1
    obtain ⟨d, rfl⟩ := Int.eq_ofNat_of_zero_le (hdepth ▸ hd)
    rw [entryKeys_take]
    exact hrep i j (zeroKey d) hij ((zeroStart_iff hdump i d).mp hi)
      ((zeroStart_iff hdump j d).mp hj)
  · intro hapart i j k hij hi hj
    obtain ⟨d, o, rfl, p, q, hpi, hpq, hp, hq⟩ := hdump.repeated_key hij hi hj
    obtain ⟨hnot, hfull⟩ := hapart p q d hpq ((zeroStart_iff hdump p d).mpr hp)
      ((zeroStart_iff hdump q d).mpr hq)
    rw [Int.toNat_natCast] at hnot
    constructor
    · intro hmem
      have hclosed := hs.closed
      rw [interner_keys] at hclosed
      exact hnot (zeroKey_mem_of_closed hclosed _ o rfl hmem)
    · rw [entryKeys_take] at hfull
      refine hfull.trans (Finset.card_le_card ?_)
      intro x hx
      simp only [List.mem_toFinset, List.mem_append] at hx ⊢
      exact hx.imp_right fun hx ↦ (List.take_subset_take_left _ hpi) hx

/-- The ids given to a loader dump in any reachable state are distinct
exactly when zero starts of one depth do not meet in the table. -/
theorem assignStableDbusIds_nodup_iff {dumps : List (List TrayEntry)} {h : TrayHistory}
    (hrun : exec publish .initial dumps = some h) {dump : List TrayEntry}
    (hdump : LoaderDump dump)
    (hids : (assignStableDbusIds h.state dump).2.nextDbusId ≤ 2 ^ 31) :
    ((assignStableDbusIds h.state dump).1.map TrayEntry.dbusId).Nodup ↔
      ZeroStartsApart h.state dump := by
  obtain ⟨hassigned, hafter⟩ := assignStableDbusIds_interner h.state dump
  have hnext : (Interner.internAll wpTrayMaxIdSlots dbusIdOf h.state.interner
      (entryKeys dump)).2.next ≤ 2 ^ 31 := by
    rw [← hafter]
    exact hids
  have hs := historySound_of_run HistorySound.initial hrun
    ((Interner.next_le_internAll wpTrayMaxIdSlots dbusIdOf h.state.interner
      (entryKeys dump)).trans hnext)
  rw [hassigned, Interner.internAll_nodup_iff hs.table hs.next_pos (entryKeys dump)
    (dbusIdOf_injOn hnext)]
  exact repeatsUnstored_iff_apart hs hdump

/-- A separator at depth `d`. -/
def separatorEntry (d : ℤ) : TrayEntry := ⟨d, 0, 0, wpTrayMftSeparator, [], 0⟩

theorem assignStableDbusIds_nodup_submenu :
    ZeroStartsApart WpTrayState.initial
      [⟨0, 1, 0, 0, [], 0⟩, separatorEntry 1, ⟨1, 2, 0, 0, [], 0⟩, separatorEntry 1] :=
  (assignStableDbusIds_nodup_iff (rfl : exec publish .initial [] = some .initial)
    ⟨by decide, by decide, by decide, by decide⟩ (by decide)).mp (by decide)

/-- Two submenus that both start with a separator share an id. -/
theorem assignStableDbusIds_repeats_separator :
    ∃ (h : TrayHistory) (dump : List TrayEntry), exec publish .initial [] = some h ∧
      LoaderDump dump ∧ (assignStableDbusIds h.state dump).2.nextDbusId ≤ 2 ^ 31 ∧
      ¬ ((assignStableDbusIds h.state dump).1.map TrayEntry.dbusId).Nodup := by
  refine ⟨.initial, [⟨0, 1, 0, 0, [], 0⟩, separatorEntry 1, ⟨1, 2, 0, 0, [], 0⟩,
    ⟨0, 3, 0, 0, [], 0⟩, separatorEntry 1, ⟨1, 4, 0, 0, [], 0⟩], rfl, ?_, ?_, ?_⟩
  · exact ⟨by decide, by decide, by decide, by decide⟩
  · decide
  · decide

end Wallpiper.Tray
