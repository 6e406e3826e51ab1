import Wallpiper.Daemon.Processes
import Wallpiper.Foundations.LittleEndian
import Wallpiper.Foundations.WatchedThings
import Wallpiper.Tray.Mirroring

/-!
# The menu watcher

The loader writes each dump of the menu to a temporary file and moves it over
the dump before it.  A thread of the daemon reads the notices of the directory,
several at a time, and reads the file again when one of them names it.  Notices
of other files of the directory stand in the same queue, and dumps follow each
other faster than they are read.  A dump that is in place before the thread
watches comes without a notice, and a read of the file may fail or deliver only
the front of it.
-/

namespace Wallpiper.Tray

open Foundations Foundations.CText Wallpiper.Daemon

/-! ## Notices as bytes -/

/-- A `struct inotify_event`.  The name is padded with NULs; a notice of the
directory itself has none. -/
structure InotifyEvent where
  wd : UInt32
  mask : UInt32
  cookie : UInt32
  name : Bytes
  name_length : name.length < 2 ^ 32
  name_terminated : name = [] ∨ 0 ∈ name
  deriving DecidableEq

/-- The record as the kernel writes it. -/
def InotifyEvent.record (e : InotifyEvent) : Bytes :=
  u32le e.wd ++ u32le e.mask ++ u32le e.cookie ++ u32le (UInt32.ofNat e.name.length) ++ e.name

def InotifyEvent.names (filename : Bytes) (e : InotifyEvent) : Bool :=
  e.name ≠ [] ∧ cString e.name = filename

/-- The loop from `offset` on.  The buffer goes on behind the `n` bytes that
were read. -/
def inotifyEventMatchesFrom (buf : Bytes) (n : ℕ) (filename : Bytes) (offset : ℕ)
    (changed : Bool) : Bool :=
  if offset + 16 ≤ n then
    let len := (u32leAt buf (offset + 12)).toNat
    inotifyEventMatchesFrom buf n filename (offset + 16 + len)
      (changed || (0 < len ∧ cString (buf.drop (offset + 16)) = filename))
  else changed
termination_by n - offset

def inotifyEventMatches (buf : Bytes) (n : ℕ) (filename : Bytes) : Bool :=
  inotifyEventMatchesFrom buf n filename 0 false

theorem length_record (e : InotifyEvent) : e.record.length = 16 + e.name.length := by
  simp [InotifyEvent.record]
  omega

theorem cString_append_of_mem {name : Bytes} (h : 0 ∈ name) (rest : Bytes) :
    cString (name ++ rest) = cString name := by
  obtain ⟨front, back, rfl, hfront⟩ := List.eq_append_cons_of_mem h
  rw [List.append_assoc, List.cons_append, cString_append_nul hfront, cString_append_nul hfront]

/-- The length and the name that the loop finds at the start of a record. -/
theorem record_at (front : Bytes) (e : InotifyEvent) (rest : Bytes) :
    u32leAt (front ++ (e.record ++ rest)) (front.length + 12) =
        UInt32.ofNat e.name.length ∧
      (front ++ (e.record ++ rest)).drop (front.length + 16) = e.name ++ rest := by
  constructor
  · have hsplit : front ++ (e.record ++ rest) =
        (front ++ (u32le e.wd ++ u32le e.mask ++ u32le e.cookie)) ++
          (u32le (UInt32.ofNat e.name.length) ++ (e.name ++ rest)) := by
      simp [InotifyEvent.record]
    rw [hsplit]
    exact u32leAt_append (by simp) _ _
  · have hsplit : front ++ (e.record ++ rest) =
        (front ++ (u32le e.wd ++ u32le e.mask ++ u32le e.cookie ++
          u32le (UInt32.ofNat e.name.length))) ++ (e.name ++ rest) := by
      simp [InotifyEvent.record]
    rw [hsplit]
    exact List.drop_left' (by simp)

theorem matchesFrom_records (filename stale : Bytes) (events : List InotifyEvent) (front : Bytes)
    (changed : Bool) :
    inotifyEventMatchesFrom (front ++ (events.flatMap InotifyEvent.record ++ stale))
        (front.length + (events.flatMap InotifyEvent.record).length) filename front.length changed =
      (changed || events.any (InotifyEvent.names filename)) := by
  induction events generalizing front changed with
  | nil =>
      rw [inotifyEventMatchesFrom, if_neg (by simp), List.any_nil, Bool.or_false]
  | cons e events ih =>
      have hname : (UInt32.ofNat e.name.length).toNat = e.name.length :=
        UInt32.toNat_ofNat_of_lt' e.name_length
      have htext : ∀ rest, decide (0 < e.name.length ∧ cString (e.name ++ rest) = filename) =
          e.names filename := by
        intro rest
        rcases e.name_terminated with hnil | hzero
        · simp [InotifyEvent.names, hnil]
        · rw [cString_append_of_mem hzero, InotifyEvent.names]
          simp [List.length_pos_iff]
      rw [List.flatMap_cons, List.append_assoc, inotifyEventMatchesFrom,
        if_pos (by rw [List.length_append, length_record]; omega)]
      obtain ⟨hlen, hdrop⟩ :=
        record_at front e (events.flatMap InotifyEvent.record ++ stale)
      simp only [hlen, hname, hdrop, htext]
      have hnext := ih (front ++ e.record) (changed || e.names filename)
      simp only [List.length_append, length_record, List.append_assoc] at hnext
      rw [List.any_cons, ← Bool.or_assoc, ← hnext, List.length_append, length_record]
      simp only [Nat.add_assoc]

/-- Over the bytes of any notices, whatever stands behind them in the buffer,
the loop finds exactly whether one of them names the file. -/
theorem inotifyEventMatches_records (filename stale : Bytes) (events : List InotifyEvent) :
    inotifyEventMatches (events.flatMap InotifyEvent.record ++ stale)
        (events.flatMap InotifyEvent.record).length filename =
      events.any (InotifyEvent.names filename) := by
  have h := matchesFrom_records filename stale events [] false
  rwa [List.nil_append, List.length_nil, Nat.zero_add, Bool.false_or] at h

/-! ## The file that is watched -/

/-- The directory and the name of a path, cut to the buffers they go to. -/
def splitDirFilename (path : Bytes) (dirOutLen fileOutLen : ℕ) : Bytes × Bytes :=
  let tail := path.rtakeWhile (· ≠ 47)
  if tail.length = path.length then
    ((bytesOf "/tmp").take (dirOutLen - 1), path.take (fileOutLen - 1))
  else
    let slash := path.length - tail.length - 1
    let dirLen := if slash = 0 then 1 else slash
    (path.take (if dirLen ≥ dirOutLen then dirOutLen - 1 else dirLen),
      tail.take (fileOutLen - 1))

/-- The two parts of a path that fit are those around its last slash. -/
theorem splitDirFilename_join {dir file : Bytes} {dirOutLen fileOutLen : ℕ} (hdir : dir ≠ [])
    (hdirLen : dir.length < dirOutLen) (hfile : 47 ∉ file) (hfileLen : file.length < fileOutLen) :
    splitDirFilename (dir ++ 47 :: file) dirOutLen fileOutLen = (dir, file) := by
  have htail : (dir ++ 47 :: file).rtakeWhile (· ≠ 47) = file := by
    have hnone : ∀ b ∈ file.reverse, decide (b ≠ 47) = true := by
      intro b hb
      have hne : b ≠ 47 := fun h ↦ hfile (h ▸ List.mem_reverse.mp hb)
      simpa using hne
    rw [List.rtakeWhile, List.reverse_append, List.reverse_cons, List.append_assoc,
      List.takeWhile_append_of_pos hnone]
    simp
  have hpos : 0 < dir.length := List.length_pos_iff.mpr hdir
  have hslash : dir.length + (file.length + 1) - file.length - 1 = dir.length := by omega
  simp only [splitDirFilename, htail, List.length_append, List.length_cons, hslash]
  rw [if_neg (by omega), if_neg hpos.ne', if_neg (by omega), List.take_left,
    List.take_of_length_le (by omega)]

/-! ## The thread -/

/-- The watcher, with everything the loader has moved into place, oldest
first. -/
structure MenuWatcher where
  watch : Watch InotifyEvent
  dumps : List Bytes
  /-- which of the dumps is open -/
  reading : Option ℕ
  tray : WpTrayState
  /-- which of the dumps were published, and how many bytes each time were missing at the end -/
  published : List (ℕ × ℕ)

inductive MenuAct
  /-- the loader moves a dump into place, and the kernel notices it -/
  | dumped (text : Bytes) (e : InotifyEvent)
  /-- the kernel notices something else in the directory -/
  | noticed (e : InotifyEvent)
  | addWatch
  /-- `read` delivers `k` notices into a buffer with stale bytes -/
  | read (k : ℕ) (stale : Bytes)
  | openFile (ok : Bool)
  /-- `fread` delivers all but the last `cut` bytes, or an answer of the system
  keeps the file from being read -/
  | finish (cut : Option ℕ)

namespace MenuWatcher

def start (tray : WpTrayState) : MenuWatcher := ⟨.start false, [], none, tray, []⟩

/-- The thread after an answer that kept it from seeing the file. -/
def failed (w : MenuWatcher) : MenuWatcher :=
  { w with watch := { w.watch with due := false, missed := true }, reading := none }

/-- The thread after a read of a dump without its last `cut` bytes. -/
def loaded (w : MenuWatcher) (i : ℕ) (text : Bytes) (cut : ℕ) : MenuWatcher :=
  let w := if cut = 0 then { w with reading := none } else w.failed
  let entries := wpTrayParseMenuDump (text.rdrop cut)
  if entries = [] then w
  else
    { w with
      tray := wpTrayStateOnMenuDumpChanged w.tray entries
      published := w.published ++ [(i, cut)] }

variable (capacity : ℕ) (filename : Bytes)

def step (w : MenuWatcher) : MenuAct → Option MenuWatcher
  | .dumped text e =>
      (Watch.step capacity (InotifyEvent.names filename) w.watch (.change e)).map fun watch ↦
        { w with watch, dumps := w.dumps ++ [text] }
  | .noticed e =>
      (Watch.step capacity (InotifyEvent.names filename) w.watch (.other e)).map fun watch ↦
        { w with watch }
  | .addWatch => some { w with watch := { w.watch with attached := true } }
  | .read k stale =>
      let records := (w.watch.unread.take k).flatMap InotifyEvent.record
      if w.reading.isNone ∧ w.watch.due = false ∧ 0 < k ∧ k ≤ w.watch.unread.length ∧
          records.length ≤ 4096 then
        some { w with
          watch := { w.watch with
            unread := w.watch.unread.drop k
            due := inotifyEventMatches (records ++ stale) records.length filename } }
      else none
  | .openFile ok =>
      if w.watch.due then
        if ok ∧ w.dumps ≠ [] then
          some { w with
            watch := { w.watch with due := false, seen := w.watch.changes, missed := false }
            reading := some (w.dumps.length - 1) }
        else some w.failed
      else none
  | .finish cut => do
      let i ← w.reading
      let text ← w.dumps[i]?
      match cut with
      | none => some w.failed
      | some cut => some (w.loaded i text cut)

/-! ## What every run keeps -/

/-- What was read of a dump. -/
def delivered (w : MenuWatcher) (p : ℕ × ℕ) : Option Bytes :=
  w.dumps[p.1]?.map fun text ↦ text.rdrop p.2

/-- The dumps that the watcher has published, and the one on display. -/
structure Sound (tray : WpTrayState) (w : MenuWatcher) : Prop where
  watch : Watch.Sound (InotifyEvent.names filename) w.watch
  changes : w.watch.changes = w.dumps.length
  reading : ∀ i, w.reading = some i → i + 1 = w.watch.seen
  sorted : (w.published.map Prod.fst).Pairwise (· ≤ ·)
  published_lt : ∀ p ∈ w.published, p.1 < w.watch.seen
  menus : ∀ p ∈ w.published, ∃ text, w.delivered p = some text ∧ wpTrayParseMenuDump text ≠ []
  display : ∀ p, w.published.getLast? = some p → ∃ text, w.delivered p = some text ∧
    w.tray.entries.map TrayEntry.unassigned = wpTrayParseMenuDump text
  untouched : w.published = [] → w.tray = tray
  current : w.reading = none → w.watch.missed = false → ∀ text, 0 < w.watch.seen →
    w.dumps[w.watch.seen - 1]? = some text → wpTrayParseMenuDump text ≠ [] →
      w.published.getLast? = some (w.watch.seen - 1, 0)

/-- Parsed entries have no id yet. -/
theorem unassigned_of_parseMenuLine {line : Bytes} {e : TrayEntry}
    (h : parseMenuLine line = some e) : e.unassigned = e := by
  simp only [parseMenuLine, Option.bind_eq_bind, Option.bind_eq_some_iff,
    Option.ite_none_right_eq_some] at h
  obtain ⟨_, -, _, -, _, -, _, -, -, _, -, _, -, -, he⟩ := h
  exact Option.some.inj he ▸ rfl

theorem unassigned_of_addMenuLine {out : List TrayEntry} (hout : ∀ e ∈ out, e.unassigned = e)
    (line : Bytes) : ∀ e ∈ addMenuLine out line, e.unassigned = e := by
  rw [addMenuLine]
  generalize (if line.getLast? = some 13 then line.dropLast else line) = line
  split
  · cases hparse : parseMenuLine line with
    | none => exact hout
    | some e =>
        simp only [List.forall_mem_append, List.forall_mem_singleton]
        exact ⟨hout, unassigned_of_parseMenuLine hparse⟩
  · exact hout

theorem unassigned_of_parsed (text : Bytes) :
    ∀ e ∈ wpTrayParseMenuDump text, e.unassigned = e := by
  rw [wpTrayParseMenuDump]
  generalize (cString text).splitOnP (· == 10) = lines
  have hfold : ∀ out : List TrayEntry, (∀ e ∈ out, e.unassigned = e) →
      ∀ e ∈ lines.foldl addMenuLine out, e.unassigned = e := by
    induction lines with
    | nil => exact fun out hout ↦ hout
    | cons line lines ih => exact fun out hout ↦ ih _ (unassigned_of_addMenuLine hout line)
  exact hfold [] (by simp)

variable {capacity filename}

/-- A read delivers what its notices say, not what its bytes happen to be. -/
theorem step_read {w : MenuWatcher} {k : ℕ} (stale : Bytes) (hreading : w.reading = none)
    (hdue : w.watch.due = false) (hpos : 0 < k) (hk : k ≤ w.watch.unread.length)
    (hroom : ((w.watch.unread.take k).flatMap InotifyEvent.record).length ≤ 4096) :
    step capacity filename w (.read k stale) = some { w with
      watch := { w.watch with
        unread := w.watch.unread.drop k
        due := (w.watch.unread.take k).any (InotifyEvent.names filename) } } := by
  simp only [step, inotifyEventMatches_records]
  exact if_pos ⟨Option.isNone_iff_eq_none.mpr hreading, hdue, hpos, hk, hroom⟩

/-- A dump stays where it is when another one follows. -/
theorem delivered_dumped {w : MenuWatcher} {watch : Watch InotifyEvent} {p : ℕ × ℕ} {text : Bytes}
    (h : w.delivered p = some text) (next : Bytes) :
    delivered { w with watch, dumps := w.dumps ++ [next] } p = some text := by
  obtain ⟨whole, hwhole, rfl⟩ := Option.map_eq_some_iff.mp h
  obtain ⟨hlt, -⟩ := List.getElem?_eq_some_iff.mp hwhole
  rw [delivered, List.getElem?_append_left hlt, hwhole]
  rfl

theorem Sound.start (tray : WpTrayState) : Sound filename tray (start tray) where
  watch := .start false
  changes := rfl
  reading i h := by cases h
  sorted := .nil
  published_lt := by simp [MenuWatcher.start]
  menus := by simp [MenuWatcher.start]
  display := by simp [MenuWatcher.start]
  untouched _ := rfl
  current _ _ text h := absurd h (Nat.lt_irrefl 0)

theorem Sound.dumped {tray : WpTrayState} {w : MenuWatcher} (hw : Sound filename tray w)
    {watch : Watch InotifyEvent} (hwatch : Watch.Sound (InotifyEvent.names filename) watch)
    (hchanges : watch.changes = w.watch.changes + 1) (hseen : watch.seen = w.watch.seen)
    (hmissed : watch.missed = false → w.watch.missed = false) (text : Bytes) :
    Sound filename tray { w with watch, dumps := w.dumps ++ [text] } where
  watch := hwatch
  changes := by
    rw [hchanges, hw.changes]
    simp
  reading := hseen ▸ hw.reading
  sorted := hw.sorted
  published_lt := hseen ▸ hw.published_lt
  menus p hp := by
    obtain ⟨old, hold, hne⟩ := hw.menus p hp
    exact ⟨old, delivered_dumped hold text, hne⟩
  display p hp := by
    obtain ⟨old, hold, hshown⟩ := hw.display p hp
    exact ⟨old, delivered_dumped hold text, hshown⟩
  untouched := hw.untouched
  current hreading hnone last hpos hlast := by
    simp only [hseen] at hpos hlast ⊢
    have hle := hw.watch.seen_le
    rw [hw.changes] at hle
    rw [List.getElem?_append_left (by omega)] at hlast
    exact hw.current hreading (hmissed hnone) last hpos hlast

/-- A step that neither looks nor changes the file. -/
theorem Sound.of_watch {tray : WpTrayState} {w : MenuWatcher} (hw : Sound filename tray w)
    {watch : Watch InotifyEvent} (hwatch : Watch.Sound (InotifyEvent.names filename) watch)
    (hchanges : watch.changes = w.watch.changes) (hseen : watch.seen = w.watch.seen)
    (hmissed : watch.missed = w.watch.missed) : Sound filename tray { w with watch } where
  watch := hwatch
  changes := hchanges.trans hw.changes
  reading := hseen ▸ hw.reading
  sorted := hw.sorted
  published_lt := hseen ▸ hw.published_lt
  menus := hw.menus
  display := hw.display
  untouched := hw.untouched
  current := by
    simp only [hseen, hmissed]
    exact hw.current

theorem Sound.failed {tray : WpTrayState} {w : MenuWatcher} (hw : Sound filename tray w) :
    Sound filename tray w.failed where
  watch := hw.watch.fail
  changes := hw.changes
  reading i h := by cases h
  sorted := hw.sorted
  published_lt := hw.published_lt
  menus := hw.menus
  display := hw.display
  untouched := hw.untouched
  current _ hmissed := absurd hmissed (by simp [MenuWatcher.failed])

/-- The dump in place is opened, and nothing older is looked at any more. -/
theorem Sound.openFile {tray : WpTrayState} {w : MenuWatcher} (hw : Sound filename tray w)
    (hdumps : w.dumps ≠ []) :
    Sound filename tray { w with
      watch := { w.watch with due := false, seen := w.watch.changes, missed := false }
      reading := some (w.dumps.length - 1) } where
  watch := hw.watch.look
  changes := hw.changes
  reading i hi := by
    have hpos := List.length_pos_iff.mpr hdumps
    have hchanges := hw.changes
    obtain rfl := Option.some.inj hi
    simp only [hchanges]
    omega
  sorted := hw.sorted
  published_lt p hp := (hw.published_lt p hp).trans_le hw.watch.seen_le
  menus := hw.menus
  display := hw.display
  untouched := hw.untouched
  current h := by cases h

/-- What was read is published, if there are entries in it. -/
theorem Sound.published {tray : WpTrayState} {w : MenuWatcher} (hw : Sound filename tray w)
    {p : ℕ × ℕ} {text : Bytes} (hp : p.1 + 1 = w.watch.seen) (htext : w.delivered p = some text)
    (hmenu : wpTrayParseMenuDump text ≠ [])
    (hcurrent : w.watch.missed = false → p.2 = 0) :
    Sound filename tray { w with
      tray := wpTrayStateOnMenuDumpChanged w.tray (wpTrayParseMenuDump text)
      published := w.published ++ [p] } where
  watch := hw.watch
  changes := hw.changes
  reading := hw.reading
  sorted := by
    rw [List.map_append, List.map_singleton, List.pairwise_append]
    refine ⟨hw.sorted, List.pairwise_singleton _ _, fun i hi j hj ↦ ?_⟩
    obtain ⟨q, hq, rfl⟩ := List.mem_map.mp hi
    have hlt := hw.published_lt q hq
    rw [List.mem_singleton.mp hj]
    omega
  published_lt := by
    rw [List.forall_mem_append, List.forall_mem_singleton]
    exact ⟨hw.published_lt, hp ▸ Nat.lt_succ_self p.1⟩
  menus := by
    rw [List.forall_mem_append, List.forall_mem_singleton]
    exact ⟨hw.menus, text, htext, hmenu⟩
  display q hq := by
    rw [List.getLast?_concat, Option.some.injEq] at hq
    exact ⟨text, hq ▸ htext, assigned_unassigned w.tray (unassigned_of_parsed text)⟩
  untouched hnil := absurd hnil (by simp)
  current _ hmissed _ _ _ _ := by
    rw [List.getLast?_concat, Option.some.injEq, ← hp, Nat.add_sub_cancel, ← hcurrent hmissed]

theorem Sound.loaded {tray : WpTrayState} {w : MenuWatcher} (hw : Sound filename tray w) {i : ℕ}
    (hreading : w.reading = some i) {text : Bytes} (htext : w.dumps[i]? = some text) (cut : ℕ) :
    Sound filename tray (w.loaded i text cut) := by
  have hi := hw.reading i hreading
  have hdelivered : w.delivered (i, cut) = some (text.rdrop cut) := by
    rw [delivered, htext]
    rfl
  unfold MenuWatcher.loaded
  by_cases hcut : cut = 0
  · -- the whole dump: it is on display, unless it has no entries
    subst hcut
    have hwhole : text.rdrop 0 = text := List.rdrop_zero text
    simp only [if_true]
    split
    · rename_i hempty
      refine ⟨hw.watch, hw.changes, fun j hj ↦ (by cases hj), hw.sorted, hw.published_lt,
        hw.menus, hw.display, hw.untouched, fun _ _ text' _ htext' hne ↦ ?_⟩
      have hsame : w.dumps[w.watch.seen - 1]? = some text := by
        rw [← hi, Nat.add_sub_cancel, htext]
      obtain rfl : text = text' := Option.some.inj (hsame.symm.trans htext')
      exact absurd (hwhole ▸ hempty) hne
    · rename_i hmenu
      have hpublished := hw.published hi hdelivered hmenu fun _ ↦ rfl
      exact ⟨hpublished.watch, hpublished.changes, fun j hj ↦ (by cases hj), hpublished.sorted,
        hpublished.published_lt, hpublished.menus, hpublished.display, hpublished.untouched,
        fun _ _ _ _ _ _ ↦ by simp [← hi]⟩
  · simp only [if_neg hcut]
    split
    · exact hw.failed
    · rename_i hmenu
      exact hw.failed.published hi hdelivered hmenu fun h ↦ absurd h (by simp [MenuWatcher.failed])

theorem Sound.step {tray : WpTrayState} {w w' : MenuWatcher} {l : MenuAct}
    (hw : Sound filename tray w) (h : step capacity filename w l = some w') :
    Sound filename tray w' := by
  cases l with
  | dumped text e =>
      obtain ⟨watch, hwatch, rfl⟩ := Option.map_eq_some_iff.mp h
      obtain ⟨hchanges, hseen⟩ := Watch.counts_of_change hwatch
      exact hw.dumped (hw.watch.step hwatch) hchanges hseen (Watch.missed_of_change hwatch) text
  | noticed e =>
      obtain ⟨watch, hwatch, rfl⟩ := Option.map_eq_some_iff.mp h
      obtain ⟨hchanges, hseen, hmissed⟩ := Watch.counts_of_other hwatch
      exact hw.of_watch (hw.watch.step hwatch) hchanges hseen hmissed
  | addWatch =>
      obtain rfl := Option.some.inj h
      exact hw.of_watch hw.watch.attach rfl rfl rfl
  | read k stale =>
      simp only [MenuWatcher.step, inotifyEventMatches_records] at h
      split at h
      · rename_i hread
        obtain rfl := Option.some.inj h
        exact hw.of_watch (hw.watch.take hread.2.1 k) rfl rfl rfl
      · cases h
  | openFile ok =>
      simp only [MenuWatcher.step] at h
      split at h
      · split at h
        · rename_i hopened
          obtain rfl := Option.some.inj h
          exact hw.openFile hopened.2
        · obtain rfl := Option.some.inj h
          exact hw.failed
      · cases h
  | finish cut =>
      obtain ⟨i, hreading, h⟩ := Option.bind_eq_some_iff.mp h
      obtain ⟨text, htext, h⟩ := Option.bind_eq_some_iff.mp h
      cases cut with
      | none =>
          obtain rfl := Option.some.inj h
          exact hw.failed
      | some cut =>
          obtain rfl := Option.some.inj h
          exact hw.loaded hreading htext cut

theorem published_loaded (w : MenuWatcher) (i : ℕ) (text : Bytes) (cut : ℕ) :
    (w.loaded i text cut).published = w.published ∨
      (w.loaded i text cut).published = w.published ++ [(i, cut)] := by
  have hbase : (if cut = 0 then { w with reading := none } else w.failed).published =
      w.published := by
    split <;> rfl
  by_cases hentries : wpTrayParseMenuDump (text.rdrop cut) = []
  · left
    simp only [MenuWatcher.loaded, if_pos hentries, hbase]
  · right
    simp only [MenuWatcher.loaded, if_neg hentries, hbase]

/-- A menu with bytes missing comes from a read that was cut short. -/
def CutsFrom (acts : List MenuAct) (w : MenuWatcher) : Prop :=
  ∀ p ∈ w.published, .finish (some p.2) ∈ acts

theorem cutsFrom_step {w w' : MenuWatcher} {l : MenuAct} {acts : List MenuAct}
    (hw : CutsFrom acts w) (hl : l ∈ acts) (h : MenuWatcher.step capacity filename w l = some w') :
    CutsFrom acts w' := by
  cases l with
  | dumped text e =>
      obtain ⟨watch, -, rfl⟩ := Option.map_eq_some_iff.mp h
      exact hw
  | noticed e =>
      obtain ⟨watch, -, rfl⟩ := Option.map_eq_some_iff.mp h
      exact hw
  | addWatch =>
      obtain rfl := Option.some.inj h
      exact hw
  | read k stale =>
      simp only [MenuWatcher.step] at h
      split at h
      · obtain rfl := Option.some.inj h
        exact hw
      · cases h
  | openFile ok =>
      simp only [MenuWatcher.step] at h
      split at h
      · split at h <;> obtain rfl := Option.some.inj h <;> exact hw
      · cases h
  | finish cut =>
      obtain ⟨i, -, h⟩ := Option.bind_eq_some_iff.mp h
      obtain ⟨text, -, h⟩ := Option.bind_eq_some_iff.mp h
      cases cut with
      | none =>
          obtain rfl := Option.some.inj h
          exact hw
      | some cut =>
          obtain rfl := Option.some.inj h
          intro p hp
          rcases published_loaded w i text cut with heq | heq
          · exact hw p (heq ▸ hp)
          · rcases List.mem_append.mp (heq ▸ hp) with hp | hp
            · exact hw p hp
            · obtain rfl := List.mem_singleton.mp hp
              exact hl

end MenuWatcher

/-- In every run, whatever falls between the steps of the thread, the menus on
display are those of dumps that were moved into place, in their order, each of
them whole unless its read was cut short, and nothing else is ever on display.
When the thread waits, no unread notice names the file and nothing was missed,
the dump that is in place is the one on display, unless it has no entries. -/
theorem menu_watcher_current {capacity : ℕ} {filename : Bytes} {tray : WpTrayState}
    {acts : List MenuAct} {w : MenuWatcher}
    (h : exec (MenuWatcher.step capacity filename) (.start tray) acts = some w) :
    (w.published.map Prod.fst).Pairwise (· ≤ ·) ∧
      (∀ p ∈ w.published, .finish (some p.2) ∈ acts) ∧
      (w.published = [] → w.tray = tray) ∧
      (∀ i cut, w.published.getLast? = some (i, cut) → ∃ text, w.dumps[i]? = some text ∧
        wpTrayParseMenuDump (text.rdrop cut) ≠ [] ∧
        w.tray.entries.map TrayEntry.unassigned = wpTrayParseMenuDump (text.rdrop cut)) ∧
      (w.reading = none → w.watch.due = false → w.watch.missed = false →
        (∀ e ∈ w.watch.unread, e.names filename = false) →
        ∀ text, w.dumps.getLast? = some text → wpTrayParseMenuDump text ≠ [] →
          w.published.getLast? = some (w.dumps.length - 1, 0) ∧
          w.tray.entries.map TrayEntry.unassigned = wpTrayParseMenuDump text) := by
  have hw : MenuWatcher.Sound filename tray w :=
    exec_invariant (fun s l t hs ht ↦ hs.step ht) (.start tray) h
  have hcuts : MenuWatcher.CutsFrom acts w :=
    exec_invariant_mem (fun s l t hs hl ht ↦ MenuWatcher.cutsFrom_step hs hl ht)
      (fun p hp ↦ absurd hp List.not_mem_nil) h
  refine ⟨hw.sorted, hcuts, hw.untouched, ?_, ?_⟩
  · intro i cut hi
    obtain ⟨text, htext, hshown⟩ := hw.display _ hi
    obtain ⟨text', htext', hne⟩ := hw.menus _ (List.mem_of_getLast? hi)
    obtain rfl : text = text' := Option.some.inj (htext.symm.trans htext')
    obtain ⟨whole, hwhole, rfl⟩ := Option.map_eq_some_iff.mp htext
    exact ⟨whole, hwhole, hne, hshown⟩
  · intro hreading hdue hmissed hunread text htext hne
    have hseen := (hw.watch.current hdue hmissed hunread).trans hw.changes
    rw [List.getLast?_eq_getElem?] at htext
    have hpos : 0 < w.dumps.length := by
      by_contra hzero
      rw [List.getElem?_eq_none (by omega)] at htext
      cases htext
    have hlast := hw.current hreading hmissed text (hseen ▸ hpos) (hseen ▸ htext) hne
    rw [hseen] at hlast
    obtain ⟨text', htext', hshown⟩ := hw.display _ hlast
    obtain ⟨whole, hwhole, rfl⟩ := Option.map_eq_some_iff.mp htext'
    obtain rfl : text = whole := Option.some.inj (htext.symm.trans hwhole)
    rw [List.rdrop_zero] at hshown
    exact ⟨hlast, hshown⟩

/-- A notice of the menu file, its name padded to sixteen bytes more. -/
def menuDumpMoved : InotifyEvent where
  wd := 1
  mask := 0x80
  cookie := 7
  name := bytesOf "wallpiper-menu-dump" ++ List.replicate 13 0
  name_length := by decide
  name_terminated := .inr (by decide)

def pauseDump : Bytes := bytesOf "0\t7\t0x0\t0x0\tPause\n"

/-- A dump is in place before the thread watches, and another one follows. -/
theorem menu_watcher_current_oneDump : ∃ w,
    exec (MenuWatcher.step 16384 (bytesOf "wallpiper-menu-dump")) (.start .initial)
      [.dumped [] menuDumpMoved, .addWatch, .dumped pauseDump menuDumpMoved, .read 1 [1, 2],
        .openFile true, .finish (some 0)] = some w ∧
      w.published = [(1, 0)] ∧ w.tray.entries.map TrayEntry.unassigned =
        [⟨0, 7, 0, 0, bytesOf "Pause", 0⟩] := by
  have hparse : wpTrayParseMenuDump pauseDump = [⟨0, 7, 0, 0, bytesOf "Pause", 0⟩] := by
    decide +kernel
  have hentries : wpTrayParseMenuDump (pauseDump.rdrop 0) ≠ [] := by
    rw [List.rdrop_zero, hparse]
    exact List.cons_ne_nil _ _
  let noticed : MenuWatcher :=
    ⟨⟨true, 2, [menuDumpMoved], false, 0, true⟩, [[], pauseDump], none, .initial, []⟩
  let matched : MenuWatcher := ⟨⟨true, 2, [], true, 0, true⟩, [[], pauseDump], none, .initial, []⟩
  let opened : MenuWatcher :=
    ⟨⟨true, 2, [], false, 2, false⟩, [[], pauseDump], some 1, .initial, []⟩
  have hread : MenuWatcher.step 16384 (bytesOf "wallpiper-menu-dump") noticed (.read 1 [1, 2]) =
      some matched := MenuWatcher.step_read _ rfl rfl (by decide) (by decide) (by decide)
  have hrun : exec (MenuWatcher.step 16384 (bytesOf "wallpiper-menu-dump")) (.start .initial)
      [.dumped [] menuDumpMoved, .addWatch, .dumped pauseDump menuDumpMoved, .read 1 [1, 2],
        .openFile true, .finish (some 0)] = some (opened.loaded 1 pauseDump 0) := by
    change (MenuWatcher.step 16384 (bytesOf "wallpiper-menu-dump") noticed (.read 1 [1, 2])).bind
      (fun w ↦ exec (MenuWatcher.step 16384 (bytesOf "wallpiper-menu-dump")) w
        [.openFile true, .finish (some 0)]) = _
    rw [hread]
    rfl
  have hloaded : opened.loaded 1 pauseDump 0 =
      { opened with
        reading := none
        tray := wpTrayStateOnMenuDumpChanged .initial (wpTrayParseMenuDump (pauseDump.rdrop 0))
        published := [(1, 0)] } := by
    simp only [MenuWatcher.loaded, if_neg hentries]
    rfl
  obtain ⟨-, -, -, -, hcurrent⟩ := menu_watcher_current hrun
  rw [hloaded] at hcurrent hrun
  obtain ⟨-, hshown⟩ := hcurrent rfl rfl rfl (by simp [opened]) pauseDump rfl (by simp [hparse])
  exact ⟨_, hrun, rfl, hshown.trans hparse⟩

end Wallpiper.Tray
