import Wallpiper.Tray.IconRoundTrip
import Wallpiper.Tray.MenuWatcher

/-!
# The icon watcher

The icon file is written in place.  The watcher looks at the time of the file
first and reads the file only if that is not the time of the icon it has; the
loader may empty the file, write on or close it between any two calls of the
watcher.  The watcher looks once before it asks for notices, so what is written
in between comes without one.
-/

namespace Wallpiper.Tray

open Foundations Foundations.CText Foundations.Sizes

/-- A time of the clock in nanoseconds, as `stat` reports it. -/
def stamp (t : ℕ) : Timespec := ⟨t / 10 ^ 9, t % 10 ^ 9⟩

theorem stamp_inj {s t : ℕ} : stamp s = stamp t ↔ s = t := by
  constructor
  · intro h
    rw [stamp, stamp, Timespec.mk.injEq] at h
    omega
  · rintro rfl
    rfl

theorem stamp_ne_initial (t : ℕ) : stamp t ≠ ⟨0, -1⟩ := by
  intro h
  rw [stamp, Timespec.mk.injEq] at h
  omega

/-- The icon file: what the loader writes, and how much of it is there. -/
structure WrittenIcon where
  calls : IconCalls
  nid : NotifyIconData
  full : Bytes
  /-- when the file was emptied -/
  since : ℕ
  mtime : ℕ
  written : ℕ
  writing : Bool

/-- The watcher between `stat` and the end of `fread`. -/
structure IconReading where
  mtime : ℕ
  /-- how much was there at the `stat` -/
  size : ℕ
  /-- the file was emptied since -/
  truncated : Bool

structure IconWatcher where
  watch : Watch InotifyEvent
  now : ℕ
  file : Option WrittenIcon
  reading : Option IconReading
  lastMtime : Timespec
  /-- the icon on display -/
  shown : Option TrayIcon

inductive IconAct
  | pass (d : ℕ)
  /-- the loader opens the file, which empties it -/
  | openFile (calls : IconCalls) (nid : NotifyIconData)
  | write (n : ℕ)
  /-- the loader closes the file, or the system does when the loader is gone -/
  | close (e : InotifyEvent)
  | noticed (e : InotifyEvent)
  | addWatch
  | read (k : ℕ) (stale : Bytes)
  | stat (ok : Bool)
  /-- the bytes that `fread` delivers, if the file can be read, into an icon
  with any contents -/
  | finish (answer : Option Bytes) (out : TrayIcon)

def IconAct.opensFile : IconAct → Bool
  | .openFile _ _ => true
  | _ => false

/-- What can be read of the file.  If it was emptied on the way, the bytes may
come from several icons. -/
def WrittenIcon.Readable (f : WrittenIcon) (r : IconReading) (bytes : Bytes) : Prop :=
  bytes.length < 2 ^ 62 ∧
    (r.truncated = false → bytes <+: f.full.take f.written ∧ r.size ≤ bytes.length)

instance (f : WrittenIcon) (r : IconReading) (bytes : Bytes) : Decidable (f.Readable r bytes) :=
  inferInstanceAs (Decidable (_ ∧ _))

namespace IconWatcher

/-- Nothing has been looked at when the thread starts. -/
def start (now : ℕ) : IconWatcher :=
  ⟨{ Watch.start false with missed := true }, now, none, none, ⟨0, -1⟩, none⟩

/-- The thread after an answer that kept it from seeing the file. -/
def failed (w : IconWatcher) : IconWatcher :=
  { w with watch := { w.watch with due := false, missed := true }, reading := none }

/-- The thread after a look at the time of the file. -/
def looked (w : IconWatcher) : IconWatcher :=
  let watch := { w.watch with due := false, seen := w.watch.changes, missed := false }
  match w.file with
  | none => { w with watch }
  | some f =>
      if stamp f.mtime = w.lastMtime then { w with watch }
      else { w with watch, reading := some ⟨f.mtime, f.written, false⟩ }

variable (capacity : ℕ) (filename : Bytes)

def step (w : IconWatcher) : IconAct → Option IconWatcher
  | .pass d => some { w with now := w.now + d }
  | .openFile calls nid =>
      if w.file.any (·.writing) then none
      else match writeTrayIconFile calls nid with
        | .ok (some full) =>
            some { w with
              file := some ⟨calls, nid, full, w.now, w.now, 0, true⟩
              reading := w.reading.map fun r ↦ { r with truncated := true } }
        | _ => none
  | .write n => do
      let f ← w.file
      if f.writing then
        some { w with
          file := some { f with written := min (f.written + n) f.full.length, mtime := w.now } }
      else none
  | .close e => do
      let f ← w.file
      if f.writing then
        (Watch.step capacity (InotifyEvent.names filename) w.watch (.change e)).map fun watch ↦
          { w with watch, file := some { f with writing := false } }
      else none
  | .noticed e =>
      (Watch.step capacity (InotifyEvent.names filename) w.watch (.other e)).map fun watch ↦
        { w with watch }
  | .addWatch =>
      if w.reading.isNone then some { w with watch := { w.watch with attached := true } } else none
  | .read k stale =>
      let records := (w.watch.unread.take k).flatMap InotifyEvent.record
      if w.reading.isNone ∧ w.watch.due = false ∧ 0 < k ∧ k ≤ w.watch.unread.length ∧
          records.length ≤ 4096 then
        some { w with
          watch := { w.watch with
            unread := w.watch.unread.drop k
            due := inotifyEventMatches (records ++ stale) records.length filename } }
      else none
  | .stat ok =>
      if w.reading.isNone ∧ (w.watch.due ∨ w.watch.attached = false) then
        some (if ok then w.looked else w.failed)
      else none
  | .finish answer out => do
      let r ← w.reading
      let f ← w.file
      match answer with
      | none => some w.failed
      | some bytes =>
          if f.Readable r bytes then
            match tryLoadIcon (some (stamp r.mtime)) (some bytes) w.lastMtime out with
            | .ok (icon, lastMtime) =>
                some { w with reading := none, lastMtime, shown := icon <|> w.shown }
            | .error _ => none
          else none

/-- The icon on display is that of the file. -/
def Shows (w : IconWatcher) (f : WrittenIcon) : Prop :=
  ∃ icon, w.shown = some icon ∧ IconOf f.full icon

/-- A file is opened for writing at a later time than that of its contents. -/
def ClockMoved (w : IconWatcher) (act : IconAct) : Prop :=
  act.opensFile = true → ∀ f ∈ w.file, f.mtime < w.now

instance (w : IconWatcher) (act : IconAct) : Decidable (w.ClockMoved act) :=
  inferInstanceAs (Decidable (_ → _))

/-- The reading in progress, against the file as it is now. -/
structure ReadingSound (w : IconWatcher) (r : IconReading) (f : WrittenIcon) : Prop where
  stale : stamp r.mtime ≠ w.lastMtime
  mtime_le : r.mtime ≤ f.mtime
  truncated : r.truncated = true → r.mtime < f.since
  size_le : r.truncated = false → r.size ≤ f.written
  size : w.watch.seen = w.watch.changes → f.writing = false →
    r.truncated = false ∧ r.size = f.written

structure FileSound (w : IconWatcher) (f : WrittenIcon) : Prop where
  full : writeTrayIconFile f.calls f.nid = .ok (some f.full)
  since_le : f.since ≤ f.mtime
  mtime_le : f.mtime ≤ w.now
  written_le : f.written ≤ f.full.length
  /-- a file with the time of the last icon is the file of that icon -/
  last : ∀ t, w.lastMtime = stamp t →
    t ≤ f.mtime ∧ (f.since ≤ t → f.written = f.full.length ∧ w.Shows f)
  current : w.reading = none → w.watch.missed = false → w.watch.seen = w.watch.changes →
    f.writing = false → f.written = f.full.length → w.Shows f

structure Sound (w : IconWatcher) : Prop where
  watch : Watch.Sound (InotifyEvent.names filename) w.watch
  file : ∀ f, w.file = some f → FileSound w f
  reading : ∀ r, w.reading = some r → ∃ f, w.file = some f ∧ ReadingSound w r f
  unread : w.file = none → w.lastMtime = ⟨0, -1⟩

variable {capacity filename}

/-- What the parser makes of the bytes decides what is kept. -/
theorem tryLoadIcon_cases {mtime lastMtime lastMtime' : Timespec} {bytes : Bytes} {out : TrayIcon}
    {icon : Option TrayIcon} (hne : mtime ≠ lastMtime)
    (h : tryLoadIcon (some mtime) (some bytes) lastMtime out = .ok (icon, lastMtime')) :
    (∃ parsed, wpTrayParseIconFile bytes out = .ok parsed ∧ icon = some parsed ∧
      lastMtime' = mtime) ∨
    (wpTrayParseIconFile bytes out = .error .rejected ∧ icon = none ∧ lastMtime' = lastMtime) := by
  simp only [tryLoadIcon, if_neg hne] at h
  split at h
  · rename_i parsed hparsed
    obtain ⟨rfl, rfl⟩ := Prod.mk.inj (Except.ok.inj h)
    exact .inl ⟨parsed, hparsed, rfl, rfl⟩
  · rename_i hrejected
    obtain ⟨rfl, rfl⟩ := Prod.mk.inj (Except.ok.inj h)
    exact .inr ⟨hrejected, rfl, rfl⟩
  · cases h

theorem Sound.start (now : ℕ) : Sound filename (start now) where
  watch := ⟨Nat.le_refl 0, fun h ↦ absurd h (Nat.lt_irrefl 0),
    fun h ↦ by simp [IconWatcher.start, Watch.start] at h⟩
  file f h := by cases h
  reading r h := by cases h
  unread _ := rfl

/-- A step of the queue alone. -/
theorem Sound.of_watch {w : IconWatcher} (hw : Sound filename w) {watch : Watch InotifyEvent}
    (hwatch : Watch.Sound (InotifyEvent.names filename) watch)
    (hchanges : watch.changes = w.watch.changes) (hseen : watch.seen = w.watch.seen)
    (hmissed : watch.missed = w.watch.missed) : Sound filename { w with watch } where
  watch := hwatch
  file f hf := by
    have h := hw.file f hf
    refine ⟨h.full, h.since_le, h.mtime_le, h.written_le, h.last, ?_⟩
    simp only [hchanges, hseen, hmissed]
    exact h.current
  reading r hr := by
    obtain ⟨f, hf, h⟩ := hw.reading r hr
    refine ⟨f, hf, h.stale, h.mtime_le, h.truncated, h.size_le, ?_⟩
    simp only [hchanges, hseen]
    exact h.size
  unread := hw.unread

theorem Sound.pass {w : IconWatcher} (hw : Sound filename w) (d : ℕ) :
    Sound filename { w with now := w.now + d } where
  watch := hw.watch
  file f hf := by
    have h := hw.file f hf
    exact ⟨h.full, h.since_le, Nat.le_add_right_of_le h.mtime_le, h.written_le, h.last, h.current⟩
  reading r hr := by
    obtain ⟨f, hf, h⟩ := hw.reading r hr
    exact ⟨f, hf, h.stale, h.mtime_le, h.truncated, h.size_le, h.size⟩
  unread := hw.unread

/-- Nothing that was read before has the time of a file that is emptied now. -/
theorem Sound.openFile {w : IconWatcher} (hw : Sound filename w)
    (hmoved : ∀ f, w.file = some f → f.mtime < w.now) {calls : IconCalls} {nid : NotifyIconData}
    {full : Bytes} (hfull : writeTrayIconFile calls nid = .ok (some full)) :
    Sound filename { w with
      file := some ⟨calls, nid, full, w.now, w.now, 0, true⟩
      reading := w.reading.map fun r ↦ { r with truncated := true } } where
  watch := hw.watch
  file f hf := by
    obtain rfl := Option.some.inj hf
    have hlast : ∀ t, w.lastMtime = stamp t → t < w.now := by
      intro t ht
      cases hfile : w.file with
      | none => exact absurd (ht.symm.trans (hw.unread hfile)) (stamp_ne_initial t)
      | some f => exact Nat.lt_of_le_of_lt ((hw.file f hfile).last t ht).1 (hmoved f hfile)
    refine ⟨hfull, le_refl _, le_refl _, Nat.zero_le _, ?_, ?_⟩
    · intro t ht
      exact ⟨(hlast t ht).le, fun hle ↦ absurd (hlast t ht) (not_lt.mpr hle)⟩
    · intro _ _ _ hwriting
      cases hwriting
  reading r hr := by
    obtain ⟨r, hr', rfl⟩ := Option.map_eq_some_iff.mp hr
    obtain ⟨f, hf, h⟩ := hw.reading r hr'
    have hlt := Nat.lt_of_le_of_lt h.mtime_le (hmoved f hf)
    exact ⟨_, rfl, h.stale, hlt.le, fun _ ↦ hlt, fun hnot ↦ (by cases hnot),
      fun _ hwriting ↦ (by cases hwriting)⟩
  unread h := by cases h

theorem Sound.write {w : IconWatcher} (hw : Sound filename w) {f : WrittenIcon}
    (hf : w.file = some f) (hwriting : f.writing = true) (n : ℕ) :
    Sound filename { w with
      file := some { f with written := min (f.written + n) f.full.length, mtime := w.now } } where
  watch := hw.watch
  file f' hf' := by
    obtain rfl := Option.some.inj hf'
    have h := hw.file f hf
    refine ⟨h.full, h.since_le.trans h.mtime_le, le_refl _, Nat.min_le_right _ _, ?_, ?_⟩
    · intro t ht
      obtain ⟨hle, hcomplete⟩ := h.last t ht
      refine ⟨hle.trans h.mtime_le, fun hsince ↦ ?_⟩
      obtain ⟨hwritten, hshows⟩ := hcomplete hsince
      refine ⟨?_, hshows⟩
      simp only [hwritten]
      omega
    · intro _ _ _ hclosed
      exact absurd hclosed (by simp [hwriting])
  reading r hr := by
    obtain ⟨f', hf', h⟩ := hw.reading r hr
    obtain rfl : f = f' := Option.some.inj (hf.symm.trans hf')
    have hfile := hw.file f hf
    refine ⟨_, rfl, h.stale, h.mtime_le.trans hfile.mtime_le, h.truncated, fun hwhole ↦ ?_, ?_⟩
    · have hsize := h.size_le hwhole
      have hfull := hfile.written_le
      simp only
      omega
    · intro _ hclosed
      exact absurd hclosed (by simp [hwriting])
  unread h := by cases h

/-- Closing the file is a change that the watcher has not seen. -/
theorem Sound.close {w : IconWatcher} (hw : Sound filename w) {f : WrittenIcon}
    (hf : w.file = some f) {watch : Watch InotifyEvent}
    (hwatch : Watch.Sound (InotifyEvent.names filename) watch)
    (hchanges : watch.changes = w.watch.changes + 1) (hseen : watch.seen = w.watch.seen) :
    Sound filename { w with watch, file := some { f with writing := false } } where
  watch := hwatch
  file f' hf' := by
    obtain rfl := Option.some.inj hf'
    have h := hw.file f hf
    refine ⟨h.full, h.since_le, h.mtime_le, h.written_le, h.last, fun _ _ hall ↦ ?_⟩
    have hle := hw.watch.seen_le
    simp only [hchanges, hseen] at hall
    omega
  reading r hr := by
    obtain ⟨f', hf', h⟩ := hw.reading r hr
    obtain rfl : f = f' := Option.some.inj (hf.symm.trans hf')
    refine ⟨_, rfl, h.stale, h.mtime_le, h.truncated, h.size_le, fun hall ↦ ?_⟩
    have hle := hw.watch.seen_le
    simp only [hchanges, hseen] at hall
    omega
  unread h := by cases h

theorem Sound.failed {w : IconWatcher} (hw : Sound filename w) : Sound filename w.failed where
  watch := hw.watch.fail
  file f hf := by
    have h := hw.file f hf
    refine ⟨h.full, h.since_le, h.mtime_le, h.written_le, h.last, fun _ hmissed ↦ ?_⟩
    cases hmissed
  reading r hr := by cases hr
  unread := hw.unread

/-- A file that need not be read is the file of the icon on display. -/
theorem Sound.looked {w : IconWatcher} (hw : Sound filename w) (hidle : w.reading = none) :
    Sound filename w.looked := by
  have hlook : Watch.Sound (InotifyEvent.names filename)
      { w.watch with due := false, seen := w.watch.changes, missed := false } :=
    hw.watch.look
  rw [IconWatcher.looked]
  split
  · rename_i hnone
    refine ⟨hlook, fun f hf ↦ ?_, fun r hr ↦ ?_, hw.unread⟩
    · exact absurd (hnone.symm.trans hf) (by simp)
    · exact absurd (hidle.symm.trans hr) (by simp)
  · rename_i f hf
    have h := hw.file f hf
    split
    · rename_i hmtime
      refine ⟨hlook, fun f' hf' ↦ ?_, fun r hr ↦ absurd (hidle.symm.trans hr) (by simp),
        hw.unread⟩
      obtain rfl : f = f' := Option.some.inj (hf.symm.trans hf')
      exact ⟨h.full, h.since_le, h.mtime_le, h.written_le, h.last,
        fun _ _ _ _ _ ↦ ((h.last f.mtime hmtime.symm).2 h.since_le).2⟩
    · rename_i hmtime
      refine ⟨hlook, fun f' hf' ↦ ?_, fun r hr ↦ ?_, hw.unread⟩
      · obtain rfl : f = f' := Option.some.inj (hf.symm.trans hf')
        exact ⟨h.full, h.since_le, h.mtime_le, h.written_le, h.last,
          fun hreading ↦ (by cases hreading)⟩
      · obtain rfl := Option.some.inj hr
        exact ⟨f, hf, hmtime, le_refl _, fun hnot ↦ (by cases hnot), fun _ ↦ le_refl _,
          fun _ _ ↦ ⟨rfl, rfl⟩⟩

/-- Bytes that are accepted are the whole of the file, unless it was emptied
on the way. -/
theorem parsed_of_readable {f : WrittenIcon} {r : IconReading} {bytes : Bytes} {out icon : TrayIcon}
    (hfull : writeTrayIconFile f.calls f.nid = .ok (some f.full))
    (hread : f.Readable r bytes) (hwhole : r.truncated = false)
    (hparse : wpTrayParseIconFile bytes out = .ok icon) :
    bytes = f.full ∧ f.full.length ≤ f.written ∧ IconOf f.full icon := by
  obtain ⟨bmp, -, hbmp, hsize⟩ := eq_iconFile_of_written hfull
  obtain ⟨hlen, hpart⟩ := hread
  obtain ⟨hpart, -⟩ := hpart hwhole
  have heq : bytes = f.full := by
    by_contra hne
    rw [hbmp] at hpart hne
    rw [parse_torn hsize (hpart.trans (List.take_prefix _ _)) hne] at hparse
    cases hparse
  refine ⟨heq, ?_, ?_⟩
  · have hle := hpart.length_le
    rw [heq, List.length_take] at hle
    omega
  · rw [← heq]
    exact ((post_wpTrayParseIconFile hlen out).of_eq_ok hparse).2

theorem Sound.finish {w : IconWatcher} (hw : Sound filename w) {r : IconReading} {f : WrittenIcon}
    (hr : w.reading = some r) (hf : w.file = some f) {bytes : Bytes} (hread : f.Readable r bytes)
    {out : TrayIcon} {icon : Option TrayIcon} {lastMtime : Timespec}
    (h : tryLoadIcon (some (stamp r.mtime)) (some bytes) w.lastMtime out = .ok (icon, lastMtime)) :
    Sound filename { w with reading := none, lastMtime, shown := icon <|> w.shown } := by
  have hfile := hw.file f hf
  obtain ⟨f', hf', hreading⟩ := hw.reading r hr
  obtain rfl : f = f' := Option.some.inj (hf.symm.trans hf')
  rcases tryLoadIcon_cases hreading.stale h with ⟨parsed, hparsed, rfl, rfl⟩ | ⟨hrejected, rfl, rfl⟩
  · refine ⟨hw.watch, fun f' hf' ↦ ?_, fun r hr ↦ (by cases hr), fun hnone ↦ ?_⟩
    · obtain rfl : f = f' := Option.some.inj (hf.symm.trans hf')
      refine ⟨hfile.full, hfile.since_le, hfile.mtime_le, hfile.written_le, fun t ht ↦ ?_, ?_⟩
      · obtain rfl := stamp_inj.mp ht
        refine ⟨hreading.mtime_le, fun hsince ↦ ?_⟩
        have hwhole : r.truncated = false := by
          by_contra htruncated
          have hlt := hreading.truncated (Bool.not_eq_false _ ▸ htruncated)
          omega
        obtain ⟨-, hle, hof⟩ := parsed_of_readable hfile.full hread hwhole hparsed
        exact ⟨le_antisymm hfile.written_le hle, parsed, rfl, hof⟩
      · intro _ _ hall hclosed _
        obtain ⟨hwhole, -⟩ := hreading.size hall hclosed
        exact ⟨parsed, rfl, (parsed_of_readable hfile.full hread hwhole hparsed).2.2⟩
    · exact absurd (hnone.symm.trans hf) (by simp)
  · refine ⟨hw.watch, fun f' hf' ↦ ?_, fun r hr ↦ (by cases hr), hw.unread⟩
    obtain rfl : f = f' := Option.some.inj (hf.symm.trans hf')
    refine ⟨hfile.full, hfile.since_le, hfile.mtime_le, hfile.written_le, hfile.last, ?_⟩
    intro _ _ hall hclosed hcomplete
    -- the file did not change since `stat`, so all of it was read and accepted
    obtain ⟨hwhole, hsize⟩ := hreading.size hall hclosed
    obtain ⟨hpart, hle⟩ := hread.2 hwhole
    rw [hcomplete, List.take_length] at hpart
    have hbytes : bytes = f.full := hpart.eq_of_length_le (by omega)
    obtain ⟨bmp, -, hbmp, hlength⟩ := eq_iconFile_of_written hfile.full
    have hsmall : (iconFile f.nid bmp).length < 2 ^ 62 := length_lt_of_written hlength
    have hpost := post_wpTrayParseIconFile hsmall out
    obtain ⟨icon, haccepted, -⟩ := hpost.exists_ok (not_not.mpr (isIconFile_iconFile f.nid bmp))
    rw [hbytes, hbmp, haccepted] at hrejected
    cases hrejected

theorem Sound.step {w w' : IconWatcher} {l : IconAct} (hw : Sound filename w)
    (hmoved : w.ClockMoved l) (h : step capacity filename w l = some w') : Sound filename w' := by
  cases l with
  | pass d =>
      obtain rfl := Option.some.inj h
      exact hw.pass d
  | openFile calls nid =>
      simp only [IconWatcher.step] at h
      split at h
      · cases h
      · split at h
        · rename_i full hfull
          obtain rfl := Option.some.inj h
          exact hw.openFile (hmoved rfl) hfull
        · cases h
  | write n =>
      obtain ⟨f, hf, h⟩ := Option.bind_eq_some_iff.mp h
      split at h
      · rename_i hwriting
        obtain rfl := Option.some.inj h
        exact hw.write hf hwriting n
      · cases h
  | close e =>
      obtain ⟨f, hf, h⟩ := Option.bind_eq_some_iff.mp h
      split at h
      · obtain ⟨watch, hwatch, rfl⟩ := Option.map_eq_some_iff.mp h
        obtain ⟨hchanges, hseen⟩ := Watch.counts_of_change hwatch
        exact hw.close hf (hw.watch.step hwatch) hchanges hseen
      · cases h
  | noticed e =>
      obtain ⟨watch, hwatch, rfl⟩ := Option.map_eq_some_iff.mp h
      obtain ⟨hchanges, hseen, hmissed⟩ := Watch.counts_of_other hwatch
      exact hw.of_watch (hw.watch.step hwatch) hchanges hseen hmissed
  | addWatch =>
      simp only [IconWatcher.step] at h
      split at h
      · obtain rfl := Option.some.inj h
        exact hw.of_watch hw.watch.attach rfl rfl rfl
      · cases h
  | read k stale =>
      simp only [IconWatcher.step, inotifyEventMatches_records] at h
      split at h
      · rename_i hread
        obtain rfl := Option.some.inj h
        exact hw.of_watch (hw.watch.take hread.2.1 k) rfl rfl rfl
      · cases h
  | stat ok =>
      simp only [IconWatcher.step] at h
      split at h
      · rename_i hidle
        obtain rfl := Option.some.inj h
        cases ok with
        | true => exact hw.looked (Option.isNone_iff_eq_none.mp hidle.1)
        | false => exact hw.failed
      · cases h
  | finish answer out =>
      obtain ⟨r, hr, h⟩ := Option.bind_eq_some_iff.mp h
      obtain ⟨f, hf, h⟩ := Option.bind_eq_some_iff.mp h
      cases answer with
      | none =>
          obtain rfl := Option.some.inj h
          exact hw.failed
      | some bytes =>
          simp only at h
          split at h
          · rename_i hread
            split at h
            · rename_i hload
              obtain rfl := Option.some.inj h
              exact hw.finish hr hf hread hload
            · cases h
          · cases h

end IconWatcher

/-- In every run in which no icon is written in the tick of the clock that the
file before it was written in, the icon of the file is on display whenever the
file is complete and closed, the watcher waits, no unread notice names the file
and the last look did not fail. -/
theorem icon_watcher_current {capacity : ℕ} {filename : Bytes} {now : ℕ} {acts : List IconAct}
    {w : IconWatcher} (h : exec (IconWatcher.step capacity filename) (.start now) acts = some w)
    (hmoved : Guarded (IconWatcher.step capacity filename) IconWatcher.ClockMoved (.start now) acts)
    {f : WrittenIcon} (hf : w.file = some f) (hclosed : f.writing = false)
    (hcomplete : f.written = f.full.length) (hidle : w.reading = none)
    (hdue : w.watch.due = false) (hmissed : w.watch.missed = false)
    (hunread : ∀ e ∈ w.watch.unread, e.names filename = false) :
    ∃ bmp icon, f.calls.bitmap = some bmp ∧ w.shown = some icon ∧
      icon.width = bmp.width ∧ icon.height = bmp.height ∧
      cString icon.tooltip = iconTooltip f.nid ∧
      icon.pixelsArgb = bmp.pixels.flatMap Pixel.argb := by
  have hw : IconWatcher.Sound filename w :=
    exec_invariant_guarded (fun s l t hs hg ht ↦ hs.step hg ht) (.start now) hmoved h
  have hfile := hw.file f hf
  have hseen := hw.watch.current hdue hmissed hunread
  obtain ⟨icon, hshown, hof⟩ := hfile.current hidle hmissed hseen hclosed hcomplete
  obtain ⟨bmp, hbitmap, hfull, -⟩ := eq_iconFile_of_written hfile.full
  rw [hfull] at hof
  obtain ⟨hwidth, hheight, htext, hpixels⟩ := iconOf_iconFile f.nid bmp hof
  exact ⟨bmp, icon, hbitmap, hshown, hwidth, hheight,
    cString_of_take (iconTooltip_nonul f.nid) htext, hpixels⟩

/-- A notice of the icon file. -/
def trayIconClosed : InotifyEvent where
  wd := 1
  mask := 8
  cookie := 0
  name := bytesOf "wallpiper-tray-icon" ++ List.replicate 13 0
  name_length := by decide +kernel
  name_terminated := .inr (by decide +kernel)

/-- An icon that is written before the watcher asks for notices. -/
def earlyIconActs : List IconAct :=
  [.openFile ⟨true, some onePixelBitmap, true, true, true⟩ shortTip, .pass 3, .write 20, .pass 3,
    .write 100, .close trayIconClosed, .stat true,
    .finish (some (iconFile shortTip onePixelBitmap)) emptyIcon, .addWatch]

/-- The watcher waits, and the icon is there. -/
def EarlyIconThere (w : IconWatcher) (f : WrittenIcon) : Prop :=
  f.writing = false ∧ f.written = f.full.length ∧ iconTooltip f.nid = bytesOf "Hi" ∧
    f.calls.bitmap.map (·.pixels) = some [⟨10, 20, 30, 255⟩] ∧ w.reading.isNone ∧
    w.watch.due = false ∧ w.watch.missed = false ∧ w.watch.unread = []

instance (w : IconWatcher) (f : WrittenIcon) : Decidable (EarlyIconThere w f) :=
  inferInstanceAs (Decidable (_ ∧ _))

theorem icon_watcher_current_earlyIcon : ∃ w icon,
    exec (IconWatcher.step 16384 (bytesOf "wallpiper-tray-icon")) (.start 0) earlyIconActs =
      some w ∧ w.shown = some icon ∧ cString icon.tooltip = bytesOf "Hi" ∧
      icon.pixelsArgb = [255, 30, 20, 10] := by
  have hrun : ∃ w ∈ exec (IconWatcher.step 16384 (bytesOf "wallpiper-tray-icon")) (.start 0)
      earlyIconActs, ∃ f ∈ w.file, EarlyIconThere w f := by decide +kernel
  obtain ⟨w, hw, f, hf, hclosed, hcomplete, htip, hpixels, hidle, hdue, hmissed, hunread⟩ := hrun
  have hmoved : Guarded (IconWatcher.step 16384 (bytesOf "wallpiper-tray-icon"))
      IconWatcher.ClockMoved (.start 0) earlyIconActs := by decide +kernel
  obtain ⟨bmp, icon, hbmp, hshown, -, -, htext, hargb⟩ := icon_watcher_current hw hmoved hf hclosed
    hcomplete (Option.isNone_iff_eq_none.mp hidle) hdue hmissed (by simp [hunread])
  rw [hbmp, Option.map_some, Option.some.injEq] at hpixels
  exact ⟨w, icon, hw, hshown, htext.trans htip, by rw [hargb, hpixels]; rfl⟩

end Wallpiper.Tray
