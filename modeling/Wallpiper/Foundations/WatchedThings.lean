import Wallpiper.Foundations.Runs

/-!
# Watching a thing for changes

A writer changes a thing and leaves a notice of the change in a queue.  A
reader takes notices from the queue, and looks at the thing after it has taken
one that names it.  Notices of other things come through the same queue.  The
queue joins a notice to an equal one at its end and drops what it has no room
for.  A change may also come before the reader is attached to the queue, and a
look may fail: then the reader has missed something until it looks again.
-/

namespace Foundations

variable {ε : Type*}

/-- What the reader knows of the thing. -/
structure Watch (ε : Type*) where
  attached : Bool
  changes : ℕ
  unread : List ε
  /-- a notice that names the thing was taken, and the reader has not looked -/
  due : Bool
  /-- how many changes there were at the last look -/
  seen : ℕ
  missed : Bool

inductive WatchStep (ε : Type*)
  | attach
  /-- a notice of something else -/
  | other (e : ε)
  | change (e : ε)
  | take (k : ℕ)
  | look
  | fail

namespace Watch

def start (attached : Bool) : Watch ε := ⟨attached, 0, [], false, 0, false⟩

section Soundness

variable (names : ε → Bool)

/-- A change the reader has not seen is on its way to it, or was missed; and
there are notices of the thing only if it has changed. -/
structure Sound (w : Watch ε) : Prop where
  seen_le : w.seen ≤ w.changes
  pending : w.seen < w.changes → w.due = true ∨ w.missed = true ∨ ∃ e ∈ w.unread, names e = true
  changed : (w.due = true ∨ ∃ e ∈ w.unread, names e = true) → 0 < w.changes

variable {names}

theorem Sound.start (attached : Bool) : Sound names (start attached) where
  seen_le := Nat.le_refl 0
  pending h := absurd h (Nat.lt_irrefl 0)
  changed h := by simp [Watch.start] at h

theorem Sound.take {w : Watch ε} (hw : Sound names w) (hdue : w.due = false) (k : ℕ) :
    Sound names { w with unread := w.unread.drop k, due := (w.unread.take k).any names } where
  seen_le := hw.seen_le
  pending h := by
    rcases hw.pending h with h | hmissed | ⟨e, he, hnames⟩
    · exact absurd h (by simp [hdue])
    · exact .inr (.inl hmissed)
    · rw [← List.take_append_drop k w.unread] at he
      rcases List.mem_append.mp he with he | he
      · exact .inl (List.any_eq_true.mpr ⟨e, he, hnames⟩)
      · exact .inr (.inr ⟨e, he, hnames⟩)
  changed h := by
    rcases h with h | ⟨e, he, hnames⟩
    · obtain ⟨e, he, hnames⟩ := List.any_eq_true.mp h
      exact hw.changed (.inr ⟨e, List.mem_of_mem_take he, hnames⟩)
    · exact hw.changed (.inr ⟨e, List.mem_of_mem_drop he, hnames⟩)

theorem Sound.attach {w : Watch ε} (hw : Sound names w) :
    Sound names { w with attached := true } := ⟨hw.seen_le, hw.pending, hw.changed⟩

theorem Sound.look {w : Watch ε} (hw : Sound names w) :
    Sound names { w with due := false, seen := w.changes, missed := false } where
  seen_le := Nat.le_refl _
  pending h := absurd h (Nat.lt_irrefl _)
  changed h := hw.changed (.inr (h.resolve_left (by simp)))

theorem Sound.fail {w : Watch ε} (hw : Sound names w) :
    Sound names { w with due := false, missed := true } where
  seen_le := hw.seen_le
  pending _ := .inr (.inl rfl)
  changed h := hw.changed (.inr (h.resolve_left (by simp)))

/-- A reader that has nothing left to do and has missed nothing has seen the
last change. -/
theorem Sound.current {w : Watch ε} (hw : Sound names w) (hdue : w.due = false)
    (hmissed : w.missed = false) (hunread : ∀ e ∈ w.unread, names e = false) :
    w.seen = w.changes := by
  refine Nat.le_antisymm hw.seen_le (Nat.not_lt.mp fun hlt ↦ ?_)
  rcases hw.pending hlt with h | h | ⟨e, he, hnames⟩
  · exact absurd h (by simp [hdue])
  · exact absurd h (by simp [hmissed])
  · exact absurd hnames (by simp [hunread e he])

end Soundness

end Watch

/-! ## Notices put into the queue -/

variable [DecidableEq ε]

/-- Put a notice into the queue.  The flag says that it was dropped. -/
def postNotice (capacity : ℕ) (unread : List ε) (e : ε) : List ε × Bool :=
  if unread.getLast? = some e then (unread, false)
  else if unread.length < capacity then (unread ++ [e], false)
  else (unread, true)

theorem mem_postNotice_or {capacity : ℕ} {unread : List ε} {e : ε} :
    e ∈ (postNotice capacity unread e).1 ∨ (postNotice capacity unread e).2 = true := by
  unfold postNotice
  split
  · exact .inl (List.mem_of_getLast? ‹_›)
  · split
    · exact .inl (by simp)
    · exact .inr rfl

theorem mem_postNotice_of_mem {capacity : ℕ} {unread : List ε} {e e' : ε} (h : e' ∈ unread) :
    e' ∈ (postNotice capacity unread e).1 := by
  unfold postNotice
  split
  · exact h
  · split
    · exact List.mem_append_left _ h
    · exact h

theorem eq_or_mem_of_mem_postNotice {capacity : ℕ} {unread : List ε} {e e' : ε}
    (h : e' ∈ (postNotice capacity unread e).1) : e' = e ∨ e' ∈ unread := by
  unfold postNotice at h
  split at h
  · exact .inr h
  · split at h
    · rcases List.mem_append.mp h with h | h
      · exact .inr h
      · exact .inl (List.mem_singleton.mp h)
    · exact .inr h

namespace Watch

variable (capacity : ℕ) (names : ε → Bool)

def step (w : Watch ε) : WatchStep ε → Option (Watch ε)
  | .attach => some { w with attached := true }
  | .other e =>
      if names e then none
      else if w.attached then some { w with unread := (postNotice capacity w.unread e).1 }
      else some w
  | .change e =>
      if names e then
        if w.attached then
          let (unread, dropped) := postNotice capacity w.unread e
          some { w with changes := w.changes + 1, unread, missed := w.missed || dropped }
        else some { w with changes := w.changes + 1, missed := true }
      else none
  | .take k =>
      if w.due then none
      else some { w with unread := w.unread.drop k, due := (w.unread.take k).any names }
  | .look => some { w with due := false, seen := w.changes, missed := false }
  | .fail => some { w with due := false, missed := true }

variable {capacity names}

/-- A change is counted, and it is not a look. -/
theorem counts_of_change {w w' : Watch ε} {e : ε}
    (h : step capacity names w (.change e) = some w') :
    w'.changes = w.changes + 1 ∧ w'.seen = w.seen := by
  simp only [Watch.step] at h
  split at h
  · split at h <;> obtain rfl := Option.some.inj h <;> exact ⟨rfl, rfl⟩
  · cases h

theorem missed_of_change {w w' : Watch ε} {e : ε}
    (h : step capacity names w (.change e) = some w') (hmissed : w'.missed = false) :
    w.missed = false := by
  simp only [Watch.step] at h
  split at h
  · split at h <;> obtain rfl := Option.some.inj h
    · exact (Bool.or_eq_false_iff.mp hmissed).1
    · exact absurd hmissed (by simp)
  · cases h

theorem counts_of_other {w w' : Watch ε} {e : ε}
    (h : step capacity names w (.other e) = some w') :
    w'.changes = w.changes ∧ w'.seen = w.seen ∧ w'.missed = w.missed := by
  simp only [Watch.step] at h
  split at h
  · cases h
  · split at h <;> obtain rfl := Option.some.inj h <;> exact ⟨rfl, rfl, rfl⟩

theorem Sound.other {w : Watch ε} {e : ε} (hw : Sound names w) (he : names e = false) :
    Sound names { w with unread := (postNotice capacity w.unread e).1 } where
  seen_le := hw.seen_le
  pending h := by
    rcases hw.pending h with hdue | hmissed | ⟨e', he', hnames⟩
    · exact .inl hdue
    · exact .inr (.inl hmissed)
    · exact .inr (.inr ⟨e', mem_postNotice_of_mem he', hnames⟩)
  changed h := by
    rcases h with hdue | ⟨e', he', hnames⟩
    · exact hw.changed (.inl hdue)
    · rcases eq_or_mem_of_mem_postNotice he' with rfl | hmem
      · exact absurd hnames (by simp [he])
      · exact hw.changed (.inr ⟨e', hmem, hnames⟩)

theorem Sound.change {w : Watch ε} {e : ε} (hw : Sound names w) (he : names e = true) :
    Sound names { w with
      changes := w.changes + 1
      unread := (postNotice capacity w.unread e).1
      missed := w.missed || (postNotice capacity w.unread e).2 } where
  seen_le := Nat.le_succ_of_le hw.seen_le
  pending _ := by
    rcases @mem_postNotice_or _ _ capacity w.unread e with hmem | hdropped
    · exact .inr (.inr ⟨e, hmem, he⟩)
    · exact .inr (.inl (by simp [hdropped]))
  changed _ := Nat.succ_pos _

theorem Sound.step {w w' : Watch ε} {l : WatchStep ε} (hw : Sound names w)
    (h : step capacity names w l = some w') : Sound names w' := by
  cases l with
  | attach =>
      obtain rfl := Option.some.inj h
      exact hw.attach
  | other e =>
      simp only [Watch.step] at h
      split at h
      · cases h
      · rename_i he
        split at h
        · obtain rfl := Option.some.inj h
          exact hw.other (Bool.not_eq_true _ ▸ he)
        · obtain rfl := Option.some.inj h
          exact hw
  | change e =>
      simp only [Watch.step] at h
      split at h
      · rename_i he
        split at h
        · obtain rfl := Option.some.inj h
          exact hw.change he
        · obtain rfl := Option.some.inj h
          exact ⟨Nat.le_succ_of_le hw.seen_le, fun _ ↦ .inr (.inl rfl), fun _ ↦ Nat.succ_pos _⟩
      · cases h
  | take k =>
      simp only [Watch.step] at h
      split at h
      · cases h
      · rename_i hdue
        obtain rfl := Option.some.inj h
        exact hw.take (Bool.not_eq_true _ ▸ hdue) k
  | look =>
      obtain rfl := Option.some.inj h
      exact hw.look
  | fail =>
      obtain rfl := Option.some.inj h
      exact hw.fail

end Watch

end Foundations
