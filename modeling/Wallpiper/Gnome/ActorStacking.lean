import Wallpiper.Foundations.Runs
import Wallpiper.Gnome.Channels

/-!
# Stacking the display actors

The display actors of the channels are children of the window group, which
belongs to the shell.  The shell may rearrange its children at any time; on
its signals the portal puts the display actors back above the background.
-/

namespace Wallpiper.Gnome

open Foundations

variable {α : Type*} [DecidableEq α]

/-! ## Children of the window group, from the bottom to the top -/

/-- `clutter_actor_insert_child_above`. -/
def insertChildAbove (actor sibling : α) : List α → List α
  | [] => [actor]
  | child :: children =>
      if child = sibling then child :: actor :: children
      else child :: insertChildAbove actor sibling children

/-- `clutter_actor_set_child_above_sibling`, which refuses an actor that is no
child. -/
def setChildAboveSibling (children : List α) (actor sibling : α) : List α :=
  if actor ∈ children ∧ sibling ∈ children ∧ actor ≠ sibling then
    insertChildAbove actor sibling (children.erase actor)
  else children

def previousSibling (actor : α) : List α → Option α
  | below :: child :: children =>
      if child = actor then some below else previousSibling actor (child :: children)
  | _ => none

structure Stage (α : Type*) where
  children : List α
  displayActors : Fin wpMaxCaptureChannels → Option α

/-- The display actors in the order of their channels. -/
def Stage.shown (s : Stage α) : List α :=
  (List.finRange wpMaxCaptureChannels).filterMap s.displayActors

/-- The lowest background group, or else the lowest child. -/
def reference (isBackground : α → Bool) (children : List α) : Option α :=
  (children.find? isBackground).or children.head?

def reassertActor (reference : α) (children : List α) (actor : α) : List α :=
  if actor = reference then children
  -- already correctly positioned
  else if previousSibling actor children = some reference then children
  else setChildAboveSibling children actor reference

/-- The children that `wallpiper_actor_stacking_reassert` leaves. -/
def actorStackingReassert (isBackground : α → Bool) (s : Stage α) : List α :=
  match reference isBackground s.children with
  | none => s.children
  | some reference => s.shown.foldl (reassertActor reference) s.children

/-- The children with the new actor of `create_channel_actor`. -/
def insertChannelActor (isBackground : α → Bool) (children : List α) (actor : α) : List α :=
  match children.find? isBackground with
  | some background => insertChildAbove actor background children
  | none =>
      match children.head? with
      | some bottom => insertChildAbove actor bottom children
      | none => children ++ [actor]

/-! ## Runs -/

inductive StageLabel (α : Type*) where
  /-- the shell adds, removes and moves children -/
  | arrange (children : List α)
  | newChannel (i : Fin wpMaxCaptureChannels) (actor : α)
  | detach
  /-- `restacked` or `window-created` -/
  | reassert
  deriving DecidableEq, Repr

/-- The shell keeps the portal's actors, and a new actor is no child yet and no
background. -/
def StageAdmissible (isBackground : α → Bool) (s : Stage α) : StageLabel α → Prop
  | .arrange children => children.Nodup ∧ ∀ actor ∈ s.shown, actor ∈ children
  | .newChannel i actor =>
      s.displayActors i = none ∧ actor ∉ s.children ∧ isBackground actor = false
  | _ => True

instance (isBackground : α → Bool) (s : Stage α) (l : StageLabel α) :
    Decidable (StageAdmissible isBackground s l) := by
  cases l <;> unfold StageAdmissible <;> infer_instance

def stageStep (isBackground : α → Bool) (s : Stage α) (l : StageLabel α) : Option (Stage α) :=
  if StageAdmissible isBackground s l then
    match l with
    | .arrange children => some { s with children := children }
    | .newChannel i actor =>
        some ⟨insertChannelActor isBackground s.children actor,
          Function.update s.displayActors i (some actor)⟩
    | .detach => some ⟨s.children.filter (· ∉ s.shown), fun _ ↦ none⟩
    | .reassert => some { s with children := actorStackingReassert isBackground s }
  else none

def Stage.initial (children : List α) : Stage α := ⟨children, fun _ ↦ none⟩

/-! ## Moving one child -/

theorem insertChildAbove_perm (actor sibling : α) (children : List α) :
    (insertChildAbove actor sibling children).Perm (actor :: children) := by
  induction children with
  | nil => rfl
  | cons child children ih =>
      unfold insertChildAbove
      split
      · exact .swap actor child children
      · exact (ih.cons child).trans (.swap actor child children)

theorem insertChildAbove_append {actor sibling : α} {below : List α} (h : sibling ∉ below)
    (above : List α) : insertChildAbove actor sibling (below ++ sibling :: above) =
      below ++ sibling :: actor :: above := by
  induction below with
  | nil => simp [insertChildAbove]
  | cons child below ih =>
      rw [List.mem_cons, not_or] at h
      simp [insertChildAbove, Ne.symm h.1, ih h.2]

theorem reassertActor_perm (reference : α) (children : List α) (actor : α) :
    (reassertActor reference children actor).Perm children := by
  unfold reassertActor
  split
  · rfl
  · split
    · rfl
    · unfold setChildAboveSibling
      split
      · rename_i hmoved
        exact (insertChildAbove_perm _ _ _).trans (List.perm_cons_erase hmoved.1).symm
      · rfl

theorem foldl_reassertActor_perm (reference : α) (actors children : List α) :
    (actors.foldl (reassertActor reference) children).Perm children := by
  induction actors generalizing children with
  | nil => rfl
  | cons actor actors ih => exact (ih _).trans (reassertActor_perm _ _ _)

theorem eq_append_of_previousSibling {actor below : α} {children : List α}
    (h : previousSibling actor children = some below) :
    ∃ pre post, children = pre ++ below :: actor :: post := by
  fun_induction previousSibling actor children with
  | case1 b children =>
      obtain rfl := Option.some.inj h
      exact ⟨[], children, rfl⟩
  | case2 b child children hne ih =>
      obtain ⟨pre, post, heq⟩ := ih h
      exact ⟨b :: pre, post, congrArg (b :: ·) heq⟩
  | case3 children hshort => exact absurd h (by simp)

theorem filter_ne_of_notMem {actor : α} {children : List α} (h : actor ∉ children) :
    children.filter (· ≠ actor) = children := by
  apply List.filter_eq_self.mpr
  intro child hchild
  simpa using fun heq : child = actor ↦ h (heq ▸ hchild)

/-- Moved or not, the actor ends up right above the reference. -/
theorem reassertActor_eq {actor reference : α} {below above : List α}
    (hnodup : (below ++ reference :: above).Nodup) (hne : actor ≠ reference)
    (hmem : actor ∈ below ++ reference :: above) :
    reassertActor reference (below ++ reference :: above) actor =
      below.filter (· ≠ actor) ++ reference :: actor :: above.filter (· ≠ actor) := by
  obtain ⟨hbelow, habove, hdisjoint⟩ := List.nodup_append.mp hnodup
  have hreference : reference ∉ below := fun h ↦ hdisjoint _ h _ List.mem_cons_self rfl
  unfold reassertActor
  rw [if_neg hne]
  split
  · rename_i hplaced
    obtain ⟨pre, post, heq⟩ := eq_append_of_previousSibling hplaced
    obtain ⟨rfl, -, rfl⟩ := (List.append_cons_inj_of_notMem hreference
      (List.nodup_cons.mp habove).1).mp heq
    have hactor : actor ∉ below := fun h ↦ hdisjoint _ h _ (by simp) rfl
    rw [filter_ne_of_notMem hactor, List.filter_cons_of_neg (by simp),
      filter_ne_of_notMem (List.nodup_cons.mp (List.nodup_cons.mp habove).2).1]
  · have hmoved : (below ++ reference :: above).erase actor =
        below.filter (· ≠ actor) ++ reference :: above.filter (· ≠ actor) := by
      have hother : (· != actor) = fun child ↦ decide (child ≠ actor) :=
        funext fun child ↦ Bool.eq_iff_iff.mpr (by simp)
      rw [hnodup.erase_eq_filter, hother, List.filter_append, List.filter_cons_of_pos]
      simpa using Ne.symm hne
    rw [setChildAboveSibling, if_pos ⟨hmem, by simp, hne⟩, hmoved]
    apply insertChildAbove_append
    exact fun h ↦ hreference (List.mem_of_mem_filter h)

/-- The reference and the actors that are moved above it. -/
def movedActors (reference : α) (actors : List α) : List α := actors.filter (· ≠ reference)

/-- All actors together: the later one is nearer to the reference. -/
theorem foldl_reassertActor {reference : α} {below above actors : List α}
    (hnodup : (below ++ reference :: above).Nodup) (hactors : actors.Nodup)
    (hsub : actors ⊆ below ++ reference :: above) :
    actors.foldl (reassertActor reference) (below ++ reference :: above) =
      below.filter (· ∉ movedActors reference actors) ++
        reference :: ((movedActors reference actors).reverse ++
          above.filter (· ∉ movedActors reference actors)) := by
  induction actors using List.reverseRecOn with
  | nil => simp [movedActors]
  | append_singleton actors actor ih =>
      obtain ⟨hrest, -, hlast⟩ := List.nodup_append.mp hactors
      have hprev := ih hrest fun a ha ↦ hsub (List.mem_append_left _ ha)
      rw [List.foldl_append, List.foldl_cons, List.foldl_nil]
      by_cases hactor : actor = reference
      · have hsame : movedActors reference (actors ++ [actor]) = movedActors reference actors := by
          simp [movedActors, hactor]
        rw [hsame, ← hprev, reassertActor, if_pos hactor]
      · have hmore : movedActors reference (actors ++ [actor]) =
            movedActors reference actors ++ [actor] := by
          simp [movedActors, hactor]
        have hperm := foldl_reassertActor_perm reference actors (below ++ reference :: above)
        have hnew : actor ∉ (movedActors reference actors).reverse := by
          rw [List.mem_reverse]
          exact fun h ↦ hlast _ (List.mem_of_mem_filter h) _ (List.mem_singleton_self _) rfl
        have hfilter (children : List α) :
            (children.filter (· ∉ movedActors reference actors)).filter (· ≠ actor) =
              children.filter (· ∉ movedActors reference actors ++ [actor]) := by
          rw [List.filter_filter]
          apply List.filter_congr
          intro child hchild
          simp [and_comm]
        rw [hprev] at hperm ⊢
        rw [reassertActor_eq (hperm.nodup_iff.mpr hnodup) hactor
          (hperm.mem_iff.mpr (hsub (by simp))), hmore, List.filter_append,
          filter_ne_of_notMem hnew, List.reverse_append, hfilter, hfilter]
        rfl

/-! ## The reference -/

omit [DecidableEq α] in
/-- The reference has no background below it, and is one itself or is the
lowest of children without a background. -/
theorem reference_eq_some_iff {isBackground : α → Bool} {children : List α} {ref : α} :
    reference isBackground children = some ref ↔
      ∃ below above, children = below ++ ref :: above ∧
        (∀ child ∈ below, isBackground child = false) ∧
        (isBackground ref = true ∨
          below = [] ∧ ∀ child ∈ children, isBackground child = false) := by
  unfold reference
  constructor
  · intro h
    cases hfind : children.find? isBackground with
    | some background =>
        rw [hfind] at h
        obtain rfl := Option.some.inj h
        obtain ⟨hself, below, above, heq, hbelow⟩ := List.find?_eq_some_iff_append.mp hfind
        exact ⟨below, above, heq, fun child hchild ↦ by simpa using hbelow child hchild, .inl hself⟩
    | none =>
        rw [hfind, Option.none_or] at h
        obtain ⟨above, rfl⟩ := List.head?_eq_some_iff.mp h
        have hplain := List.find?_eq_none.mp hfind
        refine ⟨[], above, rfl, by simp, .inr ⟨rfl, fun child hchild ↦ ?_⟩⟩
        simpa using hplain child hchild
  · rintro ⟨below, above, rfl, hbelow, hself | ⟨rfl, hplain⟩⟩
    · rw [List.find?_eq_some_iff_append.mpr ⟨hself, below, above, rfl, by simpa using hbelow⟩]
      rfl
    · rw [List.find?_eq_none.mpr (by simpa using hplain)]
      rfl

theorem insertChannelActor_eq {isBackground : α → Bool} {children : List α} {ref : α}
    (h : reference isBackground children = some ref) (actor : α) :
    insertChannelActor isBackground children actor = insertChildAbove actor ref children := by
  unfold reference at h
  unfold insertChannelActor
  cases hfind : children.find? isBackground with
  | some background =>
      rw [hfind] at h
      obtain rfl := Option.some.inj h
      rfl
  | none =>
      rw [hfind, Option.none_or] at h
      rw [h]

/-! ## What a reassertion leaves -/

/-- Nothing is lost, the other children keep their order, the display actors
lie above the reference with the last channel lowest, and once is enough. -/
structure Reasserted (isBackground : α → Bool) (s : Stage α) (children : List α) : Prop where
  perm : children.Perm s.children
  others : children.filter (· ∉ s.shown) = s.children.filter (· ∉ s.shown)
  order : ∀ ref, reference isBackground s.children = some ref →
    reference isBackground children = some ref ∧
      ∃ below above, children = below ++ ref :: ((movedActors ref s.shown).reverse ++ above)
  again : actorStackingReassert isBackground { s with children := children } = children

/-- The display actors of different channels are different children. -/
structure StageSound (s : Stage α) : Prop where
  nodup : s.children.Nodup
  apart : ∀ i j actor, s.displayActors i = some actor → s.displayActors j = some actor → i = j
  children : ∀ i actor, s.displayActors i = some actor → actor ∈ s.children

omit [DecidableEq α] in
theorem mem_shown {s : Stage α} {actor : α} :
    actor ∈ s.shown ↔ ∃ i, s.displayActors i = some actor := by
  simp [Stage.shown]

omit [DecidableEq α] in
theorem StageSound.shown_nodup {s : Stage α} (h : StageSound s) : s.shown.Nodup :=
  (List.nodup_finRange _).filterMap fun i j actor hi hj ↦ h.apart i j actor hi hj

omit [DecidableEq α] in
theorem StageSound.shown_subset {s : Stage α} (h : StageSound s) : s.shown ⊆ s.children :=
  fun actor hactor ↦ (mem_shown.mp hactor).elim fun i hi ↦ h.children i actor hi

theorem filter_notMem_filter (actors children : List α) :
    (children.filter (· ∉ actors)).filter (· ∉ actors) = children.filter (· ∉ actors) :=
  List.filter_eq_self.mpr fun _ hchild ↦ (List.mem_filter.mp hchild).2

theorem filter_notMem_of_subset {actors children : List α} (h : children ⊆ actors) :
    children.filter (· ∉ actors) = [] :=
  List.filter_eq_nil_iff.mpr fun child hchild ↦ by simpa using h hchild

theorem StageSound.reassert_eq {s : Stage α} (h : StageSound s) {isBackground : α → Bool}
    {ref : α} {below above : List α} (href : reference isBackground s.children = some ref)
    (hchildren : s.children = below ++ ref :: above) :
    actorStackingReassert isBackground s =
      below.filter (· ∉ movedActors ref s.shown) ++ ref ::
        ((movedActors ref s.shown).reverse ++ above.filter (· ∉ movedActors ref s.shown)) := by
  unfold actorStackingReassert
  rw [href]
  simp only [hchildren]
  exact foldl_reassertActor (hchildren ▸ h.nodup) h.shown_nodup (hchildren ▸ h.shown_subset)

theorem reassert_perm (isBackground : α → Bool) (s : Stage α) :
    (actorStackingReassert isBackground s).Perm s.children := by
  unfold actorStackingReassert
  split
  · rfl
  · exact foldl_reassertActor_perm _ _ _

omit [DecidableEq α] in
/-- Children in another order and the same display actors. -/
theorem StageSound.rearrange {s : Stage α} (h : StageSound s) {children : List α}
    (hperm : children.Perm s.children) : StageSound { s with children := children } :=
  ⟨hperm.nodup_iff.mpr h.nodup, h.apart, fun i actor hi ↦ hperm.mem_iff.mpr (h.children i actor hi)⟩

theorem StageSound.reasserted {s : Stage α} (h : StageSound s) (isBackground : α → Bool) :
    Reasserted isBackground s (actorStackingReassert isBackground s) := by
  have hperm := reassert_perm isBackground s
  cases href : reference isBackground s.children with
  | none =>
      have hsame : actorStackingReassert isBackground s = s.children := by
        rw [actorStackingReassert, href]
      rw [hsame]
      exact ⟨.refl _, rfl, fun ref hsome ↦ absurd (href.symm.trans hsome) (by simp), hsame⟩
  | some ref =>
      obtain ⟨below, above, hchildren, hbelow, hself⟩ := reference_eq_some_iff.mp href
      have hresult := h.reassert_eq href hchildren
      have hplain : ∀ child ∈ below.filter (· ∉ movedActors ref s.shown),
          isBackground child = false := fun child hchild ↦
        hbelow child (List.mem_of_mem_filter hchild)
      have hreference : reference isBackground (actorStackingReassert isBackground s) =
          some ref := by
        refine reference_eq_some_iff.mpr ⟨_, _, hresult, hplain, hself.imp_right ?_⟩
        rintro ⟨rfl, hnone⟩
        exact ⟨rfl, fun child hchild ↦ hnone child (hperm.mem_iff.mp hchild)⟩
      have hmoved : movedActors ref s.shown ⊆ s.shown := List.filter_subset_self _
      have hother (children : List α) :
          (children.filter (· ∉ movedActors ref s.shown)).filter (· ∉ s.shown) =
            children.filter (· ∉ s.shown) := by
        rw [List.filter_filter]
        apply List.filter_congr
        intro child hchild
        simpa using fun hnot ↦ mt (@hmoved child) hnot
      refine ⟨hperm, ?_, fun ref' href' ↦ ?_, ?_⟩
      · rw [hresult, hchildren, List.filter_append, hother, List.filter_cons, List.filter_append,
          filter_notMem_of_subset (List.reverse_subset.mpr hmoved), hother, List.nil_append,
          List.filter_append, List.filter_cons]
      · obtain rfl := Option.some.inj (href.symm.trans href')
        exact ⟨hreference, _, _, hresult⟩
      · have hagain : actorStackingReassert isBackground
            { s with children := actorStackingReassert isBackground s } =
              (below.filter (· ∉ movedActors ref s.shown)).filter (· ∉ movedActors ref s.shown) ++
                ref :: ((movedActors ref s.shown).reverse ++
                  ((movedActors ref s.shown).reverse ++
                    above.filter (· ∉ movedActors ref s.shown)).filter
                      (· ∉ movedActors ref s.shown)) :=
          (h.rearrange hperm).reassert_eq hreference hresult
        rw [hagain, filter_notMem_filter, List.filter_append, filter_notMem_filter,
          filter_notMem_of_subset (List.reverse_subset.mpr (List.Subset.refl _)), List.nil_append]
        exact hresult.symm

/-! ## Runs -/

/-- The display actors, but for the reference, lie directly above it. -/
def Stacked (isBackground : α → Bool) (s : Stage α) : Prop :=
  ∀ ref, reference isBackground s.children = some ref →
    ∃ below block above, s.children = below ++ ref :: (block ++ above) ∧
      ∀ actor, actor ∈ block ↔ actor ∈ s.shown ∧ actor ≠ ref

theorem insertChannelActor_perm (isBackground : α → Bool) (children : List α) (actor : α) :
    (insertChannelActor isBackground children actor).Perm (actor :: children) := by
  cases href : reference isBackground children with
  | some ref =>
      rw [insertChannelActor_eq href]
      exact insertChildAbove_perm _ _ _
  | none =>
      unfold reference at href
      obtain ⟨hfind, hhead⟩ := Option.or_eq_none_iff.mp href
      rw [insertChannelActor, hfind, hhead]
      exact List.perm_append_singleton actor children

omit [DecidableEq α] in
theorem update_eq_some_iff {s : Stage α} {i j : Fin wpMaxCaptureChannels} {actor a : α}
    (hfree : s.displayActors i = none) :
    Function.update s.displayActors i (some actor) j = some a ↔
      j = i ∧ a = actor ∨ s.displayActors j = some a := by
  by_cases hji : j = i
  · subst hji
    simp [hfree, eq_comm]
  · simp [hji]

theorem stageSound_step {isBackground : α → Bool} {s t : Stage α} {l : StageLabel α}
    (h : StageSound s) (hstep : stageStep isBackground s l = some t) : StageSound t := by
  unfold stageStep at hstep
  split at hstep
  · rename_i hadmissible
    cases l with
    | arrange children =>
        obtain rfl := Option.some.inj hstep
        exact ⟨hadmissible.1, h.apart, fun i actor hi ↦ hadmissible.2 _ (mem_shown.mpr ⟨i, hi⟩)⟩
    | newChannel i actor =>
        obtain rfl := Option.some.inj hstep
        obtain ⟨hfree, hnew, -⟩ := hadmissible
        have hperm := insertChannelActor_perm isBackground s.children actor
        have hold : ∀ j a, s.displayActors j = some a → a ≠ actor := by
          rintro j a hj rfl
          exact hnew (h.children j a hj)
        refine ⟨hperm.nodup_iff.mpr (List.nodup_cons.mpr ⟨hnew, h.nodup⟩), ?_, ?_⟩
        · intro j k a hj hk
          rcases (update_eq_some_iff hfree).mp hj with ⟨rfl, rfl⟩ | hj' <;>
            rcases (update_eq_some_iff hfree).mp hk with ⟨rfl, heq⟩ | hk'
          · rfl
          · exact absurd rfl (hold k _ hk')
          · exact absurd heq (hold j _ hj')
          · exact h.apart j k a hj' hk'
        · intro j a hj
          rcases (update_eq_some_iff hfree).mp hj with ⟨-, rfl⟩ | hj
          · exact hperm.mem_iff.mpr List.mem_cons_self
          · exact hperm.mem_iff.mpr (List.mem_cons_of_mem _ (h.children j a hj))
    | detach =>
        obtain rfl := Option.some.inj hstep
        exact ⟨h.nodup.filter _, fun _ _ _ hi ↦ absurd hi (by simp),
          fun _ _ hi ↦ absurd hi (by simp)⟩
    | reassert =>
        obtain rfl := Option.some.inj hstep
        exact h.rearrange (reassert_perm isBackground s)
  · exact absurd hstep (by simp)

theorem stageSound_run {isBackground : α → Bool} {children : List α} (hnodup : children.Nodup)
    {ls : List (StageLabel α)} {s : Stage α}
    (h : exec (stageStep isBackground) (Stage.initial children) ls = some s) : StageSound s :=
  exec_invariant (I := StageSound) (fun _ _ _ ↦ stageSound_step)
    ⟨hnodup, fun _ _ _ hi ↦ absurd hi (by simp [Stage.initial]),
      fun _ _ hi ↦ absurd hi (by simp [Stage.initial])⟩ h

omit [DecidableEq α] in
theorem mem_shown_newChannel {s : Stage α} {i : Fin wpMaxCaptureChannels}
    (hfree : s.displayActors i = none) {children : List α} {actor a : α} :
    a ∈ (Stage.mk children (Function.update s.displayActors i (some actor))).shown ↔
      a = actor ∨ a ∈ s.shown := by
  simp only [mem_shown, update_eq_some_iff hfree]
  constructor
  · rintro ⟨j, ⟨-, ha⟩ | hj⟩
    · exact .inl ha
    · exact .inr ⟨j, hj⟩
  · rintro (ha | ⟨j, hj⟩)
    · exact ⟨i, .inl ⟨rfl, ha⟩⟩
    · exact ⟨j, .inr hj⟩

/-- A new actor goes right above the reference, which stays the same. -/
theorem stacked_newChannel {isBackground : α → Bool} {s : Stage α} (hsound : StageSound s)
    (h : Stacked isBackground s) {i : Fin wpMaxCaptureChannels} {actor : α}
    (hfree : s.displayActors i = none) (hnew : actor ∉ s.children)
    (hplain : isBackground actor = false) :
    Stacked isBackground ⟨insertChannelActor isBackground s.children actor,
      Function.update s.displayActors i (some actor)⟩ := by
  intro ref' href'
  simp only [mem_shown_newChannel hfree]
  cases href : reference isBackground s.children with
  | none =>
      have hempty : s.children = [] := by
        unfold reference at href
        exact List.head?_eq_none_iff.mp (Option.or_eq_none_iff.mp href).2
      have halone : insertChannelActor isBackground s.children actor = [actor] := by
        rw [hempty]
        rfl
      have hnone : ∀ a, a ∉ s.shown := fun a ha ↦ by
        simpa [hempty] using hsound.shown_subset ha
      simp only [halone] at href' ⊢
      have hactor : ref' = actor := by
        obtain ⟨below, above, hsingle, -⟩ := reference_eq_some_iff.mp href'
        exact List.mem_singleton.mp (hsingle ▸ by simp)
      exact ⟨[], [], [], by simp [hactor], fun a ↦ by simp [hnone a, hactor]⟩
  | some ref =>
      obtain ⟨below, block, above, hchildren, hblock⟩ := h ref href
      obtain ⟨below', above', hchildren', hbelow, hself⟩ := reference_eq_some_iff.mp href
      obtain ⟨hnodup, habove, hdisjoint⟩ := List.nodup_append.mp (hchildren ▸ hsound.nodup)
      have hnotBelow : ref ∉ below := fun hmem ↦ hdisjoint _ hmem _ List.mem_cons_self rfl
      obtain ⟨rfl, -, rfl⟩ := (List.append_cons_inj_of_notMem hnotBelow
        (List.nodup_cons.mp habove).1).mp (hchildren.symm.trans hchildren')
      have hinserted : insertChannelActor isBackground s.children actor =
          below ++ ref :: (actor :: block ++ above) := by
        rw [insertChannelActor_eq href, hchildren, insertChildAbove_append hnotBelow]
        rfl
      have hsame : reference isBackground (insertChannelActor isBackground s.children actor) =
          some ref := by
        refine reference_eq_some_iff.mpr ⟨_, _, hinserted, hbelow, hself.imp_right ?_⟩
        rintro ⟨rfl, hnone⟩
        refine ⟨rfl, fun child hchild ↦ ?_⟩
        rcases List.mem_cons.mp ((insertChannelActor_perm _ _ _).mem_iff.mp hchild) with rfl | hold
        · exact hplain
        · exact hnone child hold
      obtain rfl := Option.some.inj (hsame.symm.trans href')
      refine ⟨below, actor :: block, above, hinserted, fun a ↦ ?_⟩
      have hne : actor ≠ ref := by
        rintro rfl
        exact hnew (hchildren ▸ by simp)
      rw [List.mem_cons, hblock]
      constructor
      · rintro (rfl | ⟨hshown, hne'⟩)
        · exact ⟨.inl rfl, hne⟩
        · exact ⟨.inr hshown, hne'⟩
      · rintro ⟨rfl | hshown, hne'⟩
        · exact .inl rfl
        · exact .inr ⟨hshown, hne'⟩

theorem stacked_reassert {isBackground : α → Bool} {s : Stage α} (hsound : StageSound s) :
    Stacked isBackground { s with children := actorStackingReassert isBackground s } := by
  intro ref' href'
  cases href : reference isBackground s.children with
  | none =>
      have hsame : actorStackingReassert isBackground s = s.children := by
        rw [actorStackingReassert, href]
      simp only [hsame] at href'
      exact absurd (href.symm.trans href') (by simp)
  | some ref =>
      obtain ⟨hsame, below, above, hchildren⟩ := (hsound.reasserted isBackground).order ref href
      obtain rfl := Option.some.inj (hsame.symm.trans href')
      exact ⟨below, _, above, hchildren, fun actor ↦ by simp [movedActors, Stage.shown]⟩

theorem stacked_step {isBackground : α → Bool} {s t : Stage α} {l : StageLabel α}
    (hsound : StageSound s) (h : Stacked isBackground s) (hl : ∀ children, l ≠ .arrange children)
    (hstep : stageStep isBackground s l = some t) : Stacked isBackground t := by
  unfold stageStep at hstep
  split at hstep
  · rename_i hadmissible
    cases l with
    | arrange children => exact absurd rfl (hl children)
    | newChannel i actor =>
        obtain rfl := Option.some.inj hstep
        exact stacked_newChannel hsound h hadmissible.1 hadmissible.2.1 hadmissible.2.2
    | detach =>
        obtain rfl := Option.some.inj hstep
        intro ref href
        obtain ⟨below, above, hchildren, -⟩ := reference_eq_some_iff.mp href
        exact ⟨below, [], above, hchildren, fun actor ↦ by simp [mem_shown]⟩
    | reassert =>
        obtain rfl := Option.some.inj hstep
        exact stacked_reassert hsound
  · exact absurd hstep (by simp)

theorem stacked_run {isBackground : α → Bool} {s t : Stage α} (hsound : StageSound s)
    (h : Stacked isBackground s) {ls : List (StageLabel α)}
    (hquiet : ∀ l ∈ ls, ∀ children, l ≠ .arrange children)
    (hrun : exec (stageStep isBackground) s ls = some t) : Stacked isBackground t := by
  induction ls generalizing s with
  | nil =>
      obtain rfl := Option.some.inj hrun
      exact h
  | cons l ls ih =>
      obtain ⟨u, hstep, hrest⟩ := exec_cons_eq_some.mp hrun
      exact ih (stageSound_step hsound hstep)
        (stacked_step hsound h (hquiet l List.mem_cons_self) hstep)
        (fun l' hl' ↦ hquiet l' (List.mem_cons_of_mem _ hl')) hrest

/-- In every reachable state a reassertion puts the display actors right above
the background and changes nothing else. -/
theorem actors_reasserted (isBackground : α → Bool) (children : List α)
    (hnodup : children.Nodup) (ls : List (StageLabel α)) {s : Stage α}
    (h : exec (stageStep isBackground) (Stage.initial children) ls = some s) :
    Reasserted isBackground s (actorStackingReassert isBackground s) :=
  (stageSound_run hnodup h).reasserted isBackground

/-- The shell raises the background over two display actors. -/
def backgroundRaised : List (StageLabel ℕ) :=
  [.newChannel ⟨0, by decide⟩ 8, .newChannel ⟨2, by decide⟩ 9, .arrange [8, 5, 0, 9, 6]]

theorem actors_reasserted_backgroundRaised :
    ∃ s, exec (stageStep (· == 0)) (Stage.initial [0, 5, 6]) backgroundRaised = some s ∧
      Reasserted (· == 0) s [5, 0, 9, 8, 6] :=
  ⟨_, rfl, actors_reasserted (· == 0) [0, 5, 6] (by decide) backgroundRaised rfl⟩

/-- From a reassertion until the shell rearranges its children again, the
display actors lie right above the background. -/
theorem actors_stay_stacked (isBackground : α → Bool) (children : List α)
    (hnodup : children.Nodup) (ls ls' : List (StageLabel α)) {s : Stage α}
    (h : exec (stageStep isBackground) (Stage.initial children) (ls ++ .reassert :: ls') = some s)
    (hquiet : ∀ l ∈ ls', ∀ children, l ≠ .arrange children) : Stacked isBackground s := by
  rw [exec_append] at h
  obtain ⟨s₁, hrun, hrest⟩ := Option.bind_eq_some_iff.mp h
  obtain ⟨s₂, hstep, hrest⟩ := exec_cons_eq_some.mp hrest
  have hsound := stageSound_run hnodup hrun
  have hstacked : Stacked isBackground s₂ := by
    obtain rfl : { s₁ with children := actorStackingReassert isBackground s₁ } = s₂ :=
      Option.some.inj hstep
    exact stacked_reassert hsound
  exact stacked_run (stageSound_step hsound hstep) hstacked hquiet hrest

theorem actors_stay_stacked_newChannel :
    ∃ s, exec (stageStep (· == 0)) (Stage.initial [0, 5, 6])
        (backgroundRaised ++ .reassert :: [.newChannel ⟨1, by decide⟩ 7]) = some s ∧
      Stacked (· == 0) s :=
  ⟨_, rfl, actors_stay_stacked (· == 0) [0, 5, 6] (by decide) backgroundRaised
    [.newChannel ⟨1, by decide⟩ 7] rfl (by simp)⟩

end Wallpiper.Gnome
