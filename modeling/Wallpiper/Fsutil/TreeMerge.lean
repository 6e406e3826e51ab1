import Mathlib.Algebra.Order.BigOperators.Group.List
import Wallpiper.Fsutil.Walk

/-!
# Merging a tree into another

While no device fails, the walk adds everything that is missing and returns true.
What it leaves behind is again a pair of trees that can be merged, so this can be
used for a second run, which has nothing to add.
-/

namespace Wallpiper.Fsutil

open Foundations Foundations.CText

/-! ## Where the trees are -/

/-- Neither tree contains the other, or the source is a subdirectory of the
destination and has no entry with its own name. -/
def Placed (fs : FileSystem) (src dst : Path) : Prop :=
  (¬ src <:+ dst ∧ ¬ dst <:+ src) ∨ ∃ n, src = n :: dst ∧ fs.node (n :: src) = none

theorem Placed.trees {fs : FileSystem} {src dst : Path} (h : Placed fs src dst)
    (hsource : fs.node src = some .dir) : Trees fs src dst := by
  refine ⟨hsource, ?_⟩
  intro rel hrel hsuffix
  rcases suffix_append_cases hsuffix with hdst | ⟨rest, hrest, hfront⟩
  · rcases h with ⟨hno, _⟩ | ⟨n, rfl, _⟩
    · exact hno hdst
    · have hlength := hdst.length_le
      rw [List.length_cons] at hlength
      omega
  · rcases h with ⟨_, hno⟩ | ⟨n, rfl, hnone⟩
    · exact hno ⟨rest, hrest.symm⟩
    · obtain rfl : [n] = rest := List.append_cancel_right hrest
      -- The entry would lie on the way to what is at `rel`.
      obtain ⟨front, rfl⟩ := hfront
      rw [List.append_assoc, List.singleton_append] at hrel
      have hsome := FileSystem.node_of_append front hrel
      rw [hnone] at hsome
      exact absurd hsome (by simp)

/-! ## Bounds -/

def Node.size : Node → ℕ
  | .file content _ => content.length
  | _ => 0

/-- More than the length of any file and deeper than any path that is followed. -/
def FileSystem.walkBound (fs : FileSystem) : ℕ := (fs.nodes.entries.map fun e ↦ e.2.size).sum + 1025

theorem FileSystem.length_lt_walkBound {fs : FileSystem} {p : Path} {content : Bytes}
    {mode : UInt32} (h : fs.node p = some (.file content mode)) :
    content.length < fs.walkBound := by
  have hentry : ⟨p, .file content mode⟩ ∈ fs.nodes.entries := AList.mem_lookup_iff.mp h
  have hle : content.length ≤ (fs.nodes.entries.map fun e ↦ e.2.size).sum :=
    List.le_sum_of_mem (List.mem_map.mpr ⟨_, hentry, rfl⟩)
  rw [walkBound]
  omega

section

variable {umask : UInt32} {faulty : Bool} {fs₀ fs : FileSystem} {src dst : Path}

theorem Synced.trees (h : Synced faulty fs₀ src dst fs) (htrees : Trees fs₀ src dst) :
    Trees fs src dst := by
  refine ⟨h.kept _ _ htrees.source, ?_⟩
  intro rel hrel
  rw [h.source_eq htrees] at hrel
  exact htrees.apart rel hrel

/-- What is excluded stays as it is. -/
theorem Synced.config_eq (h : Synced faulty fs₀ src dst fs) {rel : Path}
    (hconfig : configJson ∈ rel) : fs.node (rel ++ dst) = fs₀.node (rel ++ dst) := by
  cases hold : fs₀.node (rel ++ dst) with
  | some node => exact h.kept _ node hold
  | none =>
      by_contra hne
      obtain ⟨node, hnode⟩ := Option.ne_none_iff_exists'.mp hne
      rcases h.created _ node hold hnode with ⟨hsuffix, _⟩ | ⟨rel', heq, hfree, _⟩
      · exact List.ne_nil_of_mem hconfig (eq_nil_of_append_suffix hsuffix)
      · rw [List.append_cancel_right heq] at hconfig
        exact hfree hconfig

theorem Synced.mergeable (h : Synced faulty fs₀ src dst fs) (htrees : Trees fs₀ src dst)
    (hmerge : Mergeable fs₀ src dst) : Mergeable fs src dst := by
  refine ⟨hmerge.nonempty, ?_, hmerge.names, ?_, ?_⟩
  · intro rel hrel
    rw [h.source_eq htrees] at hrel
    exact hmerge.short rel hrel
  · intro p hp node hnode
    exact h.dir_of_place htrees hmerge (.inl hp) hnode
  · intro rel hdir node hnode
    rw [h.source_eq htrees] at hdir
    by_cases hconfig : configJson ∈ rel
    · rw [h.config_eq hconfig] at hnode
      exact hmerge.agree rel hdir node hnode
    · exact h.dir_of_place htrees hmerge (.inr ⟨rel, rfl, hconfig, hdir⟩) hnode

/-- One run of the walk. -/
theorem ends_wpSyncDirTree (htrees : Trees fs₀ src dst)
    (hmerge : faulty = false → Mergeable fs₀ src dst) {bound : ℕ} (hbound : fs₀.walkBound ≤ bound) :
    Ends umask faulty fs₀ src dst
      (Walked faulty fs₀ src dst fs₀ (PresentBelow fs₀ src dst []))
      (wpSyncDirTree bound src dst) fs₀ := by
  have hbounds : WalkBounds faulty bound fs₀ src dst := by
    refine ⟨htrees, hmerge, fun p content mode hfile ↦ ?_⟩
    exact lt_of_lt_of_le (FileSystem.length_lt_walkBound hfile) hbound
  rw [FileSystem.walkBound] at hbound
  obtain ⟨depth, rfl⟩ : ∃ depth, bound = depth + 1 := ⟨bound - 1, by omega⟩
  exact @ends_syncDirTree umask faulty fs₀ src dst _ hbounds depth [] (by omega) (by simp)
    htrees.source fs₀ (Synced.refl fs₀)

/-! ## Runs without failures -/

def Answers (umask : UInt32) (fs : FileSystem) (c : SysCall) (r : SysReply c)
    (fs' : FileSystem) : Prop := fs.answer umask c r = some fs'

/-- The program ends, whatever the answers are, and the result is as required. -/
abbrev Finishes {α : Type} (umask : UInt32) (Q : α → FileSystem → Prop) (p : SysProgram α)
    (fs : FileSystem) : Prop :=
  Program.Returns (Answers umask) (fun _ _ ↦ True) Q p fs

theorem sysStep_false : SysStep umask false = Answers umask := by
  funext fs c r fs'
  simp [SysStep, Answers]

/-- What a run leaves behind. -/
structure Merged (fs : FileSystem) (src dst : Path) (fs' : FileSystem) : Prop extends
    Synced false fs src dst fs' where
  config : ∀ rel, configJson ∈ rel → fs'.node (rel ++ dst) = fs.node (rel ++ dst)
  copied : ∀ rel content mode, configJson ∉ rel →
    fs.node (rel ++ src) = some (.file content mode) → fs.node (rel ++ dst) = none →
      fs'.node (rel ++ dst) = some (.file content (mode &&& 0o777))

theorem merged_of_synced (htrees : Trees fs₀ src dst) (h : Synced false fs₀ src dst fs)
    (hpresent : PresentBelow fs₀ src dst [] fs) : Merged fs₀ src dst fs := by
  refine ⟨h, fun rel hconfig ↦ h.config_eq hconfig, ?_⟩
  intro rel content mode hconfig hfile hnone
  have hsome := hpresent rel hconfig _ hfile (by simp)
  rw [List.nil_append] at hsome
  obtain ⟨mode', hnode, hmode⟩ := h.node_of_file htrees hfile hnone hsome
  rw [hnode, hmode rfl]

/-- Nothing is made where everything is present already. -/
theorem node_eq_of_present (htrees : Trees fs₀ src dst) (h : Synced false fs₀ src dst fs)
    (hpresent : PresentBelow fs₀ src dst [] fs₀) (p : Path) : fs.node p = fs₀.node p := by
  cases hold : fs₀.node p with
  | some node => exact h.kept p node hold
  | none =>
      by_contra hne
      obtain ⟨node, hnode⟩ := Option.ne_none_iff_exists'.mp hne
      rcases h.created p node hold hnode with ⟨⟨front, hfront⟩, _⟩ | ⟨rel, rfl, hconfig, hcopied⟩
      · have hdst : (fs₀.node (front ++ p)).isSome := by
          rw [hfront]
          exact hpresent [] (by simp) .dir htrees.source (by simp)
        have hsome := FileSystem.node_of_append front hdst
        rw [hold] at hsome
        exact absurd hsome (by simp)
      · obtain ⟨old, hsource⟩ := Option.isSome_iff_exists.mp hcopied.source_isSome
        have hspecial : old ≠ .special := by
          rintro rfl
          rw [hsource] at hcopied
          exact absurd hcopied (by simp [Copied])
        have hsome := hpresent rel hconfig old hsource hspecial
        rw [List.nil_append, hold] at hsome
        exact absurd hsome (by simp)

theorem finishes_wpSyncDirTree (htrees : Trees fs₀ src dst) (hmerge : Mergeable fs₀ src dst)
    {bound : ℕ} (hbound : fs₀.walkBound ≤ bound) :
    Finishes umask (fun ok fs ↦ ok = true ∧ Synced false fs₀ src dst fs ∧
      PresentBelow fs₀ src dst [] fs) (wpSyncDirTree bound src dst) fs₀ := by
  have hends : Ends umask false fs₀ src dst _ _ fs₀ :=
    ends_wpSyncDirTree htrees (fun _ ↦ hmerge) hbound
  rw [Ends, sysStep_false] at hends
  refine (hends.mono_atCall fun _ _ _ ↦ trivial).mono fun ok fs hwalked ↦ ?_
  exact ⟨(hwalked.2.2 rfl).1, hwalked.1, (hwalked.2.2 rfl).2⟩

end

/-! ## The walk -/

/-- The walk merges the source into the destination, and a second run changes
nothing. -/
theorem wpSyncDirTree_merges (fs : FileSystem) (src dst : Path)
    (hsource : fs.node src = some .dir) (hplaced : Placed fs src dst)
    (hmerge : Mergeable fs src dst) (bound : ℕ) (hbound : fs.walkBound ≤ bound) (umask : UInt32) :
    Finishes umask
      (fun ok fs' ↦ ok = true ∧ Merged fs src dst fs' ∧
        ∀ bound', fs'.walkBound ≤ bound' → ∀ umask',
          Finishes umask' (fun ok fs'' ↦ ok = true ∧ ∀ p, fs''.node p = fs'.node p)
            (wpSyncDirTree bound' src dst) fs')
      (wpSyncDirTree bound src dst) fs := by
  have htrees := hplaced.trees hsource
  refine (finishes_wpSyncDirTree htrees hmerge hbound).mono fun ok fs' ⟨hok, hsynced, hpresent⟩ ↦ ?_
  refine ⟨hok, merged_of_synced htrees hsynced hpresent, fun bound' hbound' umask' ↦ ?_⟩
  have htrees' := hsynced.trees htrees
  have hpresent' : PresentBelow fs' src dst [] fs' := by
    intro rel hconfig node hnode hspecial
    rw [List.nil_append, hsynced.source_eq htrees] at hnode
    exact hpresent rel hconfig node hnode hspecial
  refine (finishes_wpSyncDirTree htrees' (hsynced.mergeable htrees hmerge) hbound').mono ?_
  intro ok fs'' ⟨hok, hsynced', _⟩
  exact ⟨hok, node_eq_of_present htrees' hsynced' hpresent'⟩

/-- The two directories of `wp_we_sync_distribution`. -/
def installDir (steamRoot : Path) : Path :=
  bytesOf "wallpaper_engine" :: bytesOf "common" :: bytesOf "steamapps" :: steamRoot

def distributionDir (steamRoot : Path) : Path := bytesOf "distribution" :: installDir steamRoot

/-- An installation in which one file of the distribution is missing. -/
def installation : FileSystem :=
  let installDir := installDir []
  let distributionDir := distributionDir []
  FileSystem.empty.putAll [
    (installDir.drop 2, .dir), (installDir.drop 1, .dir), (installDir, .dir),
    (bytesOf "bin" :: installDir, .file [1] 0o644),
    (distributionDir, .dir), (bytesOf "bin" :: distributionDir, .file [2] 0o644),
    (bytesOf "lib" :: distributionDir, .file [3] 0o755),
    (configJson :: distributionDir, .file [4] 0o644)]

theorem wpSyncDirTree_merges_installation :
    Finishes 0o022
      (fun ok fs' ↦ ok = true ∧ Merged installation (distributionDir []) (installDir []) fs' ∧
        ∀ bound', fs'.walkBound ≤ bound' → ∀ umask',
          Finishes umask' (fun ok fs'' ↦ ok = true ∧ ∀ p, fs''.node p = fs'.node p)
            (wpSyncDirTree bound' (distributionDir []) (installDir [])) fs')
      (wpSyncDirTree installation.walkBound (distributionDir []) (installDir [])) installation :=
  wpSyncDirTree_merges installation (distributionDir []) (installDir []) (by decide)
    (.inr ⟨_, rfl, by decide⟩) (by decide) _ (Nat.le_refl _) _

end Wallpiper.Fsutil
