import Wallpiper.Fsutil.TreeMerge

/-!
# Runs that fail or are cut short

A failure leaves every file complete unless it strikes while a file is being
copied.  Then the part that was written stays, and a later run takes it for the
file because it only asks whether something is there.
-/

namespace Wallpiper.Fsutil

open Foundations Foundations.CText

/-- Every file of the destination is as it was or is complete. -/
structure WholeFiles (fs₀ : FileSystem) (src dst : Path) (fs : FileSystem) : Prop where
  kept : ∀ rel node, fs₀.node (rel ++ dst) = some node → fs.node (rel ++ dst) = some node
  complete : ∀ rel content mode, fs₀.node (rel ++ dst) = none →
    fs.node (rel ++ dst) = some (.file content mode) →
      ∃ mode', fs₀.node (rel ++ src) = some (.file content mode')

/-- What was missing and is not excluded is there. -/
def MissingPresent (fs₀ : FileSystem) (src dst : Path) (fs : FileSystem) : Prop :=
  ∀ rel content mode, configJson ∉ rel → fs₀.node (rel ++ src) = some (.file content mode) →
    fs₀.node (rel ++ dst) = none → ∃ mode', fs.node (rel ++ dst) = some (.file content mode')

/-- Any device may fail. -/
def FaultyStep (umask : UInt32) (fs : FileSystem) (c : SysCall) (r : SysReply c)
    (fs' : FileSystem) : Prop := faultyAnswer umask fs c r = some fs'

/-- Any device may fail, but no read and no write fails before the end of a file. -/
def SparingStep (umask : UInt32) (fs : FileSystem) (c : SysCall) (r : SysReply c)
    (fs' : FileSystem) : Prop :=
  FaultyStep umask fs c r fs' ∧ (failing c r = true → inCopy fs c = false)

section

variable {umask : UInt32} {faulty : Bool} {fs₀ fs : FileSystem} {src dst : Path}

theorem SparingStep.sysStep {fs' : FileSystem} {c : SysCall} {r : SysReply c}
    (h : SparingStep umask fs c r fs') : SysStep umask true fs c r fs' := by
  obtain ⟨hanswer, hspared⟩ := h
  rw [FaultyStep, faultyAnswer] at hanswer
  split at hanswer
  · rename_i hfailing
    exact .inr ⟨rfl, hfailing, hspared hfailing, (Option.some.inj hanswer).symm⟩
  · exact .inl hanswer

/-- Wherever a run ends, the files are complete. -/
theorem synced_of_run (htrees : Trees fs₀ src dst) {bound : ℕ} (hbound : fs₀.walkBound ≤ bound)
    {p : SysProgram Bool}
    (hrun : Program.Run (SparingStep umask) (wpSyncDirTree bound src dst) fs₀ p fs)
    (hcut : ∀ c next, p = .call c next → inCopy fs c = false) : Synced true fs₀ src dst fs := by
  have hends : Ends umask true fs₀ src dst _ _ fs₀ :=
    ends_wpSyncDirTree htrees (fun hno ↦ absurd hno (by simp)) hbound
  have hrest := hends.run (hrun.mono fun _ _ _ _ hstep ↦ hstep.sysStep)
  cases p with
  | ret ok => exact hrest.1
  | call c next => exact hrest.1 rfl (hcut c next rfl)
  | stuck => exact hrest.elim

theorem Synced.wholeFiles (h : Synced faulty fs₀ src dst fs) : WholeFiles fs₀ src dst fs := by
  refine ⟨fun rel node hnode ↦ h.kept _ node hnode, ?_⟩
  intro rel content mode hnone hfile
  rcases h.created _ _ hnone hfile with ⟨_, hdir⟩ | ⟨rel', heq, _, hcopied⟩
  · exact absurd hdir (by simp)
  · rw [← List.append_cancel_right heq] at hcopied
    exact hcopied.source_of_file

/-- A run without failures completes what an earlier one has begun. -/
theorem missingPresent_of_synced {fs' : FileSystem} (htrees : Trees fs₀ src dst)
    (h : Synced faulty fs₀ src dst fs) (h' : Synced false fs src dst fs')
    (hpresent : PresentBelow fs src dst [] fs') : MissingPresent fs₀ src dst fs' := by
  intro rel content mode hconfig hfile hnone
  have hfile' : fs.node (rel ++ src) = some (.file content mode) :=
    (h.source_eq htrees rel).trans hfile
  by_cases hsome : (fs.node (rel ++ dst)).isSome
  · obtain ⟨mode', hnode, _⟩ := h.node_of_file htrees hfile hnone hsome
    exact ⟨mode', h'.kept _ _ hnode⟩
  · have hnone' : fs.node (rel ++ dst) = none := by simpa using hsome
    have hsome' := hpresent rel hconfig _ hfile' (by simp)
    rw [List.nil_append] at hsome'
    obtain ⟨mode', hnode, _⟩ := h'.node_of_file (h.trees htrees) hfile' hnone' hsome'
    exact ⟨mode', hnode⟩

end

/-- As long as no failure strikes during a copy and the run is not cut there, the
files are complete, and a later run without failures adds what is missing. -/
theorem wholeFiles_of_sparing (fs₀ : FileSystem) (src dst : Path)
    (hsource : fs₀.node src = some .dir) (hplaced : Placed fs₀ src dst) (bound : ℕ)
    (hbound : fs₀.walkBound ≤ bound) (umask : UInt32) (p : SysProgram Bool) (fs : FileSystem)
    (hrun : Program.Run (SparingStep umask) (wpSyncDirTree bound src dst) fs₀ p fs)
    (hcut : ∀ c next, p = .call c next → inCopy fs c = false) :
    WholeFiles fs₀ src dst fs ∧
      (Mergeable fs₀ src dst → ∀ bound', fs.walkBound ≤ bound' → ∀ umask',
        Finishes umask' (fun ok fs' ↦ ok = true ∧ MissingPresent fs₀ src dst fs')
          (wpSyncDirTree bound' src dst) fs) := by
  have htrees := hplaced.trees hsource
  have hsynced := synced_of_run htrees hbound hrun hcut
  refine ⟨hsynced.wholeFiles, fun hmerge bound' hbound' umask' ↦ ?_⟩
  have hlater : Finishes umask' _ _ fs := finishes_wpSyncDirTree (hsynced.trees htrees)
    (hsynced.mergeable htrees hmerge) hbound'
  refine hlater.mono fun ok fs' ⟨hok, hsynced', hpresent⟩ ↦ ?_
  exact ⟨hok, missingPresent_of_synced htrees hsynced hsynced' hpresent⟩

/-! ## Two runs in an installation -/

def binName : Name := bytesOf "bin"

def libName : Name := bytesOf "lib"

/-- Up to the entry that is missing. -/
def repliesBefore : List (Sigma SysReply) :=
  let installDir := installDir []
  let distributionDir := distributionDir []
  [⟨.opendir distributionDir, true⟩, ⟨.mkdir (installDir.drop 2), .eexist⟩,
    ⟨.mkdir (installDir.drop 1), .eexist⟩, ⟨.mkdir installDir, .eexist⟩,
    ⟨.readdir distributionDir, [dot, dotDot, binName, libName, configJson]⟩,
    ⟨.lstat (binName :: distributionDir), some (.reg 0o644)⟩,
    ⟨.stat (binName :: installDir), true⟩,
    ⟨.lstat (libName :: distributionDir), some (.reg 0o755)⟩]

/-- The copy is opened, unless the device fails then. -/
def repliesOpen (opened : Bool) : List (Sigma SysReply) :=
  [⟨.stat (libName :: installDir []), false⟩, ⟨.openRead (libName :: distributionDir []), true⟩,
    ⟨.openWrite (libName :: installDir []) 0o755, opened⟩]

/-- The device is full. -/
def repliesFull : List (Sigma SysReply) :=
  [⟨.read (libName :: distributionDir []) 0, some [3]⟩,
    ⟨.write (libName :: installDir []) [3], none⟩]

def walkInstallation : SysProgram Bool :=
  wpSyncDirTree installation.walkBound (distributionDir []) (installDir [])

theorem wholeFiles_of_sparing_notOpened :
    ∃ fs, Program.Run (SparingStep 0o022) walkInstallation installation (.ret false) fs ∧
      WholeFiles installation (distributionDir []) (installDir []) fs ∧
      (Mergeable installation (distributionDir []) (installDir []) →
        ∀ bound', fs.walkBound ≤ bound' → ∀ umask',
          Finishes umask'
            (fun ok fs' ↦ ok = true ∧
              MissingPresent installation (distributionDir []) (installDir []) fs')
            (wpSyncDirTree bound' (distributionDir []) (installDir [])) fs) := by
  let answer := fun fs c r ↦
    if failing c r = true → inCopy fs c = false then faultyAnswer 0o022 fs c r else none
  have hreplay : ((Program.replay answer (repliesBefore ++ repliesOpen false) walkInstallation
      installation).bind fun (p, _) ↦ p.value?) = some false := by decide
  obtain ⟨⟨p, fs⟩, hp, hvalue⟩ := Option.bind_eq_some_iff.mp hreplay
  obtain rfl := Program.eq_ret_of_value? hvalue
  have hrun : Program.Run (SparingStep 0o022) walkInstallation installation (.ret false) fs := by
    refine (Program.run_of_replay hp).mono fun fs c r fs' hstep ↦ ?_
    by_cases hspared : failing c r = true → inCopy fs c = false
    · exact ⟨(if_pos hspared).symm.trans hstep, hspared⟩
    · exact absurd ((if_neg hspared).symm.trans hstep) (by simp)
  exact ⟨fs, hrun, wholeFiles_of_sparing installation (distributionDir []) (installDir [])
    (by decide) (.inr ⟨_, rfl, by decide⟩) installation.walkBound (Nat.le_refl _) 0o022 (.ret false)
    fs hrun (by simp)⟩

/-- The write fails, an empty file stays, and the second run succeeds without it. -/
theorem failed_write_stays :
    ∃ fs fs', Program.Run (FaultyStep 0o022) walkInstallation installation (.ret false) fs ∧
      ¬ WholeFiles installation (distributionDir []) (installDir []) fs ∧
      Program.Run (Answers 0o022) walkInstallation fs (.ret true) fs' ∧
      ¬ MissingPresent installation (distributionDir []) (installDir []) fs' := by
  let lib := libName :: installDir []
  have hreplay : ((Program.replay (faultyAnswer 0o022)
      (repliesBefore ++ repliesOpen true ++ repliesFull) walkInstallation installation).bind
        fun (p, fs) ↦ (Program.replay (FileSystem.answer 0o022)
          (repliesBefore ++ [⟨.stat lib, true⟩]) walkInstallation fs).map
            fun (p', fs') ↦ (p.value?, fs.node lib, p'.value?, fs'.node lib)) =
      some (some false, some (.file [] 0o755), some true, some (.file [] 0o755)) := by decide
  obtain ⟨⟨p, fs⟩, hp, hrest⟩ := Option.bind_eq_some_iff.mp hreplay
  obtain ⟨⟨p', fs'⟩, hp', hfound⟩ := Option.map_eq_some_iff.mp hrest
  simp only [Prod.mk.injEq] at hfound
  obtain ⟨hvalue, hnode, hvalue', hnode'⟩ := hfound
  obtain rfl := Program.eq_ret_of_value? hvalue
  obtain rfl := Program.eq_ret_of_value? hvalue'
  have hmissing : installation.node lib = none := by decide
  have hsource : installation.node ([libName] ++ distributionDir []) = some (.file [3] 0o755) := by
    decide
  refine ⟨fs, fs', Program.run_of_replay hp, ?_, Program.run_of_replay hp', ?_⟩
  · intro hwhole
    obtain ⟨mode, hfile⟩ := hwhole.complete [libName] [] 0o755 hmissing hnode
    rw [hsource] at hfile
    exact absurd hfile (by simp)
  · intro hpresent
    obtain ⟨mode, hfile⟩ := hpresent [libName] [3] 0o755 (by decide) hsource hmissing
    exact absurd (hnode'.symm.trans hfile) (by simp)

end Wallpiper.Fsutil
