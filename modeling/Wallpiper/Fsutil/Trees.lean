import Wallpiper.Fsutil.Answers

/-!
# What the walk leaves behind

Whatever is answered, the walk only adds to the destination: directories that
the source has, and complete copies of files that were missing.  It never writes
below the source, so it does not meet again what it has written.
-/

namespace Wallpiper.Fsutil

open Foundations Foundations.CText

/-! ## The two trees -/

/-- Copying an entry of the source to the same place below the destination does
not write into the source. -/
structure Trees (fs : FileSystem) (src dst : Path) : Prop where
  source : fs.node src = some .dir
  apart : ∀ rel, (fs.node (rel ++ src)).isSome → ¬ src <:+ rel ++ dst

/-- A node made for what the source has.  With failures a file may keep the mode
that it was opened with. -/
def Copied (faulty : Bool) : Option Node → Node → Prop
  | some .dir, .dir => True
  | some (.file content mode), .file content' mode' =>
      content' = content ∧ (faulty = false → mode' = mode &&& 0o777)
  | _, _ => False

/-- A file system in which nothing was changed, and what was added is a directory
on the way to the destination or a copy. -/
structure Synced (faulty : Bool) (fs₀ : FileSystem) (src dst : Path) (fs : FileSystem) : Prop where
  kept : ∀ p node, fs₀.node p = some node → fs.node p = some node
  created : ∀ p node, fs₀.node p = none → fs.node p = some node →
    p <:+ dst ∧ node = .dir ∨
      ∃ rel, p = rel ++ dst ∧ configJson ∉ rel ∧ Copied faulty (fs₀.node (rel ++ src)) node

def Grows (fs fs' : FileSystem) : Prop := ∀ p node, fs.node p = some node → fs'.node p = some node

/-- What is needed for a run without failures: the paths fit their buffers, and
directories are not in conflict with anything else. -/
structure Mergeable (fs : FileSystem) (src dst : Path) : Prop where
  nonempty : src ≠ [] ∧ dst ≠ []
  short : ∀ rel, (fs.node (rel ++ src)).isSome →
    pathLength (rel ++ src) < 1024 ∧ pathLength (rel ++ dst) < 1024
  names : ∀ n ∈ dst, ValidName n
  above : ∀ p, p <:+ dst → ∀ node, fs.node p = some node → node = .dir
  agree : ∀ rel, fs.node (rel ++ src) = some .dir → ∀ node, fs.node (rel ++ dst) = some node →
    node = .dir

theorem Grows.refl (fs : FileSystem) : Grows fs fs := fun _ _ h ↦ h

theorem Grows.trans {fs fs' fs'' : FileSystem} (h : Grows fs fs') (h' : Grows fs' fs'') :
    Grows fs fs'' := fun p node hp ↦ h' p node (h p node hp)

theorem Grows.isSome {fs fs' : FileSystem} (h : Grows fs fs') {p : Path}
    (hp : (fs.node p).isSome) : (fs'.node p).isSome := by
  obtain ⟨node, hnode⟩ := Option.isSome_iff_exists.mp hp
  rw [h p node hnode]
  rfl

theorem grows_put {fs fs' : FileSystem} {p : Path} {new : Node} (hnone : fs.node p = none)
    (hput : ∀ q, fs'.node q = if q = p then some new else fs.node q) : Grows fs fs' := by
  intro q node hq
  have hne : q ≠ p := by
    rintro rfl
    exact absurd (hnone.symm.trans hq) (by simp)
  rw [hput, if_neg hne, hq]

theorem node_dir_of_append {fs : FileSystem} {p : Path} {rel : Path} (hrel : rel ≠ [])
    (h : (fs.node (rel ++ p)).isSome) : fs.node p = some .dir := by
  induction rel with
  | nil => exact absurd rfl hrel
  | cons n rel ih =>
      have hdir : fs.node (rel ++ p) = some .dir := FileSystem.node_parent h
      cases rel with
      | nil => exact hdir
      | cons m rel => exact ih (List.cons_ne_nil m rel) (by rw [hdir]; rfl)

theorem suffix_append_cases {α : Type*} {p front back : List α} (h : p <:+ front ++ back) :
    p <:+ back ∨ ∃ rest, p = rest ++ back ∧ rest <:+ front := by
  induction front with
  | nil => exact .inl h
  | cons a front ih =>
      rcases List.suffix_cons_iff.mp h with rfl | hp
      · exact .inr ⟨a :: front, rfl, List.suffix_refl _⟩
      · rcases ih hp with hback | ⟨rest, rfl, hrest⟩
        · exact .inl hback
        · exact .inr ⟨rest, rfl, hrest.trans (List.suffix_cons a front)⟩

theorem eq_nil_of_append_suffix {α : Type*} {front back : List α} (h : front ++ back <:+ back) :
    front = [] := by
  have hlength := h.length_le
  rw [List.length_append] at hlength
  exact List.length_eq_zero_iff.mp (by omega)

section

variable {umask : UInt32} {faulty : Bool} {fs₀ : FileSystem} {src dst : Path}

theorem Copied.dir {node : Node} (h : Copied faulty (some .dir) node) : node = .dir := by
  cases node with
  | dir => rfl
  | file | special => exact absurd h (by simp [Copied])

theorem Copied.file {node : Node} {content : Bytes} {mode : UInt32}
    (h : Copied faulty (some (.file content mode)) node) :
    ∃ mode', node = .file content mode' ∧ (faulty = false → mode' = mode &&& 0o777) := by
  cases node with
  | file content' mode' =>
      obtain ⟨rfl, hmode⟩ := h
      exact ⟨mode', rfl, hmode⟩
  | dir | special => exact absurd h (by simp [Copied])

theorem Copied.source_of_file {old : Option Node} {content : Bytes} {mode : UInt32}
    (h : Copied faulty old (.file content mode)) : ∃ mode', old = some (.file content mode') := by
  cases old with
  | none => exact absurd h (by simp [Copied])
  | some old =>
      cases old with
      | file content' mode' => exact ⟨mode', by rw [h.1]⟩
      | dir | special => exact absurd h (by simp [Copied])

theorem Copied.source_isSome {old : Option Node} {node : Node} (h : Copied faulty old node) :
    old.isSome := by
  cases old with
  | none => exact absurd h (by simp [Copied])
  | some old => rfl

namespace Synced

theorem refl (fs : FileSystem) : Synced faulty fs src dst fs := by
  refine ⟨fun _ _ h ↦ h, ?_⟩
  intro p node hnone hsome
  exact absurd (hnone.symm.trans hsome) (by simp)

/-- One missing node is added. -/
theorem put {fs fs' : FileSystem} (h : Synced faulty fs₀ src dst fs) {p : Path} {new : Node}
    (hnone : fs.node p = none) (hput : ∀ q, fs'.node q = if q = p then some new else fs.node q)
    (hnew : p <:+ dst ∧ new = .dir ∨ ∃ rel, p = rel ++ dst ∧ configJson ∉ rel ∧
      Copied faulty (fs₀.node (rel ++ src)) new) :
    Synced faulty fs₀ src dst fs' := by
  refine ⟨?_, ?_⟩
  · intro q node hq
    exact grows_put hnone hput q node (h.kept q node hq)
  · intro q node hq hnode
    rw [hput] at hnode
    split at hnode
    · rename_i heq
      subst heq
      exact Option.some.inj hnode ▸ hnew
    · exact h.created q node hq hnode

/-- The source stays as it is. -/
theorem source_eq {fs : FileSystem} (h : Synced faulty fs₀ src dst fs)
    (htrees : Trees fs₀ src dst) (rel : Path) : fs.node (rel ++ src) = fs₀.node (rel ++ src) := by
  cases hold : fs₀.node (rel ++ src) with
  | some node => exact h.kept _ node hold
  | none =>
      by_contra hne
      obtain ⟨node, hnode⟩ := Option.ne_none_iff_exists'.mp hne
      rcases h.created _ node hold hnode with ⟨hsuffix, _⟩ | ⟨rel', heq, _, hcopied⟩
      · have hsource : (fs₀.node ([] ++ src)).isSome := by
          rw [List.nil_append, htrees.source]
          rfl
        exact htrees.apart [] hsource ((List.suffix_append rel src).trans hsuffix)
      · exact htrees.apart rel' hcopied.source_isSome (heq ▸ List.suffix_append rel src)

/-- A file that was missing is there as a copy. -/
theorem node_of_file {fs : FileSystem} (h : Synced faulty fs₀ src dst fs)
    (htrees : Trees fs₀ src dst) {rel : Path} {content : Bytes} {mode : UInt32}
    (hfile : fs₀.node (rel ++ src) = some (.file content mode))
    (hnone : fs₀.node (rel ++ dst) = none) (hsome : (fs.node (rel ++ dst)).isSome) :
    ∃ mode', fs.node (rel ++ dst) = some (.file content mode') ∧
      (faulty = false → mode' = mode &&& 0o777) := by
  obtain ⟨node, hnode⟩ := Option.isSome_iff_exists.mp hsome
  rcases h.created _ node hnone hnode with ⟨hsuffix, _⟩ | ⟨rel', heq, _, hcopied⟩
  · -- The source itself is a directory.
    rw [eq_nil_of_append_suffix hsuffix, List.nil_append, htrees.source] at hfile
    exact absurd hfile (by simp)
  · rw [← List.append_cancel_right heq, hfile] at hcopied
    obtain ⟨mode', rfl, hmode⟩ := hcopied.file
    exact ⟨mode', hnode, hmode⟩

end Synced

/-- Directories that the walk may make. -/
def DirPlace (fs₀ : FileSystem) (src dst p : Path) : Prop :=
  p <:+ dst ∨ ∃ rel, p = rel ++ dst ∧ configJson ∉ rel ∧ fs₀.node (rel ++ src) = some .dir

/-- Everything above a directory of the source is one. -/
theorem dirPlace_of_suffix {rel : Path} (hconfig : configJson ∉ rel)
    (hdir : fs₀.node (rel ++ src) = some .dir) {p : Path} (hp : p <:+ rel ++ dst) :
    DirPlace fs₀ src dst p := by
  rcases suffix_append_cases hp with hp | ⟨rel', rfl, hrel⟩
  · exact .inl hp
  · obtain ⟨front, rfl⟩ := hrel
    refine .inr ⟨rel', rfl, fun hmem ↦ hconfig (List.mem_append_right front hmem), ?_⟩
    cases front with
    | nil => exact hdir
    | cons n front =>
        rw [List.append_assoc] at hdir
        exact node_dir_of_append (List.cons_ne_nil n front) (by rw [hdir]; rfl)

theorem Synced.dir_of_place {fs : FileSystem} (h : Synced faulty fs₀ src dst fs)
    (htrees : Trees fs₀ src dst) (hmerge : Mergeable fs₀ src dst) {p : Path}
    (hplace : DirPlace fs₀ src dst p) {node : Node} (hnode : fs.node p = some node) :
    node = .dir := by
  cases hold : fs₀.node p with
  | some old =>
      obtain rfl : old = node := Option.some.inj ((h.kept p old hold).symm.trans hnode)
      rcases hplace with hsuffix | ⟨rel, rfl, _, hdir⟩
      · exact hmerge.above p hsuffix old hold
      · exact hmerge.agree rel hdir old hold
  | none =>
      rcases h.created p node hold hnode with ⟨_, hdir⟩ | ⟨rel, rfl, _, hcopied⟩
      · exact hdir
      · rcases hplace with hsuffix | ⟨rel', heq, _, hdir⟩
        · rw [eq_nil_of_append_suffix hsuffix, List.nil_append, htrees.source] at hcopied
          exact hcopied.dir
        · rw [List.append_cancel_right heq, hdir] at hcopied
          exact hcopied.dir

/-! ## Deciding what can be merged -/

/-- What a tree holds is among the paths of the file system. -/
theorem forall_below_iff {fs : FileSystem} {P : Path → Prop} :
    (∀ rel, (fs.node (rel ++ src)).isSome → P rel) ↔
      ∀ p ∈ fs.nodes.keys, src <:+ p → P (p.take (p.length - src.length)) := by
  constructor
  · rintro h _ hp ⟨rel, rfl⟩
    rw [List.length_append, Nat.add_sub_cancel, List.take_left]
    exact h rel (AList.lookup_isSome.mpr (AList.mem_keys.mpr hp))
  · intro h rel hrel
    have hmem := AList.mem_keys.mp (AList.lookup_isSome.mp hrel)
    have hP := h _ hmem (List.suffix_append rel src)
    rwa [List.length_append, Nat.add_sub_cancel, List.take_left] at hP

theorem mergeable_iff {fs : FileSystem} : Mergeable fs src dst ↔
    (src ≠ [] ∧ dst ≠ []) ∧ (∀ n ∈ dst, ValidName n) ∧
      (∀ p ∈ dst.tails, fs.node p = none ∨ fs.node p = some .dir) ∧
      ∀ p ∈ fs.nodes.keys, src <:+ p →
        (pathLength (p.take (p.length - src.length) ++ src) < 1024 ∧
          pathLength (p.take (p.length - src.length) ++ dst) < 1024) ∧
        (fs.node (p.take (p.length - src.length) ++ src) = some .dir →
          fs.node (p.take (p.length - src.length) ++ dst) = none ∨
            fs.node (p.take (p.length - src.length) ++ dst) = some .dir) := by
  have hdir : ∀ p, (∀ node, fs.node p = some node → node = .dir) ↔
      fs.node p = none ∨ fs.node p = some .dir := by
    intro p
    cases fs.node p with
    | none => simp
    | some node => simp
  rw [← forall_below_iff (P := fun rel ↦ (pathLength (rel ++ src) < 1024 ∧
    pathLength (rel ++ dst) < 1024) ∧ (fs.node (rel ++ src) = some .dir →
      fs.node (rel ++ dst) = none ∨ fs.node (rel ++ dst) = some .dir))]
  simp only [← hdir, List.mem_tails]
  constructor
  · intro h
    exact ⟨h.nonempty, h.names, h.above, fun rel hrel ↦ ⟨h.short rel hrel, h.agree rel⟩⟩
  · rintro ⟨hne, hnames, habove, hbelow⟩
    refine ⟨hne, fun rel hrel ↦ (hbelow rel hrel).1, hnames, habove, fun rel hrel ↦ ?_⟩
    exact (hbelow rel (by rw [hrel]; rfl)).2 hrel

instance (fs : FileSystem) (src dst : Path) : Decidable (Mergeable fs src dst) :=
  decidable_of_iff' _ mergeable_iff

end

end Wallpiper.Fsutil
