import Mathlib.Logic.Function.Basic
import Wallpiper.Foundations.CText

/-!
# Inodes and path lookup

A tree of directories, files and symbolic links as the kernel keeps it: entries
of directories lead to inodes, and a path is looked up component by component,
with a limit on the number of links followed on the way.
-/

namespace Foundations.Inodes

open CText

abbrev Name := Bytes

inductive Node where
  | directory (parent : ℕ)
  | file (content : Bytes)
  | symlink (target : Bytes)
  | special
  deriving DecidableEq, Repr

def IsDirectory (node : ℕ → Option Node) (i : ℕ) : Prop :=
  ∃ parent, node i = some (.directory parent)

/-- Inodes from `unused` on are free. -/
structure Tree where
  node : ℕ → Option Node
  entry : ℕ → Name → Option ℕ
  root : ℕ
  cwd : ℕ
  unused : ℕ
  root_directory : IsDirectory node root
  cwd_directory : IsDirectory node cwd
  parent_directory : ∀ i parent, node i = some (.directory parent) → IsDirectory node parent
  entry_valid : ∀ i name j, entry i name = some j → IsDirectory node i ∧ (node j).isSome
  free : ∀ i, unused ≤ i → node i = none

def dot : Name := bytesOf "."

def dotDot : Name := bytesOf ".."

/-- What stands between slashes. -/
def components (path : Bytes) : List Name := tokens (fun c ↦ c = 47) path

namespace Tree

instance (fs : Tree) (i : ℕ) : Decidable (IsDirectory fs.node i) :=
  match h : fs.node i with
  | some (.directory parent) => isTrue ⟨parent, h⟩
  | some (.file _) => isFalse fun ⟨_, hi⟩ ↦ by simp [h] at hi
  | some (.symlink _) => isFalse fun ⟨_, hi⟩ ↦ by simp [h] at hi
  | some .special => isFalse fun ⟨_, hi⟩ ↦ by simp [h] at hi
  | none => isFalse fun ⟨_, hi⟩ ↦ by simp [h] at hi

/-- Where the lookup of a path begins. -/
def start (fs : Tree) (i : ℕ) (path : Bytes) : ℕ := if path.head? = some 47 then fs.root else i

/-- The inode that the names lead to from inode `i`, and how many more links may
be followed.  `follow` goes on behind a symbolic link. -/
def walkFrom (fs : Tree) (links : ℕ) (follow : ℕ → List Name → Option (ℕ × ℕ)) :
    ℕ → List Name → Option (ℕ × ℕ)
  | i, [] => some (i, links)
  | i, name :: names =>
      match fs.node i with
      | some (.directory parent) =>
          if name = dot then walkFrom fs links follow i names
          else if name = dotDot then walkFrom fs links follow parent names
          else
            match fs.entry i name with
            | none => none
            | some j =>
                match fs.node j with
                | some (.symlink target) => follow (fs.start i target) (components target ++ names)
                | _ => walkFrom fs links follow j names
      | _ => none

def walk (fs : Tree) : ℕ → ℕ → List Name → Option (ℕ × ℕ)
  | 0 => walkFrom fs 0 fun _ _ ↦ none
  | links + 1 => walkFrom fs (links + 1) (walk fs links)

/-- The kernel follows forty links. -/
def maxLinks : ℕ := 40

def lookup (fs : Tree) (path : Bytes) : Option ℕ :=
  if path = [] then none
  else (fs.walk maxLinks (fs.start fs.cwd path) (components path)).map Prod.fst

def NamesDirectory (fs : Tree) (path : Bytes) : Prop :=
  ∃ i ∈ fs.lookup path, IsDirectory fs.node i

instance (fs : Tree) (path : Bytes) : Decidable (fs.NamesDirectory path) :=
  inferInstanceAs (Decidable (∃ i ∈ fs.lookup path, IsDirectory fs.node i))

/-- The directory that holds the last component of the path. -/
def parentOf (fs : Tree) (path : Bytes) : Option { d // IsDirectory fs.node d } :=
  match fs.walk maxLinks (fs.start fs.cwd path) (components path).dropLast with
  | some (d, _) => if h : IsDirectory fs.node d then some ⟨d, h⟩ else none
  | none => none

/-- There is something of that name, be it a link that leads nowhere. -/
def occupied (fs : Tree) (path : Bytes) : Bool :=
  match fs.parentOf path, (components path).getLast? with
  | some d, some last => last = dot || last = dotDot || (fs.entry d last).isSome
  | some _, none => path ≠ []
  | none, _ => false

theorem isDirectory_update (fs : Tree) {i : ℕ} (h : IsDirectory fs.node i) (node : Option Node) :
    IsDirectory (Function.update fs.node fs.unused node) i := by
  obtain ⟨parent, hi⟩ := h
  have hne : i ≠ fs.unused := by
    rintro rfl
    rw [fs.free _ le_rfl] at hi
    exact absurd hi (by simp)
  exact ⟨parent, by rw [Function.update_of_ne hne, hi]⟩

/-- Another directory, on the first free inode. -/
def addDirectory (fs : Tree) (d : ℕ) (name : Name) (hd : IsDirectory fs.node d) : Tree :=
  { fs with
    node := Function.update fs.node fs.unused (some (.directory d))
    entry := fun i n ↦ if i = d ∧ n = name then some fs.unused else fs.entry i n
    unused := fs.unused + 1
    root_directory := fs.isDirectory_update fs.root_directory _
    cwd_directory := fs.isDirectory_update fs.cwd_directory _
    parent_directory := by
      intro i parent hi
      by_cases hnew : i = fs.unused
      · rw [hnew, Function.update_self] at hi
        obtain rfl : d = parent := by simpa using hi
        exact fs.isDirectory_update hd _
      · rw [Function.update_of_ne hnew] at hi
        exact fs.isDirectory_update (fs.parent_directory i parent hi) _
    entry_valid := by
      intro i n j hentry
      split_ifs at hentry with hnew
      · obtain rfl : fs.unused = j := by simpa using hentry
        rw [hnew.1]
        exact ⟨fs.isDirectory_update hd _, by simp⟩
      · obtain ⟨hi, hj⟩ := fs.entry_valid i n j hentry
        refine ⟨fs.isDirectory_update hi _, ?_⟩
        by_cases hnew : j = fs.unused
        · simp [hnew]
        · rwa [Function.update_of_ne hnew]
    free := by
      intro i hi
      rw [Function.update_of_ne (by omega)]
      exact fs.free i (by omega) }

end Tree

/-- The answers of `mkdir`. -/
inductive Mkdir where
  | made (fs : Tree)
  | eexist
  | failed

/-- `mkdir`, which may also fail for reasons that are not in the tree. -/
def mkdir (fails : Bool) (fs : Tree) (path : Bytes) : Mkdir :=
  if fails then .failed
  else if fs.occupied path then .eexist
  else
    match fs.parentOf path, (components path).getLast? with
    | some d, some last => .made (fs.addDirectory d last d.property)
    | _, _ => .failed

/-! ## Components -/

theorem components_append (front back : Bytes) :
    components (front ++ 47 :: back) = components front ++ components back := by
  rw [components, tokens, List.splitOnP_append_cons front back (by decide), List.filter_append]
  rfl

namespace Tree

theorem start_append {front : Bytes} (h : front ≠ []) (fs : Tree) (i : ℕ) (back : Bytes) :
    fs.start i (front ++ back) = fs.start i front := by
  obtain ⟨c, front, rfl⟩ := List.exists_cons_of_ne_nil h
  rfl

/-! ## Walks -/

/-- How a walk goes on behind a link. -/
def follow (fs : Tree) : ℕ → ℕ → List Name → Option (ℕ × ℕ)
  | 0 => fun _ _ ↦ none
  | links + 1 => fs.walk links

theorem walk_eq (fs : Tree) (links : ℕ) : fs.walk links = fs.walkFrom links (fs.follow links) := by
  cases links <;> rfl

theorem walkFrom_append (fs : Tree) {links : ℕ} {follow : ℕ → List Name → Option (ℕ × ℕ)}
    (hwalk : fs.walk links = fs.walkFrom links follow)
    (hfollow : ∀ i xs ys, follow i (xs ++ ys) =
      (follow i xs).bind fun (j, m) ↦ fs.walk m j ys) (i : ℕ) (xs ys : List Name) :
    fs.walkFrom links follow i (xs ++ ys) =
      (fs.walkFrom links follow i xs).bind fun (j, m) ↦ fs.walk m j ys := by
  induction xs generalizing i with
  | nil =>
      rw [List.nil_append, walkFrom, Option.bind_some, ← hwalk]
  | cons name names ih =>
      rw [List.cons_append, walkFrom, walkFrom]
      rcases hi : fs.node i with _ | (parent | _ | _ | _)
      all_goals dsimp only
      case some.directory =>
        split_ifs with hdot hdotDot
        · exact ih i
        · exact ih parent
        · cases fs.entry i name with
          | none => rfl
          | some j =>
              dsimp only
              rcases fs.node j with _ | (_ | _ | target | _)
              all_goals dsimp only
              case some.symlink => rw [← List.append_assoc, hfollow]
              all_goals exact ih j
      all_goals rfl

theorem walk_append (fs : Tree) (links i : ℕ) (xs ys : List Name) :
    fs.walk links i (xs ++ ys) = (fs.walk links i xs).bind fun (j, m) ↦ fs.walk m j ys := by
  induction links generalizing i xs ys with
  | zero =>
      exact fs.walkFrom_append rfl (fun _ _ _ ↦ rfl) i xs ys
  | succ links ih => exact fs.walkFrom_append rfl ih i xs ys

/-- Only a directory can be walked through. -/
theorem isDirectory_of_walk {fs : Tree} {links i d m : ℕ} {names : List Name}
    (h : fs.walk links i names = some (d, m)) (hd : IsDirectory fs.node d) :
    IsDirectory fs.node i := by
  rw [walk_eq] at h
  cases names with
  | nil =>
      rw [walkFrom, Option.some.injEq, Prod.mk.injEq] at h
      exact h.1 ▸ hd
  | cons name names =>
      rw [walkFrom] at h
      split at h
      · rename_i parent hi
        exact ⟨parent, hi⟩
      · exact absurd h (by simp)

/-! ## Growing trees -/

/-- Everything in the first tree is in the second. -/
structure Extends (fs fs' : Tree) : Prop where
  node : ∀ i node, fs.node i = some node → fs'.node i = some node
  entry : ∀ i name j, fs.entry i name = some j → fs'.entry i name = some j
  root : fs'.root = fs.root
  cwd : fs'.cwd = fs.cwd

theorem Extends.refl (fs : Tree) : fs.Extends fs where
  node _ _ h := h
  entry _ _ _ h := h
  root := rfl
  cwd := rfl

theorem Extends.trans {fs fs' fs'' : Tree} (h : fs.Extends fs') (h' : fs'.Extends fs'') :
    fs.Extends fs'' where
  node i node hi := h'.node i node (h.node i node hi)
  entry i name j hj := h'.entry i name j (h.entry i name j hj)
  root := h'.root.trans h.root
  cwd := h'.cwd.trans h.cwd

theorem Extends.isDirectory {fs fs' : Tree} (h : fs.Extends fs') {i : ℕ}
    (hi : IsDirectory fs.node i) : IsDirectory fs'.node i := by
  obtain ⟨parent, hparent⟩ := hi
  exact ⟨parent, h.node i _ hparent⟩

theorem Extends.start {fs fs' : Tree} (h : fs.Extends fs') (i : ℕ) (path : Bytes) :
    fs'.start i path = fs.start i path := by
  rw [Tree.start, Tree.start, h.root]

theorem Extends.walkFrom {fs fs' : Tree} (h : fs.Extends fs') {links : ℕ}
    {follow follow' : ℕ → List Name → Option (ℕ × ℕ)}
    (hfollow : ∀ i names r, follow i names = some r → follow' i names = some r) {i : ℕ}
    {names : List Name} {r : ℕ × ℕ} (hwalk : fs.walkFrom links follow i names = some r) :
    fs'.walkFrom links follow' i names = some r := by
  induction names generalizing i with
  | nil => exact hwalk
  | cons name names ih =>
      rw [Tree.walkFrom] at hwalk ⊢
      split at hwalk
      · rename_i parent hi
        rw [h.node i _ hi]
        dsimp only
        split_ifs at hwalk ⊢ with hdot hdotDot
        · exact ih hwalk
        · exact ih hwalk
        · cases hentry : fs.entry i name with
          | none =>
              rw [hentry] at hwalk
              exact absurd hwalk (by simp)
          | some j =>
              obtain ⟨node, hj⟩ := Option.isSome_iff_exists.mp (fs.entry_valid i name j hentry).2
              rw [hentry] at hwalk
              rw [h.entry i name j hentry]
              dsimp only at hwalk ⊢
              rw [hj] at hwalk
              rw [h.node j node hj]
              rcases node with _ | _ | target | _
              case symlink =>
                dsimp only at hwalk ⊢
                rw [h.start]
                exact hfollow _ _ _ hwalk
              all_goals exact ih hwalk
      · exact absurd hwalk (by simp)

theorem Extends.walk {fs fs' : Tree} (h : fs.Extends fs') {links i : ℕ} {names : List Name}
    {r : ℕ × ℕ} (hwalk : fs.walk links i names = some r) : fs'.walk links i names = some r := by
  induction links generalizing i names r with
  | zero =>
      have hnone : ∀ i names r, (fun (_ : ℕ) (_ : List Name) ↦ (none : Option (ℕ × ℕ))) i names =
          some r → (none : Option (ℕ × ℕ)) = some r := fun _ _ _ hr ↦ hr
      exact h.walkFrom hnone hwalk
  | succ links ih => exact h.walkFrom (fun i names r hr ↦ ih hr) hwalk

theorem Extends.namesDirectory {fs fs' : Tree} (h : fs.Extends fs') {path : Bytes}
    (hpath : fs.NamesDirectory path) : fs'.NamesDirectory path := by
  obtain ⟨i, hi, hdirectory⟩ := hpath
  refine ⟨i, ?_, h.isDirectory hdirectory⟩
  rw [lookup] at hi ⊢
  split at hi
  · exact absurd hi (by simp)
  · rename_i hne
    obtain ⟨r, hwalk, rfl⟩ := Option.map_eq_some_iff.mp hi
    rw [if_neg hne, h.start, h.cwd, h.walk hwalk]
    rfl

theorem addDirectory_extends {fs : Tree} {d : ℕ} {name : Name} (hd : IsDirectory fs.node d)
    (hnew : fs.entry d name = none) : fs.Extends (fs.addDirectory d name hd) where
  node i node hi := by
    have hne : i ≠ fs.unused := by
      rintro rfl
      rw [fs.free _ le_rfl] at hi
      exact absurd hi (by simp)
    exact (Function.update_of_ne hne _ _).trans hi
  entry i n j hj := by
    have hne : ¬(i = d ∧ n = name) := by
      rintro ⟨rfl, rfl⟩
      exact absurd (hj.symm.trans hnew) (by simp)
    exact (if_neg hne).trans hj
  root := rfl
  cwd := rfl

/-! ## Parents -/

theorem parentOf_eq_some {fs : Tree} {path : Bytes} {d : { d // IsDirectory fs.node d }}
    (h : fs.parentOf path = some d) :
    ∃ m, fs.walk maxLinks (fs.start fs.cwd path) (components path).dropLast = some (d.val, m) := by
  rw [parentOf] at h
  split at h
  · rename_i d' m hwalk
    split at h
    · obtain rfl := Option.some.inj h
      exact ⟨m, hwalk⟩
    · exact absurd h (by simp)
  · exact absurd h (by simp)

/-- The new directory is found under its path. -/
theorem namesDirectory_addDirectory {fs : Tree} {path : Bytes}
    {d : { d // IsDirectory fs.node d }} {last : Name} (hparent : fs.parentOf path = some d)
    (hlast : (components path).getLast? = some last)
    (hfree : last ≠ dot ∧ last ≠ dotDot ∧ fs.entry d last = none) :
    (fs.addDirectory d last d.property).NamesDirectory path := by
  have hextends := addDirectory_extends d.property hfree.2.2
  obtain ⟨m, hwalk⟩ := parentOf_eq_some hparent
  obtain ⟨parent, hd⟩ := hextends.isDirectory d.property
  have hpath : path ≠ [] := by
    rintro rfl
    exact absurd hlast (by simp [components])
  have hentry : (fs.addDirectory d last d.property).entry d last = some fs.unused :=
    if_pos ⟨rfl, rfl⟩
  have hnode : (fs.addDirectory d last d.property).node fs.unused = some (.directory d) :=
    Function.update_self _ _ _
  have hstep : (fs.addDirectory d last d.property).walk m d [last] = some (fs.unused, m) := by
    rw [walk_eq, walkFrom, hd]
    dsimp only
    rw [if_neg hfree.1, if_neg hfree.2.1, hentry]
    dsimp only
    rw [hnode]
    rfl
  have hsplit : components path = (components path).dropLast ++ [last] := by
    obtain ⟨front, hfront⟩ := List.getLast?_eq_some_iff.mp hlast
    rw [hfront, List.dropLast_concat]
  refine ⟨fs.unused, ?_, ⟨d, hnode⟩⟩
  rw [lookup, if_neg hpath, hsplit, walk_append, hextends.start, hextends.cwd,
    hextends.walk hwalk, Option.bind_some]
  dsimp only
  rw [hstep]
  rfl

/-- Looking up the last component of a path goes through all that stands before
it. -/
theorem namesDirectory_front {fs : Tree} {front back : Bytes}
    (h : (fs.parentOf (front ++ 47 :: back)).isSome) (hfront : front ≠ [])
    (hback : components back ≠ []) : fs.NamesDirectory front := by
  obtain ⟨d, hd⟩ := Option.isSome_iff_exists.mp h
  obtain ⟨m, hwalk⟩ := parentOf_eq_some hd
  rw [start_append hfront, components_append, List.dropLast_append_of_ne_nil hback, walk_append,
    Option.bind_eq_some_iff] at hwalk
  obtain ⟨⟨i, links⟩, hi, hrest⟩ := hwalk
  refine ⟨i, ?_, isDirectory_of_walk hrest d.property⟩
  rw [lookup, if_neg hfront, hi]
  rfl

/-- Slashes at the end of a path make no difference. -/
theorem namesDirectory_slashes {front back : Bytes} (hfront : front ≠ [])
    (hback : components back = []) (fs : Tree) :
    fs.NamesDirectory (front ++ 47 :: back) ↔ fs.NamesDirectory front := by
  have hlookup : fs.lookup (front ++ 47 :: back) = fs.lookup front := by
    rw [lookup, lookup, if_neg (by simp), if_neg hfront, start_append hfront, components_append,
      hback, List.append_nil]
  rw [NamesDirectory, NamesDirectory, hlookup]

end Tree

/-! ## What `mkdir` does -/

open Foundations.Inodes.Tree

theorem mkdir_eq_eexist {fails : Bool} {fs : Tree} {path : Bytes}
    (h : mkdir fails fs path = .eexist) :
    fails = false ∧ fs.occupied path = true ∧ (fs.parentOf path).isSome := by
  rw [mkdir] at h
  split_ifs at h with hfails hoccupied
  · refine ⟨by simpa using hfails, hoccupied, ?_⟩
    rw [occupied] at hoccupied
    cases hparent : fs.parentOf path with
    | none =>
        rw [hparent] at hoccupied
        exact absurd hoccupied (by simp)
    | some d => rfl
  · split at h <;> exact absurd h (by simp)

theorem mkdir_eq_made {fails : Bool} {fs fs' : Tree} {path : Bytes}
    (h : mkdir fails fs path = .made fs') :
    fails = false ∧ fs.occupied path = false ∧ (fs.parentOf path).isSome ∧ fs.Extends fs' ∧
      fs'.NamesDirectory path := by
  rw [mkdir] at h
  split_ifs at h with hfails hoccupied
  split at h
  · rename_i d last hparent hlast
    obtain rfl := Mkdir.made.inj h
    have hfree : last ≠ dot ∧ last ≠ dotDot ∧ fs.entry d last = none := by
      rw [occupied, hparent, hlast] at hoccupied
      simpa [and_assoc] using hoccupied
    refine ⟨by simpa using hfails, by simpa using hoccupied, by simp [hparent],
      addDirectory_extends d.property hfree.2.2, namesDirectory_addDirectory hparent hlast hfree⟩
  · exact absurd h (by simp)

end Foundations.Inodes
