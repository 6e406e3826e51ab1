import Wallpiper.Foundations.Inodes
import Wallpiper.Fsutil.SyncDirTree

/-!
# Making directories

`wp_mkdir_p` calls `mkdir` for what stands before each slash of a path, from
left to right, and then for the path itself, and goes on when there is something
of that name.  Here the path is the string that it is given, with its slashes.
-/

namespace Wallpiper.Fsutil.MakeDirectories

open Foundations.CText Foundations.Inodes

/-- The loop over the path, with what stands before the pointer and behind it.
Which calls fail for a reason of their own is part of the arguments. -/
def mkdirPrefixes (failure : Bytes → Bool) : Tree → Bytes → Bytes → Tree × Bool
  | fs, _, [] => (fs, true)
  | fs, front, c :: rest =>
      if c = 47 then
        match mkdir (failure front) fs front with
        | .made fs' => mkdirPrefixes failure fs' (front ++ [c]) rest
        | .eexist => mkdirPrefixes failure fs (front ++ [c]) rest
        | .failed => (fs, false)
      else mkdirPrefixes failure fs (front ++ [c]) rest

def wpMkdirP (failure : Bytes → Bool) (fs : Tree) (path : Bytes) : Tree × Bool :=
  if path.length = 0 ∨ 1024 ≤ path.length then (fs, false)
  else
    match mkdirPrefixes failure fs (path.take 1) (path.drop 1) with
    | (fs', false) => (fs', false)
    | (fs', true) =>
        match mkdir (failure path) fs' path with
        | .made fs'' => (fs'', true)
        | .eexist => (fs', true)
        | .failed => (fs', false)

/-- Without a slash, or with one at the start only, there is nothing to make. -/
def wpMkdirPParent (failure : Bytes → Bool) (fs : Tree) (filePath : Bytes) : Tree × Bool :=
  if filePath.length = 0 ∨ 1024 ≤ filePath.length then (fs, false)
  else
    let front := filePath.rdropWhile fun c ↦ c ≠ 47
    if front.length ≤ 1 then (fs, true) else wpMkdirP failure fs front.dropLast

/-- The path and all that stands before a slash in it name directories, and what
there was is there still. -/
structure MakesDirectories (fs fs' : Tree) (path : Bytes) : Prop where
  made : fs'.NamesDirectory path
  before : ∀ front back, path = front ++ 47 :: back → front ≠ [] → fs'.NamesDirectory front
  unchanged : fs.Extends fs'

/-- There is something of that name which is no directory: a file, or a link
that leads to none. -/
def Obstructed (fs : Tree) (path : Bytes) : Prop :=
  fs.occupied path = true ∧ ¬ fs.NamesDirectory path

instance (fs : Tree) (path : Bytes) : Decidable (Obstructed fs path) :=
  inferInstanceAs (Decidable (_ ∧ _))

/-- When it comes to the last call of `mkdir` and this is not to fail, the path
is not obstructed. -/
def NotObstructed (failure : Bytes → Bool) (fs : Tree) (path : Bytes) : Prop :=
  path.length ≠ 0 → path.length < 1024 →
    (mkdirPrefixes failure fs (path.take 1) (path.drop 1)).2 = true → failure path = false →
      ¬ Obstructed (mkdirPrefixes failure fs (path.take 1) (path.drop 1)).1 path

/-! ## One call -/

theorem extends_mkdirPrefixes (failure : Bytes → Bool) (fs : Tree) (front rest : Bytes) :
    fs.Extends (mkdirPrefixes failure fs front rest).1 := by
  fun_induction mkdirPrefixes failure fs front rest with
  | case1 fs => exact Tree.Extends.refl fs
  | case2 fs front rest fs' hmade ih =>
      obtain ⟨-, -, -, hextends, -⟩ := mkdir_eq_made hmade
      exact hextends.trans ih
  | case3 fs front rest heexist ih => exact ih
  | case4 fs front rest hfailed => exact Tree.Extends.refl fs
  | case5 fs front c rest hslash ih => exact ih

/-- What the last call looks up shows that all before it are directories. -/
theorem makesDirectories_of_parent {fs fs₁ fs' : Tree} {path : Bytes}
    (hparent : (fs₁.parentOf path).isSome) (hbefore : fs.Extends fs₁) (hafter : fs₁.Extends fs')
    (hpath : fs'.NamesDirectory path) : MakesDirectories fs fs' path where
  made := hpath
  before front back hsplit hfront := by
    subst hsplit
    by_cases hback : components back = []
    · exact (Tree.namesDirectory_slashes hfront hback fs').mp hpath
    · exact hafter.namesDirectory (Tree.namesDirectory_front hparent hfront hback)
  unchanged := hbefore.trans hafter

/-- When it returns true the path and what is before it are directories and all
else is unchanged, exactly when nothing but a directory had the path's name. -/
theorem wpMkdirP_correct_iff (failure : Bytes → Bool) (fs : Tree) (path : Bytes) :
    ((wpMkdirP failure fs path).2 = true →
        MakesDirectories fs (wpMkdirP failure fs path).1 path) ↔
      NotObstructed failure fs path := by
  have hbefore := extends_mkdirPrefixes failure fs (path.take 1) (path.drop 1)
  rw [wpMkdirP, NotObstructed]
  by_cases hfits : path.length = 0 ∨ 1024 ≤ path.length
  · rw [if_pos hfits]
    refine iff_of_true (by simp) fun hne hlt ↦ ?_
    omega
  rw [if_neg hfits]
  obtain ⟨hne, hlt⟩ : path.length ≠ 0 ∧ path.length < 1024 := by omega
  generalize mkdirPrefixes failure fs (path.take 1) (path.drop 1) = loop at hbefore ⊢
  obtain ⟨fs₁, done⟩ := loop
  cases done with
  | false => simp
  | true =>
      dsimp only at hbefore ⊢
      cases hmkdir : mkdir (failure path) fs₁ path with
      | made fs₂ =>
          obtain ⟨-, hfree, hparent, hafter, hpath⟩ := mkdir_eq_made hmkdir
          have hmakes := makesDirectories_of_parent hparent hbefore hafter hpath
          refine iff_of_true (fun _ ↦ hmakes) fun _ _ _ _ hthere ↦ ?_
          rw [hthere.1] at hfree
          exact absurd hfree (by simp)
      | eexist =>
          obtain ⟨hcalled, hthere, hparent⟩ := mkdir_eq_eexist hmkdir
          constructor
          · intro hcorrect _ _ _ _ hobstructed
            exact hobstructed.2 (hcorrect rfl).made
          · intro hclear _
            have hpath : fs₁.NamesDirectory path := by
              by_contra hno
              exact hclear hne hlt rfl hcalled ⟨hthere, hno⟩
            exact makesDirectories_of_parent hparent hbefore (Tree.Extends.refl fs₁) hpath
      | failed =>
          refine iff_of_true (by simp) fun _ _ _ hcalled hobstructed ↦ ?_
          rw [mkdir, hcalled, hobstructed.1] at hmkdir
          exact absurd hmkdir (by simp)

/-- A tree with one file. -/
def oneFile : Tree where
  node i := if i = 0 then some (.directory 0) else if i = 1 then some (.file []) else none
  entry i name := if i = 0 ∧ name = bytesOf "f" then some 1 else none
  root := 0
  cwd := 0
  unused := 2
  root_directory := ⟨0, rfl⟩
  cwd_directory := ⟨0, rfl⟩
  parent_directory := by
    intro i parent h
    split_ifs at h with hroot
    · obtain rfl : 0 = parent := by simpa using h
      exact ⟨0, rfl⟩
    · exact absurd h (by simp)
  entry_valid := by
    intro i name j h
    obtain ⟨⟨rfl, -⟩, hj⟩ := Option.ite_none_right_eq_some.mp h
    obtain rfl := Option.some.inj hj
    exact ⟨⟨0, rfl⟩, rfl⟩
  free := by
    intro i h
    rw [if_neg (by omega), if_neg (by omega)]

example : (wpMkdirP (fun _ ↦ false) oneFile (bytesOf "/a//b/")).2 = true ∧
    (wpMkdirP (fun _ ↦ false) oneFile (bytesOf "/a//b/")).1.NamesDirectory (bytesOf "a/b") := by
  decide

/-- It returns true for the path of a regular file. -/
theorem file_taken_for_directory :
    (wpMkdirP (fun _ ↦ false) oneFile (bytesOf "f")).2 = true ∧
      ¬ MakesDirectories oneFile (wpMkdirP (fun _ ↦ false) oneFile (bytesOf "f")).1
        (bytesOf "f") := by
  refine ⟨by decide, fun h ↦ ?_⟩
  exact absurd h.made (by decide)

/-! ## The directory of a file -/

theorem wpMkdirPParent_eq {dir name : Bytes} (hdir : dir ≠ []) (hname : 47 ∉ name)
    (hlength : (dir ++ 47 :: name).length < 1024) (failure : Bytes → Bool) (fs : Tree) :
    wpMkdirPParent failure fs (dir ++ 47 :: name) = wpMkdirP failure fs dir := by
  have hfront : (dir ++ 47 :: name).rdropWhile (fun c ↦ decide (c ≠ 47)) = dir ++ [47] := by
    have hdrop : ∀ c ∈ name.reverse, decide (c ≠ 47) = true := by
      intro c hc
      have hne : c ≠ 47 := fun heq ↦ hname (heq ▸ List.mem_reverse.mp hc)
      simpa using hne
    rw [List.rdropWhile, List.reverse_append, List.reverse_cons, List.append_assoc,
      List.dropWhile_append_of_pos hdrop, List.singleton_append,
      List.dropWhile_cons_of_neg (by simp), List.reverse_cons, List.reverse_reverse]
  have hpos := List.length_pos_iff.mpr hdir
  have hfits : ¬((dir ++ 47 :: name).length = 0 ∨ 1024 ≤ (dir ++ 47 :: name).length) := by
    rw [not_or]
    exact ⟨by simp, by omega⟩
  have hslash : ¬(dir ++ [47]).length ≤ 1 := by
    rw [List.length_append, List.length_singleton]
    omega
  rw [wpMkdirPParent, if_neg hfits, hfront]
  dsimp only
  rw [if_neg hslash, List.dropLast_concat]

/-! ## Paths of components -/

/-- The buffers of the calls in the loop. -/
def loopCalls : Bytes → Bytes → List Bytes
  | _, [] => []
  | front, c :: rest =>
      if c = 47 then front :: loopCalls (front ++ [c]) rest else loopCalls (front ++ [c]) rest

/-- A path with a slash before each component. -/
def spell (p : Path) : Bytes := (p.reverse.map (47 :: ·)).flatten

/-- What is above a path and the path itself, the topmost first. -/
def downTo : Path → List Path
  | [] => []
  | n :: p => downTo p ++ [n :: p]

theorem loopCalls_append (front rest rest' : Bytes) :
    loopCalls front (rest ++ rest') = loopCalls front rest ++ loopCalls (front ++ rest) rest' := by
  induction rest generalizing front with
  | nil => rw [List.nil_append, List.append_nil, loopCalls, List.nil_append]
  | cons c rest ih =>
      rw [List.cons_append, loopCalls, loopCalls, ih, List.append_assoc]
      split <;> rfl

theorem loopCalls_eq_nil {front rest : Bytes} (h : 47 ∉ rest) : loopCalls front rest = [] := by
  induction rest generalizing front with
  | nil => rfl
  | cons c rest ih =>
      rw [List.mem_cons, not_or] at h
      rw [loopCalls, if_neg (Ne.symm h.1), ih h.2]

theorem spell_cons (n : Name) (p : Path) : spell (n :: p) = spell p ++ 47 :: n := by
  simp [spell]

/-- For a path of components the loop calls `mkdir` for everything above it. -/
theorem loopCalls_spell {n : Name} {p : Path} (h : ∀ m ∈ n :: p, ValidName m) :
    loopCalls ((spell (n :: p)).take 1) ((spell (n :: p)).drop 1) = (downTo p).map spell := by
  induction p generalizing n with
  | nil =>
      have hslash : 47 ∉ (spell [n]).drop 1 := by
        simpa [spell] using (h n List.mem_cons_self).2.2.2.1
      exact loopCalls_eq_nil hslash
  | cons m p ih =>
      have hslash : 47 ∉ n := (h n List.mem_cons_self).2.2.2.1
      have hbelow := ih fun k hk ↦ h k (List.mem_cons_of_mem n hk)
      have hlong : 1 ≤ (spell (m :: p)).length := by
        rw [spell_cons, List.length_append, List.length_cons]
        omega
      rw [spell_cons n, List.take_append_of_le_length hlong, List.drop_append_of_le_length hlong,
        loopCalls_append, hbelow, List.take_append_drop, loopCalls, if_pos rfl,
        loopCalls_eq_nil hslash, downTo, List.map_append]
      rfl

/-- One call after the other, until one fails. -/
def mkdirAll (failure : Bytes → Bool) : Tree → List Bytes → Tree × Bool
  | fs, [] => (fs, true)
  | fs, path :: paths =>
      match mkdir (failure path) fs path with
      | .made fs' => mkdirAll failure fs' paths
      | .eexist => mkdirAll failure fs paths
      | .failed => (fs, false)

theorem mkdirPrefixes_eq_mkdirAll (failure : Bytes → Bool) (fs : Tree) (front rest : Bytes) :
    mkdirPrefixes failure fs front rest = mkdirAll failure fs (loopCalls front rest) := by
  fun_induction mkdirPrefixes failure fs front rest with
  | case1 fs => rfl
  | case2 fs front rest fs' hmade ih => rw [loopCalls, if_pos rfl, mkdirAll, hmade, ih]
  | case3 fs front rest heexist ih => rw [loopCalls, if_pos rfl, mkdirAll, heexist, ih]
  | case4 fs front rest hfailed => rw [loopCalls, if_pos rfl, mkdirAll, hfailed]
  | case5 fs front c rest hslash ih => rw [loopCalls, if_neg hslash, ih]

/-- The same for paths of components. -/
def mkdirEach : List Path → SysProgram Bool
  | [] => pure true
  | p :: ps => do
      match ← Sys.mkdir p with
      | .failed => pure false
      | _ => mkdirEach ps

theorem mkdirEach_concat (ps : List Path) (p : Path) :
    mkdirEach (ps ++ [p]) = (do
      if ← mkdirEach ps then
        match ← Sys.mkdir p with
        | .failed => pure false
        | _ => pure true
      else pure false) := by
  induction ps with
  | nil => rfl
  | cons q ps ih =>
      refine congrArg (Foundations.Program.call (SysCall.mkdir q)) (funext fun reply ↦ ?_)
      cases reply with
      | made => exact ih
      | eexist => exact ih
      | failed => rfl

/-- The loop over components makes the calls that the loop over the string
makes, in the same order. -/
theorem mkdirs_eq_mkdirEach (p : Path) : mkdirs p = mkdirEach (downTo p) := by
  induction p with
  | nil => rfl
  | cons n p ih =>
      rw [downTo, mkdirEach_concat, ← ih]
      rfl

end Wallpiper.Fsutil.MakeDirectories
