import Mathlib.Data.List.AList
import Wallpiper.Foundations.CText

/-!
# Files, directories and system calls

A file system maps paths to what is there; every directory that a path goes
through exists.  The answer to a system call is one of the replies that the call
may get, with the file system after it.
-/

namespace Wallpiper.Fsutil

open Foundations.CText

abbrev Name := Bytes

/-- The last component of a path comes first. -/
abbrev Path := List Name

/-- The length of the path as a string, each component behind a slash. -/
def pathLength (p : Path) : ℕ := (p.map fun n ↦ n.length + 1).sum

def dot : Name := bytesOf "."

def dotDot : Name := bytesOf ".."

/-- What a directory entry may be called. -/
def ValidName (n : Name) : Prop := n ≠ [] ∧ n ≠ dot ∧ n ≠ dotDot ∧ 47 ∉ n ∧ 0 ∉ n

instance (n : Name) : Decidable (ValidName n) := inferInstanceAs (Decidable (_ ∧ _))

/-- Whatever is neither a directory nor a regular file is special. -/
inductive Node where
  | dir
  | file (content : Bytes) (mode : UInt32)
  | special
  deriving DecidableEq, Repr

structure FileSystem where
  nodes : AList fun _ : Path ↦ Node
  root : nodes.lookup [] = some .dir
  parent : ∀ n p, (nodes.lookup (n :: p)).isSome → nodes.lookup p = some .dir
  name : ∀ n p, (nodes.lookup (n :: p)).isSome → ValidName n

namespace FileSystem

def node (fs : FileSystem) (p : Path) : Option Node := fs.nodes.lookup p

def empty : FileSystem :=
  { nodes := AList.singleton [] .dir
    root := rfl
    parent := by
      intro n p h
      exact absurd (AList.lookup_isSome.mp h) (by simp [AList.mem_keys, AList.keys])
    name := by
      intro n p h
      exact absurd (AList.lookup_isSome.mp h) (by simp [AList.mem_keys, AList.keys]) }

/-- Anything but a directory can be put in its place, as long as the parent is a
directory. -/
def put (fs : FileSystem) : Path → Node → Option FileSystem
  | [], _ => none
  | n :: p, new =>
      if h : ValidName n ∧ fs.node p = some .dir ∧ fs.node (n :: p) ≠ some .dir then
        some {
          nodes := fs.nodes.insert (n :: p) new
          root := by
            rw [AList.lookup_insert_ne (by simp)]
            exact fs.root
          parent := by
            intro m q hm
            have hparent : fs.nodes.lookup q = some .dir := by
              by_cases hq : m :: q = n :: p
              · obtain ⟨_, rfl⟩ := List.cons.inj hq
                exact h.2.1
              · rw [AList.lookup_insert_ne hq] at hm
                exact fs.parent m q hm
            have hne : q ≠ n :: p := by
              rintro rfl
              exact h.2.2 hparent
            rwa [AList.lookup_insert_ne hne]
          name := by
            intro m q hm
            by_cases hq : m :: q = n :: p
            · obtain ⟨rfl, _⟩ := List.cons.inj hq
              exact h.1
            · rw [AList.lookup_insert_ne hq] at hm
              exact fs.name m q hm }
      else none

/-- Puts one node after the other; what cannot be put is left out. -/
def putAll (fs : FileSystem) (nodes : List (Path × Node)) : FileSystem :=
  nodes.foldl (fun fs (p, node) ↦ (fs.put p node).getD fs) fs

/-- The names of the entries of a directory. -/
def children (fs : FileSystem) (p : Path) : List Name :=
  fs.nodes.keys.filterMap fun q ↦
    match q with
    | [] => none
    | n :: q => if q = p then some n else none

/-! ## Lookups -/

theorem node_root (fs : FileSystem) : fs.node [] = some .dir := fs.root

theorem node_parent {fs : FileSystem} {n : Name} {p : Path} (h : (fs.node (n :: p)).isSome) :
    fs.node p = some .dir := fs.parent n p h

theorem valid_of_node {fs : FileSystem} {n : Name} {p : Path} (h : (fs.node (n :: p)).isSome) :
    ValidName n := fs.name n p h

/-- Everything above an existing path is a directory. -/
theorem node_of_append {fs : FileSystem} {p : Path} (rel : Path)
    (h : (fs.node (rel ++ p)).isSome) : (fs.node p).isSome := by
  induction rel with
  | nil => exact h
  | cons n rel ih =>
      have hdir : fs.node (rel ++ p) = some .dir := node_parent h
      exact ih (by rw [hdir]; rfl)

theorem mem_children {fs : FileSystem} {p : Path} {n : Name} :
    n ∈ fs.children p ↔ (fs.node (n :: p)).isSome := by
  rw [children, List.mem_filterMap, node, AList.lookup_isSome, AList.mem_keys]
  constructor
  · rintro ⟨q, hq, hn⟩
    cases q with
    | nil => exact absurd hn (by simp)
    | cons m q =>
        by_cases hp : q = p
        · simp only [hp, if_true, Option.some.injEq] at hn
          rwa [← hn, ← hp]
        · simp [hp] at hn
  · intro h
    exact ⟨n :: p, h, by simp⟩

theorem put_eq_some {fs fs' : FileSystem} {p : Path} {new : Node} (h : fs.put p new = some fs') :
    ∀ q, fs'.node q = if q = p then some new else fs.node q := by
  intro q
  cases p with
  | nil => exact absurd h (by simp [put])
  | cons n p =>
      rw [put] at h
      split at h
      · obtain rfl := Option.some.inj h
        by_cases hq : q = n :: p
        · subst hq
          rw [if_pos rfl]
          exact AList.lookup_insert fs.nodes
        · rw [if_neg hq]
          exact AList.lookup_insert_ne hq
      · exact absurd h (by simp)

theorem put_isSome {fs : FileSystem} {n : Name} {p : Path} (new : Node) (hname : ValidName n)
    (hparent : fs.node p = some .dir) (hnot : fs.node (n :: p) ≠ some .dir) :
    ∃ fs', fs.put (n :: p) new = some fs' := by
  rw [put, dif_pos ⟨hname, hparent, hnot⟩]
  exact ⟨_, rfl⟩

/-- What exists and is no directory can be replaced. -/
theorem put_existing {fs : FileSystem} {p : Path} {old : Node} (new : Node)
    (h : fs.node p = some old) (hnot : old ≠ .dir) : ∃ fs', fs.put p new = some fs' := by
  cases p with
  | nil =>
      rw [node_root] at h
      exact absurd (Option.some.inj h).symm hnot
  | cons n p =>
      have hsome : (fs.node (n :: p)).isSome := by
        rw [h]
        rfl
      apply put_isSome new (valid_of_node hsome) (node_parent hsome)
      rw [h]
      simpa using hnot

end FileSystem

/-! ## System calls -/

inductive FileKind where
  | dir
  | reg (mode : UInt32)
  | other
  deriving DecidableEq, Repr

def Node.kind : Node → FileKind
  | .dir => .dir
  | .file _ mode => .reg mode
  | .special => .other

/-- A file that is read or written is given by its path; a file is written at its
end. -/
inductive SysCall where
  | opendir (p : Path)
  | readdir (p : Path)
  | mkdir (p : Path)
  | lstat (p : Path)
  | stat (p : Path)
  | openRead (p : Path)
  | openWrite (p : Path) (mode : UInt32)
  | read (p : Path) (off : ℕ)
  | write (p : Path) (data : Bytes)
  | chmod (p : Path) (mode : UInt32)
  deriving DecidableEq, Repr

inductive MkdirReply where
  | made
  | eexist
  | failed
  deriving DecidableEq, Repr

/-- `none` and `false` are failures. -/
def SysReply : SysCall → Type
  | .opendir _ => Bool
  | .readdir _ => List Name
  | .mkdir _ => MkdirReply
  | .lstat _ => Option FileKind
  | .stat _ => Bool
  | .openRead _ => Bool
  | .openWrite .. => Bool
  | .read .. => Option Bytes
  | .write .. => Option ℕ
  | .chmod .. => Unit

namespace FileSystem

def isFile (fs : FileSystem) (p : Path) : Bool :=
  match fs.node p with
  | some (.file ..) => true
  | _ => false

/-- `open` with `O_CREAT | O_TRUNC`. -/
def truncate (umask : UInt32) (fs : FileSystem) (p : Path) (mode : UInt32) : Option FileSystem :=
  match fs.node p with
  | none => fs.put p (.file [] (mode &&& ~~~umask))
  | some (.file _ mode) => fs.put p (.file [] mode)
  | _ => none

/-- The file system after a reply, if the call may get this reply while no
device fails. -/
def answer (umask : UInt32) (fs : FileSystem) : (c : SysCall) → SysReply c → Option FileSystem
  | .opendir p, (opened : Bool) =>
      if opened = decide (p ≠ [] ∧ fs.node p = some .dir) then some fs else none
  | .readdir p, (names : List Name) =>
      if names.Perm (dot :: dotDot :: fs.children p) then some fs else none
  | .mkdir p, (reply : MkdirReply) =>
      match reply with
      | .made => if fs.node p = none then fs.put p .dir else none
      | .eexist => if (fs.node p).isSome then some fs else none
      | .failed => if fs.node p = none ∧ (fs.put p .dir).isNone then some fs else none
  | .lstat p, (kind : Option FileKind) =>
      if kind = (fs.node p).map Node.kind then some fs else none
  | .stat p, (found : Bool) => if found = (fs.node p).isSome then some fs else none
  | .openRead p, (opened : Bool) => if opened = fs.isFile p then some fs else none
  | .openWrite p mode, (opened : Bool) =>
      match opened with
      | true => fs.truncate umask p mode
      | false => if (fs.truncate umask p mode).isNone then some fs else none
  | .read p off, (reply : Option Bytes) =>
      match fs.node p, reply with
      | some (.file content _), some bytes =>
          if bytes.length ≤ 65536 ∧ bytes <+: content.drop off ∧
              (bytes = [] → content.drop off = []) then some fs
          else none
      | some (.file ..), none => none
      | _, some _ => none
      | _, none => some fs
  | .write p data, (reply : Option ℕ) =>
      match fs.node p, reply with
      | some (.file content mode), some k =>
          if 0 < k ∧ k ≤ data.length then fs.put p (.file (content ++ data.take k) mode) else none
      | some (.file ..), none => if data = [] then some fs else none
      | _, some _ => none
      | _, none => some fs
  | .chmod p mode, _ =>
      match fs.node p with
      | some (.file content _) => fs.put p (.file content mode)
      | _ => some fs

end FileSystem

/-- The replies of a device that fails: directories and files cannot be opened,
made, examined, read or written. -/
def failing : (c : SysCall) → SysReply c → Bool
  | .opendir _, (opened : Bool) => !opened
  | .mkdir _, (reply : MkdirReply) => reply == .failed
  | .lstat _, (kind : Option FileKind) => kind.isNone
  | .openRead _, (opened : Bool) => !opened
  | .openWrite .., (opened : Bool) => !opened
  | .read .., (reply : Option Bytes) => reply.isNone
  | .write .., (reply : Option ℕ) => reply.getD 0 == 0
  | _, _ => false

/-- The file system after a reply when any device may fail. -/
def faultyAnswer (umask : UInt32) (fs : FileSystem) (c : SysCall) (r : SysReply c) :
    Option FileSystem :=
  if failing c r = true then some fs else fs.answer umask c r

end Wallpiper.Fsutil
