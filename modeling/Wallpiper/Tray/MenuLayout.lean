import Wallpiper.Foundations.Forest
import Wallpiper.Tray.Entry

/-!
# The D-Bus menu tree

`GetLayout` rebuilds a tree from the flat entry list by index arithmetic:
each node walks the entries of its child depth, recurses into each of them
and then skips the run of entries directly below it.  The skipped run stops
at the first grandchild, so the tree is the real menu exactly when no entry
comes after a grandchild of one of its earlier siblings.
-/

namespace Wallpiper.Tray

open Foundations Foundations.CText

/-! ## Node properties -/

structure MenuNodeProps where
  id : ℤ
  label : Bytes
  hasLabel : Bool
  enabledPresent : Bool
  enabledValue : Bool
  isSeparator : Bool
  togglePresent : Bool
  toggleType : String
  toggleState : ℤ
  childrenDisplayPresent : Bool
  hasChildren : Bool
  deriving DecidableEq, Repr

def MenuNodeProps.zero : MenuNodeProps :=
  { id := 0, label := [], hasLabel := false, enabledPresent := false, enabledValue := false,
    isSeparator := false, togglePresent := false, toggleType := "", toggleState := 0,
    childrenDisplayPresent := false, hasChildren := false }

/-- `none` is the null entry pointer of the root. -/
def computeNodeProperties (entry : Option TrayEntry) (hasChildren : Bool) : MenuNodeProps :=
  match entry with
  | none => .zero
  | some e =>
      let out := { MenuNodeProps.zero with
        id := (Int32.ofUInt32 e.id).toInt, hasChildren := hasChildren }
      if e.isSeparator then { out with isSeparator := true }
      else
        let enabled := e.state &&& wpTrayMfsDisabled == 0
        let toggled := !hasChildren && e.state &&& wpTrayMfsChecked != 0
        { out with
          label := e.text
          hasLabel := !e.text.isEmpty
          enabledPresent := !enabled
          togglePresent := toggled
          toggleType := if toggled then "checkmark" else ""
          toggleState := if toggled then 1 else 0
          childrenDisplayPresent := hasChildren }

inductive MenuVariant where
  | string (s : Bytes)
  | bool (b : Bool)
  | int32 (z : ℤ)
  deriving DecidableEq, Repr

/-- The `a{sv}` dictionary appended for a node. -/
def appendNodeProperties (props : MenuNodeProps) : List (String × MenuVariant) :=
  if props.isSeparator then [("type", .string (bytesOf "separator"))]
  else
    (if props.hasLabel then [("label", .string props.label)] else []) ++
    (if props.enabledPresent then [("enabled", .bool props.enabledValue)] else []) ++
    (if props.togglePresent then
      [("toggle-type", .string (bytesOf props.toggleType)),
        ("toggle-state", .int32 props.toggleState)] else []) ++
    (if props.childrenDisplayPresent then
      [("children-display", .string (bytesOf "submenu"))] else [])

/-! ## Building the tree -/

/-- A node of the reply.  `entry` is the entry pointer it was built from, as
a position in the list; the message carries only the id and properties. -/
structure LayoutNode where
  entry : Option ℕ
  id : ℤ
  properties : List (String × MenuVariant)
  deriving DecidableEq, Repr

def childrenRunLength (entries : List TrayEntry) (i : ℕ) (childDepth : ℤ) : ℕ :=
  if h : i < entries.length then
    if entries[i].depth ≠ childDepth then 0
    else 1 + childrenRunLength entries (i + 1) childDepth
  else 0
termination_by entries.length - i

def hasChildrenAt (entries : List TrayEntry) (startIndex : ℕ) (childDepth : ℤ) : Bool :=
  entries[startIndex]?.any fun e ↦ e.depth == childDepth

mutual

def buildMenuNode (entries : List TrayEntry) (entry : Option ℕ) (id : ℤ) (startIndex : ℕ)
    (childDepth recursionRemaining : ℤ) : LayoutNode × Forest LayoutNode :=
  let hasChildren := hasChildrenAt entries startIndex childDepth
  let props := computeNodeProperties (entry.bind fun i ↦ entries[i]?) hasChildren
  let node : LayoutNode := ⟨entry, id, appendNodeProperties props⟩
  if hasChildren = true ∧ recursionRemaining ≠ 0 then
    let nextRemaining :=
      if recursionRemaining > 0 then recursionRemaining - 1 else recursionRemaining
    (node, buildMenuChildren entries childDepth nextRemaining startIndex)
  else (node, .nil)
termination_by 2 * (entries.length - startIndex) + 1

/-- The `while` loop over the children of one node. -/
def buildMenuChildren (entries : List TrayEntry) (childDepth nextRemaining : ℤ) (i : ℕ) :
    Forest LayoutNode :=
  if h : i < entries.length then
    if entries[i].depth = childDepth then
      let child := buildMenuNode entries (some i) entries[i].dbusId (i + 1) (childDepth + 1)
        nextRemaining
      let run := childrenRunLength entries (i + 1) (childDepth + 1)
      .cons child.1 child.2 (buildMenuChildren entries childDepth nextRemaining (i + 1 + run))
    else .nil
  else .nil
termination_by 2 * (entries.length - i)

end

/-- The reply to `GetLayout` over the entries copied under the lock. -/
def handleMenuGetLayout (entries : List TrayEntry) (revision : UInt32)
    (parentId recursionDepth : ℤ) :
    Except (String × String) (UInt32 × LayoutNode × Forest LayoutNode) :=
  if parentId = 0 then
    .ok (revision, buildMenuNode entries none parentId 0 0 recursionDepth)
  else
    match findIndexById entries parentId with
    | none => .error ("org.freedesktop.DBus.Error.Failed", "parentId not found")
    | some idx =>
        let childDepth := (entries[idx]?.map TrayEntry.depth).getD 0 + 1
        .ok (revision, buildMenuNode entries (some idx) parentId (idx + 1) childDepth
          recursionDepth)

end Wallpiper.Tray
