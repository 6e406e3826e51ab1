import Wallpiper.Foundations.CText

/-!
# Tray menu entries

The flat list of menu entries that the daemon receives from the loader's
menu dump, with the constants of `tray_internal.h`.
-/

namespace Wallpiper.Tray

open Foundations.CText

def wpTrayMaxEntries : ℕ := 512

def wpTrayMftSeparator : UInt32 := 0x800

def wpTrayMfsDisabled : UInt32 := 0x3

def wpTrayMfsChecked : UInt32 := 0x8

/-- One entry of a dump.  `dbusId` is assigned when the dump is published. -/
structure TrayEntry where
  depth : ℤ
  id : UInt32
  state : UInt32
  typeFlags : UInt32
  text : Bytes
  dbusId : ℤ
  deriving DecidableEq, Repr

def TrayEntry.isSeparator (e : TrayEntry) : Bool := e.typeFlags &&& wpTrayMftSeparator != 0

/-- The first entry that carries a D-Bus id. -/
def findIndexById (entries : List TrayEntry) (id : ℤ) : Option ℕ :=
  entries.findIdx? fun e ↦ e.dbusId == id

/-- Each depth is at least zero and at most one more than the depth before
it, `prev` being the depth before the first. -/
def PreorderFrom (prev : ℤ) : List ℤ → Prop
  | [] => True
  | d :: ds => 0 ≤ d ∧ d ≤ prev + 1 ∧ PreorderFrom d ds

instance decidablePreorderFrom : ∀ (prev : ℤ) (ds : List ℤ), Decidable (PreorderFrom prev ds)
  | _, [] => inferInstanceAs (Decidable True)
  | prev, d :: ds =>
      have := decidablePreorderFrom d ds
      inferInstanceAs (Decidable (0 ≤ d ∧ d ≤ prev + 1 ∧ PreorderFrom d ds))

/-- A dump that a preorder walk of a menu can produce: the first depth is
zero and no depth skips a level. -/
def PreorderDump (entries : List TrayEntry) : Prop :=
  PreorderFrom (-1) (entries.map TrayEntry.depth)

instance (entries : List TrayEntry) : Decidable (PreorderDump entries) :=
  decidablePreorderFrom _ _

theorem PreorderFrom.nonneg {prev : ℤ} {ds : List ℤ} (h : PreorderFrom prev ds)
    {k : ℕ} {d : ℤ} (hd : ds[k]? = some d) : 0 ≤ d := by
  induction ds generalizing prev k with
  | nil => simp at hd
  | cons e ds ih =>
      cases k with
      | zero =>
          have heq : e = d := by simpa using hd
          exact heq ▸ h.1
      | succ k => exact ih h.2.2 (by simpa using hd)

theorem PreorderFrom.head_le {prev : ℤ} {ds : List ℤ} (h : PreorderFrom prev ds)
    {d : ℤ} (hd : ds[0]? = some d) : d ≤ prev + 1 := by
  cases ds with
  | nil => simp at hd
  | cons e ds =>
      have heq : e = d := by simpa using hd
      exact heq ▸ h.2.1

theorem PreorderFrom.step_le {prev : ℤ} {ds : List ℤ} (h : PreorderFrom prev ds)
    {k : ℕ} {d e : ℤ} (hd : ds[k]? = some d) (he : ds[k + 1]? = some e) : e ≤ d + 1 := by
  induction ds generalizing prev k with
  | nil => simp at hd
  | cons c ds ih =>
      cases k with
      | zero =>
          have heq : c = d := by simpa using hd
          exact heq ▸ h.2.2.head_le (by simpa using he)
      | succ k => exact ih h.2.2 (by simpa using hd) (by simpa using he)

end Wallpiper.Tray
