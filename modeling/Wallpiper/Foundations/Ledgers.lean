import Mathlib.Data.List.Basic

/-!
# Resources that are created, used and destroyed

A service hands out resources under names that its client chooses.  It counts
a fault for every request that creates a name in use, or uses or destroys one
that is not.  A piece of client code is described by the resources that it owns
before and after it, next to a frame of resources that it does not touch.
-/

namespace Foundations

variable {κ : Type*}

structure Ledger (κ : Type*) where
  live : List κ
  faults : ℕ
  deriving DecidableEq, Repr

inductive LedgerOp (κ : Type*) where
  | create (k : κ)
  | use (k : κ)
  | destroy (k : κ)
  deriving DecidableEq, Repr

/-- Nothing was faulted and exactly the owned resources are live. -/
structure Ledger.Accounts (s : Ledger κ) (owned : List κ) : Prop where
  faults : s.faults = 0
  live : s.live.Perm owned

theorem Ledger.Accounts.perm {s : Ledger κ} {owned owned' : List κ} (h : s.Accounts owned)
    (hperm : owned.Perm owned') : s.Accounts owned' := ⟨h.faults, h.live.trans hperm⟩

variable [DecidableEq κ]

def Ledger.apply (s : Ledger κ) : LedgerOp κ → Ledger κ
  | .create k =>
      if k ∈ s.live then { s with faults := s.faults + 1 } else { s with live := k :: s.live }
  | .use k => if k ∈ s.live then s else { s with faults := s.faults + 1 }
  | .destroy k =>
      if k ∈ s.live then { s with live := s.live.erase k } else { s with faults := s.faults + 1 }

def Ledger.run (s : Ledger κ) (ops : List (LedgerOp κ)) : Ledger κ := ops.foldl Ledger.apply s

/-- Code that owns `owned` before and `owned'` after it, whatever else is
live, as long as the names that it creates are not. -/
def Moves (ops : List (LedgerOp κ)) (owned owned' : List κ) : Prop :=
  ∀ (s : Ledger κ) (frame : List κ), (∀ k, .create k ∈ ops → k ∉ frame) →
    s.Accounts (frame ++ owned) → (s.run ops).Accounts (frame ++ owned')

namespace Moves

variable {ops ops' : List (LedgerOp κ)} {owned owned' owned'' : List κ} {k : κ}

theorem nil (owned : List κ) : Moves [] owned owned := fun _ _ _ h ↦ h

theorem append (h : Moves ops owned owned') (h' : Moves ops' owned' owned'') :
    Moves (ops ++ ops') owned owned'' := by
  intro s frame hfresh haccounts
  have hmid := h s frame (fun k hk ↦ hfresh k (List.mem_append_left _ hk)) haccounts
  have hend := h' _ frame (fun k hk ↦ hfresh k (List.mem_append_right _ hk)) hmid
  rwa [Ledger.run, List.foldl_append]

theorem perm (h : Moves ops owned owned') {before after : List κ} (hbefore : before.Perm owned)
    (hafter : owned'.Perm after) : Moves ops before after := by
  intro s frame hfresh haccounts
  exact (h s frame hfresh (haccounts.perm (hbefore.append_left frame))).perm
    (hafter.append_left frame)

theorem create (hk : k ∉ owned) : Moves [.create k] owned (k :: owned) := by
  intro s frame hfresh h
  have hnew : k ∉ s.live := by
    rw [h.live.mem_iff, List.mem_append, not_or]
    exact ⟨hfresh k List.mem_cons_self, hk⟩
  have hrun : s.run [.create k] = { s with live := k :: s.live } := if_neg hnew
  rw [hrun]
  exact ⟨h.faults, (h.live.cons k).trans List.perm_middle.symm⟩

theorem use (hk : k ∈ owned) : Moves [.use k] owned owned := by
  intro s frame _ h
  have hlive : k ∈ s.live := h.live.mem_iff.mpr (List.mem_append_right frame hk)
  have hrun : s.run [.use k] = s := if_pos hlive
  rwa [hrun]

theorem destroy (k : κ) (owned : List κ) : Moves [.destroy k] (k :: owned) owned := by
  intro s frame _ h
  have hlive : k ∈ s.live := by
    rw [h.live.mem_iff]
    simp
  have hrun : s.run [.destroy k] = { s with live := s.live.erase k } := if_pos hlive
  rw [hrun]
  refine ⟨h.faults, ?_⟩
  have hfront : s.live.Perm (k :: (frame ++ owned)) := h.live.trans List.perm_middle
  simpa using hfront.erase k

/-- Resources that a piece of code leaves alone, and none of which it
creates, may be added on both sides. -/
theorem frame (h : Moves ops owned owned') {rest : List κ}
    (hrest : ∀ k, .create k ∈ ops → k ∉ rest) : Moves ops (rest ++ owned) (rest ++ owned') := by
  intro s frame hfresh haccounts
  rw [← List.append_assoc] at haccounts ⊢
  apply h s (frame ++ rest) _ haccounts
  intro k hk
  rw [List.mem_append, not_or]
  exact ⟨hfresh k hk, hrest k hk⟩

/-- Code that creates nothing, piece by piece. -/
theorem flatMap {ι : Type*} {f : ι → List (LedgerOp κ)} {g : ι → List κ}
    (hf : ∀ i, Moves (f i) (g i) []) (hcreate : ∀ i k, .create k ∉ f i) (is : List ι) :
    Moves (is.flatMap f) (is.flatMap g) [] := by
  induction is with
  | nil => exact nil []
  | cons i is ih =>
      rw [List.flatMap_cons, List.flatMap_cons]
      have hhead : Moves (f i) (is.flatMap g ++ g i) (is.flatMap g ++ []) :=
        (hf i).frame fun k hk ↦ absurd hk (hcreate i k)
      rw [List.append_nil] at hhead
      exact (hhead.perm List.perm_append_comm (List.Perm.refl _)).append ih

end Moves

end Foundations
