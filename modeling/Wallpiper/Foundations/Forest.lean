import Mathlib.Data.List.Basic
import Mathlib.Tactic.Ring

/-!
# Ordered forests, preorder and depth

A forest is a list of labelled trees in the first-child, next-sibling form,
so recursion over it is structural.  Reading a forest in preorder gives a
list of labels, the depth of each label and the preorder position of its
parent.  The depths alone determine the parents: a node hangs below the
nearest earlier node that is one level up.
-/

namespace Foundations

/-- `j` is the last position before `k` that satisfies `P`. -/
def NearestBefore (P : ℕ → Prop) (k j : ℕ) : Prop :=
  j < k ∧ P j ∧ ∀ i, j < i → i < k → ¬ P i

/-- An ordered forest: the first tree's label and children, and the trees
after it. -/
inductive Forest (α : Type*) where
  | nil
  | cons (label : α) (children siblings : Forest α)
  deriving DecidableEq, Repr

namespace Forest

variable {α β : Type*}

def size : Forest α → ℕ
  | nil => 0
  | cons _ cs ss => 1 + cs.size + ss.size

/-- Labels in preorder. -/
def preorder : Forest α → List α
  | nil => []
  | cons a cs ss => a :: (cs.preorder ++ ss.preorder)

/-- Depths in preorder, the top level having depth `d`. -/
def depthsFrom (d : ℕ) : Forest α → List ℕ
  | nil => []
  | cons _ cs ss => d :: (cs.depthsFrom (d + 1) ++ ss.depthsFrom d)

def depths (f : Forest α) : List ℕ := f.depthsFrom 0

/-- The preorder position of each node's parent, when the forest starts at
position `pos` below `parent`. -/
def parentsFrom (pos : ℕ) (parent : Option ℕ) : Forest α → List (Option ℕ)
  | nil => []
  | cons _ cs ss =>
      parent :: (cs.parentsFrom (pos + 1) (some pos) ++
        ss.parentsFrom (pos + 1 + cs.size) parent)

def parents (f : Forest α) : List (Option ℕ) := f.parentsFrom 0 none

/-- Labels paired with their depths, in preorder. -/
def preorderDepthsFrom (d : ℕ) : Forest α → List (ℕ × α)
  | nil => []
  | cons a cs ss => (d, a) :: (cs.preorderDepthsFrom (d + 1) ++ ss.preorderDepthsFrom d)

@[simp] theorem preorder_length (f : Forest α) : f.preorder.length = f.size := by
  induction f with
  | nil => rfl
  | cons a cs ss hcs hss => simp [preorder, size, hcs, hss]; ring

@[simp] theorem depthsFrom_length (f : Forest α) (d : ℕ) :
    (f.depthsFrom d).length = f.size := by
  induction f generalizing d with
  | nil => rfl
  | cons a cs ss hcs hss => simp [depthsFrom, size, hcs, hss]; ring

@[simp] theorem parentsFrom_length (f : Forest α) (pos : ℕ) (parent : Option ℕ) :
    (f.parentsFrom pos parent).length = f.size := by
  induction f generalizing pos parent with
  | nil => rfl
  | cons a cs ss hcs hss => simp [parentsFrom, size, hcs, hss]; ring

theorem preorderDepthsFrom_eq_zip (f : Forest α) (d : ℕ) :
    f.preorderDepthsFrom d = (f.depthsFrom d).zip f.preorder := by
  induction f generalizing d with
  | nil => rfl
  | cons a cs ss hcs hss =>
      rw [preorderDepthsFrom, depthsFrom, preorder, List.zip_cons_cons,
        List.zip_append (by simp), hcs, hss]

theorem le_of_mem_depthsFrom {f : Forest α} {d e : ℕ} (he : e ∈ f.depthsFrom d) :
    d ≤ e := by
  induction f generalizing d with
  | nil => simp [depthsFrom] at he
  | cons a cs ss hcs hss =>
      rcases List.mem_cons.mp he with rfl | he
      · exact le_refl _
      · rcases List.mem_append.mp he with he | he
        · exact (Nat.le_succ d).trans (hcs he)
        · exact hss he

/-- What the recorded parent of position `k` is: either the node is at the
top level, or its parent is the nearest earlier node one level up. -/
def ParentAt (d pos : ℕ) (parent : Option ℕ) (ds : List ℕ) (ps : List (Option ℕ))
    (k : ℕ) : Prop :=
  (ds[k]? = some d ∧ ps[k]? = some parent) ∨
    ∃ e j, ds[k]? = some (e + 1) ∧ d ≤ e ∧ ps[k]? = some (some (pos + j)) ∧
      NearestBefore (fun i ↦ ds[i]? = some e) k j

theorem parentAt_zero (d pos : ℕ) (parent : Option ℕ) (ds : List ℕ)
    (ps : List (Option ℕ)) : ParentAt d pos parent (d :: ds) (parent :: ps) 0 :=
  Or.inl ⟨rfl, rfl⟩

/-- A fact about the children holds for them below their parent. -/
theorem ParentAt.child {d pos : ℕ} {parent : Option ℕ} {ds es : List ℕ}
    {ps qs : List (Option ℕ)} {k : ℕ} (hlen : ds.length = ps.length)
    (hmin : ∀ e ∈ ds, d + 1 ≤ e) (hk : k < ds.length)
    (h : ParentAt (d + 1) (pos + 1) (some pos) ds ps k) :
    ParentAt d pos parent (d :: (ds ++ es)) (parent :: (ps ++ qs)) (k + 1) := by
  have hds : (d :: (ds ++ es))[k + 1]? = ds[k]? := by
    rw [List.getElem?_cons_succ, List.getElem?_append_left hk]
  have hps : (parent :: (ps ++ qs))[k + 1]? = ps[k]? := by
    rw [List.getElem?_cons_succ, List.getElem?_append_left (hlen ▸ hk)]
  right
  rcases h with ⟨htop, hpar⟩ | ⟨e, j, hdepth, hle, hpar, hj, hPj, hbetween⟩
  · refine ⟨d, 0, hds.trans htop, le_refl d, hps.trans hpar, Nat.succ_pos k, rfl, ?_⟩
    intro i hi hik heq
    obtain ⟨i, rfl⟩ := Nat.exists_eq_add_one_of_ne_zero (Nat.pos_iff_ne_zero.mp hi)
    rw [List.getElem?_cons_succ, List.getElem?_append_left (by omega)] at heq
    have := hmin d (List.mem_of_getElem? heq)
    omega
  · refine ⟨e, j + 1, hds.trans hdepth, by omega, ?_, by omega, ?_, ?_⟩
    · rw [hps, hpar]
      simp only [Option.some.injEq]
      omega
    · simpa only [List.getElem?_cons_succ, List.getElem?_append_left (hj.trans hk)] using hPj
    · intro i hi hik heq
      obtain ⟨i, rfl⟩ := Nat.exists_eq_add_one_of_ne_zero (by omega : i ≠ 0)
      rw [List.getElem?_cons_succ, List.getElem?_append_left (by omega)] at heq
      exact hbetween i (by omega) (by omega) heq

/-- A fact about later trees holds for them after a block of earlier nodes. -/
theorem ParentAt.sibling {d pos : ℕ} {parent : Option ℕ} (ds : List ℕ) {es : List ℕ}
    {ps qs : List (Option ℕ)} {next k : ℕ} (hnext : next = pos + ds.length)
    (hlen : ds.length = ps.length) (h : ParentAt d next parent es qs k) :
    ParentAt d pos parent (ds ++ es) (ps ++ qs) (ds.length + k) := by
  have hds : ∀ i, (ds ++ es)[ds.length + i]? = es[i]? := fun i ↦ by
    rw [List.getElem?_append_right (Nat.le_add_right _ _), Nat.add_sub_cancel_left]
  have hps : (ps ++ qs)[ds.length + k]? = qs[k]? := by
    rw [hlen, List.getElem?_append_right (Nat.le_add_right _ _), Nat.add_sub_cancel_left]
  rcases h with ⟨htop, hpar⟩ | ⟨e, j, hdepth, hle, hpar, hj, hPj, hbetween⟩
  · exact Or.inl ⟨(hds k).trans htop, hps.trans hpar⟩
  · refine Or.inr ⟨e, ds.length + j, (hds k).trans hdepth, hle, ?_, by omega, ?_, ?_⟩
    · rw [hps, hpar, hnext, Nat.add_assoc]
    · exact (hds j).trans hPj
    · intro i hi hik heq
      obtain ⟨m, rfl⟩ := Nat.exists_eq_add_of_le (show ds.length ≤ i by omega)
      rw [hds] at heq
      exact hbetween m (by omega) (by omega) heq

/-- Every recorded parent is the nearest earlier node one level up. -/
theorem parentAt_from (f : Forest α) (d pos : ℕ) (parent : Option ℕ) {k : ℕ}
    (hk : k < f.size) :
    ParentAt d pos parent (f.depthsFrom d) (f.parentsFrom pos parent) k := by
  induction f generalizing d pos parent k with
  | nil => simp [size] at hk
  | cons a cs ss hcs hss =>
      rcases Nat.eq_zero_or_pos k with rfl | hpos
      · exact parentAt_zero _ _ _ _ _
      · obtain ⟨k, rfl⟩ := Nat.exists_eq_add_one_of_ne_zero (Nat.pos_iff_ne_zero.mp hpos)
        by_cases hchild : k < cs.size
        · exact ParentAt.child (by simp) (fun e he ↦ le_of_mem_depthsFrom he)
            (by simpa using hchild) (hcs (d + 1) (pos + 1) (some pos) hchild)
        · obtain ⟨m, rfl⟩ := Nat.exists_eq_add_of_le (Nat.le_of_not_lt hchild)
          have hm : m < ss.size := by
            rw [size] at hk
            omega
          have hblock : (d :: cs.depthsFrom (d + 1)).length =
              (parent :: cs.parentsFrom (pos + 1) (some pos)).length := by simp
          have hlen : (d :: cs.depthsFrom (d + 1)).length = cs.size + 1 := by simp
          have hnext : pos + 1 + cs.size = pos + (d :: cs.depthsFrom (d + 1)).length := by
            rw [hlen]
            ring
          have h := ParentAt.sibling (d :: cs.depthsFrom (d + 1)) hnext hblock
            (hss d (pos + 1 + cs.size) parent hm)
          rw [hlen, show cs.size + 1 + m = cs.size + m + 1 by ring] at h
          simpa only [depthsFrom, parentsFrom, List.cons_append] using h

theorem parentAt (f : Forest α) {k : ℕ} (hk : k < f.size) :
    ParentAt 0 0 none f.depths f.parents k := f.parentAt_from 0 0 none hk

theorem parents_of_depth_zero (f : Forest α) {k : ℕ} (hk : f.depths[k]? = some 0) :
    f.parents[k]? = some none := by
  have hlt : k < f.size := by
    simpa [depths] using (List.getElem?_eq_some_iff.mp hk).1
  rcases f.parentAt hlt with ⟨_, hpar⟩ | ⟨e, j, hdepth, _⟩
  · exact hpar
  · rw [hk] at hdepth
    simp at hdepth

theorem parents_of_depth_succ (f : Forest α) {k e : ℕ} (hk : f.depths[k]? = some (e + 1)) :
    ∃ j, f.parents[k]? = some (some j) ∧
      NearestBefore (fun i ↦ f.depths[i]? = some e) k j := by
  have hlt : k < f.size := by
    simpa [depths] using (List.getElem?_eq_some_iff.mp hk).1
  rcases f.parentAt hlt with ⟨htop, _⟩ | ⟨e', j, hdepth, _, hpar, hnear⟩
  · rw [hk] at htop
    simp at htop
  · rw [hk] at hdepth
    have heq : e' = e := by simpa using hdepth.symm
    subst heq
    exact ⟨j, by simpa using hpar, hnear⟩

/-! ## Subtrees and upper levels -/

/-- Every label with the forest below it, in preorder. -/
def trees : Forest α → List (α × Forest α)
  | nil => []
  | cons a cs ss => (a, cs) :: (cs.trees ++ ss.trees)

/-- The first levels of a forest. -/
def cut : ℕ → Forest α → Forest α
  | _, nil => nil
  | 0, cons _ _ _ => nil
  | n + 1, cons a cs ss => cons a (cs.cut n) (ss.cut (n + 1))

/-- As many levels as asked for, or all of them for a negative number. -/
def levels (d : ℤ) (f : Forest α) : Forest α := if d < 0 then f else f.cut d.toNat

@[simp] theorem cut_zero (f : Forest α) : f.cut 0 = nil := by
  cases f <;> rfl

@[simp] theorem levels_nil (d : ℤ) : (nil : Forest α).levels d = nil := by
  unfold levels
  split
  · rfl
  · exact cut.eq_1 _

theorem levels_of_neg {d : ℤ} (h : d < 0) (f : Forest α) : f.levels d = f := if_pos h

theorem levels_zero (f : Forest α) : f.levels 0 = nil := cut_zero f

/-- Below a tree of one level more there is one level less. -/
theorem levels_succ_cons {d : ℤ} (h : 0 ≤ d) (a : α) (cs ss : Forest α) :
    (cons a cs ss).levels (d + 1) = cons a (cs.levels d) (ss.levels (d + 1)) := by
  have hsucc : (d + 1).toNat = d.toNat + 1 := by omega
  rw [levels, levels, levels, if_neg (by omega), if_neg (by omega), if_neg (by omega), hsucc, cut]

end Forest

end Foundations
