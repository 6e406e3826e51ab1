import Mathlib.Data.List.Basic

/-!
# Runs of a labelled step function

A step function reads one label in a state and either moves or refuses the
label.  Interleavings, failures and answers of the environment are all part
of the label, so a run is just a list of labels.  Invariants are proved for
one step and carried along every run; a guarded run is one in which every
step also meets a condition on the state before it.
-/

namespace Foundations

variable {σ ℓ : Type*} (step : σ → ℓ → Option σ)

/-- The state after reading a list of labels, if every label is accepted. -/
def exec (s : σ) : List ℓ → Option σ
  | [] => some s
  | l :: ls => (step s l).bind fun t ↦ exec t ls

/-- Every state visited by the accepted part of a run satisfies `P`. -/
def Always (P : σ → Prop) (s : σ) : List ℓ → Prop
  | [] => P s
  | l :: ls => P s ∧ ∀ t, step s l = some t → Always P t ls

/-- Every step of the accepted part of a run meets `G` in the state where it
is taken. -/
def Guarded (G : σ → ℓ → Prop) (s : σ) : List ℓ → Prop
  | [] => True
  | l :: ls => ∀ t, step s l = some t → G s l ∧ Guarded G t ls

instance decidableGuarded (G : σ → ℓ → Prop) [∀ s l, Decidable (G s l)] (s : σ) :
    ∀ ls, Decidable (Guarded step G s ls)
  | [] => inferInstanceAs (Decidable True)
  | l :: ls =>
      match h : step s l with
      | none => isTrue fun t ht ↦ absurd (h.symm.trans ht) (by simp)
      | some u =>
          have := decidableGuarded G u ls
          decidable_of_iff (G s l ∧ Guarded step G u ls)
            ⟨fun hG t ht ↦ Option.some.inj (h.symm.trans ht) ▸ hG, fun hG ↦ hG u h⟩

instance decidableAlways (P : σ → Prop) [DecidablePred P] (s : σ) :
    ∀ ls, Decidable (Always step P s ls)
  | [] => inferInstanceAs (Decidable (P s))
  | l :: ls =>
      match h : step s l with
      | none =>
          decidable_of_iff (P s)
            ⟨fun hP ↦ ⟨hP, fun t ht ↦ absurd (h.symm.trans ht) (by simp)⟩, fun hA ↦ hA.1⟩
      | some u =>
          have := decidableAlways P u ls
          decidable_of_iff (P s ∧ Always step P u ls)
            ⟨fun hA ↦ ⟨hA.1, fun t ht ↦ Option.some.inj (h.symm.trans ht) ▸ hA.2⟩,
              fun hA ↦ ⟨hA.1, hA.2 u h⟩⟩

@[simp] theorem exec_nil (s : σ) : exec step s [] = some s := rfl

theorem exec_cons (s : σ) (l : ℓ) (ls : List ℓ) :
    exec step s (l :: ls) = (step s l).bind fun t ↦ exec step t ls := rfl

theorem exec_append (s : σ) (ls ms : List ℓ) :
    exec step s (ls ++ ms) = (exec step s ls).bind fun t ↦ exec step t ms := by
  induction ls generalizing s with
  | nil => rfl
  | cons l ls ih =>
      rw [List.cons_append, exec_cons, exec_cons, Option.bind_assoc]
      exact congrArg _ (funext fun t ↦ ih t)

variable {step}

theorem exec_cons_eq_some {s u : σ} {l : ℓ} {ls : List ℓ} :
    exec step s (l :: ls) = some u ↔
      ∃ t, step s l = some t ∧ exec step t ls = some u := by
  rw [exec_cons, Option.bind_eq_some_iff]

theorem Guarded.tail {G : σ → ℓ → Prop} {s t : σ} {l : ℓ} {ls : List ℓ}
    (h : Guarded step G s (l :: ls)) (ht : step s l = some t) :
    Guarded step G t ls := (h t ht).2

theorem Guarded.and {G H : σ → ℓ → Prop} {s : σ} {ls : List ℓ} (hG : Guarded step G s ls)
    (hH : Guarded step H s ls) : Guarded step (fun s l ↦ G s l ∧ H s l) s ls := by
  induction ls generalizing s with
  | nil => trivial
  | cons l ls ih =>
      intro t ht
      exact ⟨⟨(hG t ht).1, (hH t ht).1⟩, ih (hG t ht).2 (hH t ht).2⟩

/-- An invariant of single steps is an invariant of runs. -/
theorem exec_invariant {I : σ → Prop}
    (hstep : ∀ s l t, I s → step s l = some t → I t)
    {s t : σ} {ls : List ℓ} (hs : I s) (h : exec step s ls = some t) : I t := by
  induction ls generalizing s with
  | nil =>
      have heq : s = t := by simpa using h
      exact heq ▸ hs
  | cons l ls ih =>
      obtain ⟨u, hu, hrest⟩ := exec_cons_eq_some.mp h
      exact ih (hstep s l u hs hu) hrest

/-- The same rule when the step lemma may use a guard that the run meets. -/
theorem exec_invariant_guarded {I : σ → Prop} {G : σ → ℓ → Prop}
    (hstep : ∀ s l t, I s → G s l → step s l = some t → I t)
    {s t : σ} {ls : List ℓ} (hs : I s) (hG : Guarded step G s ls)
    (h : exec step s ls = some t) : I t := by
  induction ls generalizing s with
  | nil =>
      have heq : s = t := by simpa using h
      exact heq ▸ hs
  | cons l ls ih =>
      obtain ⟨u, hu, hrest⟩ := exec_cons_eq_some.mp h
      exact ih (hstep s l u hs (hG u hu).1 hu) (hG.tail hu) hrest

theorem guarded_of_forall {G : σ → ℓ → Prop} {ls : List ℓ} (h : ∀ l ∈ ls, ∀ s, G s l) (s : σ) :
    Guarded step G s ls := by
  induction ls generalizing s with
  | nil => trivial
  | cons l ls ih =>
      obtain ⟨hl, hls⟩ := List.forall_mem_cons.mp h
      exact fun t _ ↦ ⟨hl s, ih hls t⟩

/-- The same rule when the step lemma may use that the label is one of the run. -/
theorem exec_invariant_mem {I : σ → Prop} {s t : σ} {ls : List ℓ}
    (hstep : ∀ s l t, I s → l ∈ ls → step s l = some t → I t) (hs : I s)
    (h : exec step s ls = some t) : I t :=
  exec_invariant_guarded hstep hs (guarded_of_forall (fun _ hl _ ↦ hl) s) h

/-- A relation preserved by every step relates the two ends of every run. -/
theorem exec_relates {R : σ → σ → Prop} (hrefl : ∀ s, R s s)
    (htrans : ∀ s t u, R s t → R t u → R s u)
    (hstep : ∀ s l t, step s l = some t → R s t)
    {s t : σ} {ls : List ℓ} (h : exec step s ls = some t) : R s t := by
  induction ls generalizing s with
  | nil =>
      have heq : s = t := by simpa using h
      exact heq ▸ hrefl s
  | cons l ls ih =>
      obtain ⟨u, hu, hrest⟩ := exec_cons_eq_some.mp h
      exact htrans s u t (hstep s l u hu) (ih hrest)

theorem Always.mono {P Q : σ → Prop} (hPQ : ∀ s, P s → Q s) {s : σ} {ls : List ℓ}
    (h : Always step P s ls) : Always step Q s ls := by
  induction ls generalizing s with
  | nil => exact hPQ s h
  | cons l ls ih => exact ⟨hPQ s h.1, fun t ht ↦ ih (h.2 t ht)⟩

theorem Always.and {P Q : σ → Prop} {s : σ} {ls : List ℓ} (hP : Always step P s ls)
    (hQ : Always step Q s ls) : Always step (fun s ↦ P s ∧ Q s) s ls := by
  induction ls generalizing s with
  | nil => exact ⟨hP, hQ⟩
  | cons l ls ih => exact ⟨⟨hP.1, hQ.1⟩, fun t ht ↦ ih (hP.2 t ht) (hQ.2 t ht)⟩

theorem Always.exec {P : σ → Prop} {s t : σ} {ls : List ℓ} (h : Always step P s ls)
    (ht : Foundations.exec step s ls = some t) : P t := by
  induction ls generalizing s with
  | nil =>
      have heq : s = t := by simpa using ht
      exact heq ▸ h
  | cons l ls ih =>
      obtain ⟨u, hu, hrest⟩ := exec_cons_eq_some.mp ht
      exact ih (h.2 u hu) hrest

/-- An invariant of the steps that meet a guard holds throughout every guarded
run. -/
theorem always_of_guarded {I : σ → Prop} {G : σ → ℓ → Prop}
    (hstep : ∀ s l t, I s → G s l → step s l = some t → I t)
    {s : σ} {ls : List ℓ} (hs : I s) (hG : Guarded step G s ls) : Always step I s ls := by
  induction ls generalizing s with
  | nil => exact hs
  | cons l ls ih =>
      refine ⟨hs, fun t ht ↦ ?_⟩
      exact ih (hstep s l t hs (hG t ht).1 ht) (hG.tail ht)

theorem guarded_true (s : σ) (ls : List ℓ) : Guarded step (fun _ _ ↦ True) s ls := by
  induction ls generalizing s with
  | nil => trivial
  | cons l ls ih => exact fun t _ ↦ ⟨trivial, ih t⟩

/-- An invariant of all steps holds throughout every run. -/
theorem always_of_step {I : σ → Prop} (hstep : ∀ s l t, I s → step s l = some t → I t)
    {s : σ} (hs : I s) (ls : List ℓ) : Always step I s ls :=
  always_of_guarded (fun s l t h _ ht ↦ hstep s l t h ht) hs (guarded_true s ls)

/-- A property whose preservation by a step is equivalent to the guard of
that step holds throughout exactly the guarded runs. -/
theorem always_iff_guarded {I : σ → Prop} {G : σ → ℓ → Prop}
    (hstep : ∀ s l t, I s → step s l = some t → (I t ↔ G s l))
    {s : σ} {ls : List ℓ} (hs : I s) :
    Always step I s ls ↔ Guarded step G s ls := by
  induction ls generalizing s with
  | nil => simp [Always, Guarded, hs]
  | cons l ls ih =>
      constructor
      · rintro ⟨_, hrest⟩ t ht
        have hI : I t := by
          have hA := hrest t ht
          cases ls with
          | nil => exact hA
          | cons m ms => exact hA.1
        exact ⟨(hstep s l t hs ht).mp hI, (ih hI).mp (hrest t ht)⟩
      · intro hG
        exact always_of_guarded (fun s l t h hg ht ↦ (hstep s l t h ht).mpr hg) hs hG

end Foundations
