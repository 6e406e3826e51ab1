import Mathlib.Data.List.Basic
import Mathlib.Logic.Function.Basic
import Mathlib.Data.Fintype.Defs

/-!
# Painting on a raster

The pixels of an image are four bytes each, blue first, in rows of some stride.
Every byte that is written is one of the image by the type of the pixels.  A step
of painting is described by the places that it covers, and steps in one color cover
their places together, in whatever order.
-/

namespace Foundations

structure Color where
  r : UInt8
  g : UInt8
  b : UInt8
  a : UInt8
  deriving DecidableEq, Repr

structure Raster where
  width : ℕ
  height : ℕ
  stride : ℕ
  fits : width * 4 ≤ stride

abbrev Pixels (r : Raster) := Fin (r.stride * r.height) → UInt8

structure Rect where
  x : ℤ
  y : ℤ
  w : ℤ
  h : ℤ

namespace Raster

variable (r : Raster)

theorem byte_lt {x y k : ℕ} (hx : x < r.width) (hy : y < r.height) (hk : k < 4) :
    y * r.stride + (x * 4 + k) < r.stride * r.height := by
  have hfits := r.fits
  calc
    y * r.stride + (x * 4 + k) < y * r.stride + r.stride := by omega
    _ = (y + 1) * r.stride := (Nat.succ_mul _ _).symm
    _ ≤ r.height * r.stride := Nat.mul_le_mul_right _ hy
    _ = r.stride * r.height := Nat.mul_comm _ _

def byte (x : Fin r.width) (y : Fin r.height) (k : Fin 4) : Fin (r.stride * r.height) :=
  ⟨y.val * r.stride + (x.val * 4 + k.val), r.byte_lt x.isLt y.isLt k.isLt⟩

/-- The pixel at a position, if it is one of the image. -/
def place (x y : ℤ) : Option (Fin r.width × Fin r.height) :=
  if h : 0 ≤ x ∧ 0 ≤ y ∧ x < r.width ∧ y < r.height then
    some (⟨x.toNat, by omega⟩, ⟨y.toNat, by omega⟩)
  else none

variable {r}

theorem byte_inj {x x' : Fin r.width} {y y' : Fin r.height} {k k' : Fin 4}
    (h : r.byte x y k = r.byte x' y' k') : x = x' ∧ y = y' ∧ k = k' := by
  have hfits := r.fits
  have hval : y.val * r.stride + (x.val * 4 + k.val) =
      y'.val * r.stride + (x'.val * 4 + k'.val) := congrArg Fin.val h
  have hx : x.val * 4 + k.val < r.stride := by omega
  have hx' : x'.val * 4 + k'.val < r.stride := by omega
  have hy : y.val = y'.val := by
    have hdiv := congrArg (· / r.stride) hval
    have hpos : 0 < r.stride := Nat.zero_lt_of_lt hx
    simpa [Nat.add_comm (_ * r.stride), Nat.add_mul_div_right _ _ hpos, Nat.div_eq_of_lt hx,
      Nat.div_eq_of_lt hx'] using hdiv
  rw [hy] at hval
  have hrest := Nat.add_left_cancel hval
  exact ⟨Fin.ext (by omega), Fin.ext hy, Fin.ext (by omega)⟩

theorem place_eq_some {x y : ℤ} {q : Fin r.width × Fin r.height} :
    r.place x y = some q ↔ (q.1.val : ℤ) = x ∧ (q.2.val : ℤ) = y := by
  obtain ⟨⟨a, ha⟩, ⟨b, hb⟩⟩ := q
  simp only [place]
  constructor
  · intro h
    split at h
    · have heq := Option.some.inj h
      have hx := congrArg (fun q ↦ q.1.val) heq
      have hy := congrArg (fun q ↦ q.2.val) heq
      simp only at hx hy
      omega
    · cases h
  · rintro ⟨rfl, rfl⟩
    rw [dif_pos ⟨by omega, by omega, by omega, by omega⟩]
    simp

end Raster

namespace Pixels

variable {r : Raster}

def colorAt (p : Pixels r) (x : Fin r.width) (y : Fin r.height) : Color :=
  ⟨p (r.byte x y 2), p (r.byte x y 1), p (r.byte x y 0), p (r.byte x y 3)⟩

/-- A pixel beyond the image is not written. -/
def putPixel (p : Pixels r) (x y : ℤ) (c : Color) : Pixels r :=
  match r.place x y with
  | none => p
  | some (x, y) =>
      Function.update (Function.update (Function.update (Function.update p
        (r.byte x y 0) c.b) (r.byte x y 1) c.g) (r.byte x y 2) c.r) (r.byte x y 3) c.a

def fillRect (p : Pixels r) (rect : Rect) (c : Color) : Pixels r :=
  (List.range rect.h.toNat).foldl (fun p (row : ℕ) ↦
    (List.range rect.w.toNat).foldl (fun p (col : ℕ) ↦
      p.putPixel (rect.x + col) (rect.y + row) c) p) p

/-- Whether a position has this color. -/
def has (p : Pixels r) (c : Color) (x y : ℤ) : Bool :=
  (r.place x y).any fun q ↦ p.colorAt q.1 q.2 = c

end Pixels

/-! ## Steps of painting -/

abbrev Shape := ℤ → ℤ → Prop

variable {r : Raster}

/-- The places of the shape get the color, and the others keep theirs. -/
def Painted (p : Pixels r) (shape : Shape) (c : Color) (p' : Pixels r) : Prop :=
  ∀ (x : Fin r.width) (y : Fin r.height),
    (shape x.val y.val → p'.colorAt x y = c) ∧
      (¬ shape x.val y.val → p'.colorAt x y = p.colorAt x y)

/-- The places outside keep their colors. -/
def Confined (region : Shape) (p p' : Pixels r) : Prop :=
  ∀ (x : Fin r.width) (y : Fin r.height), ¬ region x.val y.val → p'.colorAt x y = p.colorAt x y

theorem Confined.refl (region : Shape) (p : Pixels r) : Confined region p p := fun _ _ _ ↦ rfl

theorem Confined.trans {region : Shape} {p p' p'' : Pixels r} (h : Confined region p p')
    (h' : Confined region p' p'') : Confined region p p'' :=
  fun x y hout ↦ (h' x y hout).trans (h x y hout)

theorem Confined.mono {region region' : Shape} {p p' : Pixels r} (h : Confined region p p')
    (hsub : ∀ x y, region x y → region' x y) : Confined region' p p' :=
  fun x y hout ↦ h x y fun hin ↦ hout (hsub _ _ hin)

theorem Confined.foldl {α : Type*} {region : Shape} {f : Pixels r → α → Pixels r} {l : List α}
    (h : ∀ a ∈ l, ∀ p, Confined region p (f p a)) (p : Pixels r) :
    Confined region p (l.foldl f p) := by
  induction l generalizing p with
  | nil => exact Confined.refl _ _
  | cons a l ih =>
      exact (h a List.mem_cons_self p).trans (ih (fun b hb ↦ h b (List.mem_cons_of_mem _ hb)) _)

theorem Painted.confined {p p' : Pixels r} {shape : Shape} {c : Color}
    (h : Painted p shape c p') : Confined shape p p' := fun x y ↦ (h x y).2

theorem Painted.congr {p p' : Pixels r} {shape shape' : Shape} {c : Color}
    (h : Painted p shape c p') (hiff : ∀ x y, shape' x y ↔ shape x y) : Painted p shape' c p' :=
  fun x y ↦ ⟨fun hin ↦ (h x y).1 ((hiff _ _).mp hin), fun hout ↦ (h x y).2 (mt (hiff _ _).mpr hout)⟩

theorem Painted.refl (p : Pixels r) (c : Color) : Painted p (fun _ _ ↦ False) c p :=
  fun _ _ ↦ ⟨False.elim, fun _ ↦ rfl⟩

theorem Painted.trans {p p' p'' : Pixels r} {shape shape' : Shape} {c : Color}
    (h : Painted p shape c p') (h' : Painted p' shape' c p'') :
    Painted p (fun x y ↦ shape x y ∨ shape' x y) c p'' := by
  intro x y
  by_cases hlast : shape' x.val y.val
  · exact ⟨fun _ ↦ (h' x y).1 hlast, fun hout ↦ absurd (.inr hlast) hout⟩
  · rw [(h' x y).2 hlast]
    exact ⟨fun hin ↦ (h x y).1 (hin.resolve_right hlast), fun hout ↦ (h x y).2 (mt .inl hout)⟩

/-- A loop in one color covers what its turns cover. -/
theorem Painted.foldl {α : Type*} {shape : α → Shape} {c : Color} {f : Pixels r → α → Pixels r}
    (h : ∀ a p, Painted p (shape a) c (f p a)) (l : List α) (p : Pixels r) :
    Painted p (fun x y ↦ ∃ a ∈ l, shape a x y) c (l.foldl f p) := by
  induction l generalizing p with
  | nil => exact (Painted.refl p c).congr fun x y ↦ by simp
  | cons a l ih => exact ((h a p).trans (ih _)).congr fun x y ↦ by simp

theorem Painted.ite {p p' : Pixels r} {shape : Shape} {c : Color} (h : Painted p shape c p')
    (b : Prop) [Decidable b] :
    Painted p (fun x y ↦ b ∧ shape x y) c (if b then p' else p) := by
  split
  · rename_i hb
    exact h.congr fun x y ↦ and_iff_right hb
  · rename_i hb
    exact (Painted.refl p c).congr fun x y ↦ iff_of_false (fun h ↦ hb h.1) id

theorem painted_putPixel (p : Pixels r) (x y : ℤ) (c : Color) :
    Painted p (fun x' y' ↦ x' = x ∧ y' = y) c (p.putPixel x y c) := by
  intro x' y'
  simp only [Pixels.putPixel]
  cases hplace : r.place x y with
  | none =>
      refine ⟨fun heq ↦ ?_, fun _ ↦ rfl⟩
      have hsome : r.place x y = some (x', y') := Raster.place_eq_some.mpr heq
      rw [hplace] at hsome
      cases hsome
  | some q =>
      obtain ⟨a, b⟩ := q
      obtain ⟨ha, hb⟩ := Raster.place_eq_some.mp hplace
      constructor
      · rintro ⟨hx, hy⟩
        obtain rfl : x' = a := Fin.ext (Int.ofNat.inj (hx.trans ha.symm))
        obtain rfl : y' = b := Fin.ext (Int.ofNat.inj (hy.trans hb.symm))
        have hne : ∀ {k k' : Fin 4}, k ≠ k' → r.byte x' y' k ≠ r.byte x' y' k' :=
          fun hk h ↦ hk (Raster.byte_inj h).2.2
        have h01 := @hne 0 1 (by decide)
        have h02 := @hne 0 2 (by decide)
        have h03 := @hne 0 3 (by decide)
        have h12 := @hne 1 2 (by decide)
        have h13 := @hne 1 3 (by decide)
        have h23 := @hne 2 3 (by decide)
        simp [Pixels.colorAt, h01, h02, h03, h12, h13, h23]
      · intro hout
        have hne : ∀ k k' : Fin 4, r.byte x' y' k ≠ r.byte a b k' := by
          intro k k' h
          obtain ⟨rfl, rfl, -⟩ := Raster.byte_inj h
          exact hout ⟨ha, hb⟩
        simp [Pixels.colorAt, hne]

def Rect.Covers (rect : Rect) : Shape :=
  fun x y ↦ rect.x ≤ x ∧ x < rect.x + rect.w ∧ rect.y ≤ y ∧ y < rect.y + rect.h

instance (rect : Rect) (x y : ℤ) : Decidable (rect.Covers x y) :=
  inferInstanceAs (Decidable (_ ∧ _ ∧ _ ∧ _))

theorem painted_fillRect (p : Pixels r) (rect : Rect) (c : Color) :
    Painted p rect.Covers c (p.fillRect rect c) := by
  have hrow : ∀ (row : ℕ) (p : Pixels r), Painted p
      (fun x y ↦ ∃ col ∈ List.range rect.w.toNat, x = rect.x + (col : ℕ) ∧ y = rect.y + row) c
      ((List.range rect.w.toNat).foldl
        (fun p (col : ℕ) ↦ p.putPixel (rect.x + col) (rect.y + row) c) p) :=
    fun row p ↦ Painted.foldl (fun col p ↦ painted_putPixel p _ _ c) _ p
  refine (Painted.foldl hrow (List.range rect.h.toNat) p).congr fun x y ↦ ?_
  simp only [Rect.Covers, List.mem_range]
  constructor
  · rintro ⟨hx, hx', hy, hy'⟩
    exact ⟨(y - rect.y).toNat, by omega, (x - rect.x).toNat, by omega, by omega, by omega⟩
  · rintro ⟨row, hrow, col, hcol, rfl, rfl⟩
    omega

theorem has_eq {p : Pixels r} {c : Color} {x y : ℤ} {a : Fin r.width} {b : Fin r.height}
    (hx : (a.val : ℤ) = x) (hy : (b.val : ℤ) = y) : p.has c x y = decide (p.colorAt a b = c) := by
  have hplace : r.place x y = some (a, b) := Raster.place_eq_some.mpr ⟨hx, hy⟩
  rw [Pixels.has, hplace]
  rfl

end Foundations
