import Wallpiper.Foundations.BigEndian

/-!
# Readers of a buffer with checked sizes

A reader of a byte buffer computes offsets and lengths in 64 bits.  Here a sum
or product that would wrap and an access outside a buffer are faults of their
own, next to the answer "rejected" that a reader may give.  `Post` states what
a reader returns and when it rejects, and rules it out that it faults.
-/

namespace Foundations.Sizes

inductive Fault where
  /-- the reader returns false -/
  | rejected
  /-- a size computation exceeds 64 bits -/
  | wraps
  /-- a buffer is accessed outside its bounds -/
  | outOfBounds
  deriving DecidableEq, Repr

def add (a b : UInt64) : Except Fault UInt64 :=
  if a.toNat + b.toNat < 2 ^ 64 then .ok (a + b) else .error .wraps

def mul (a b : UInt64) : Except Fault UInt64 :=
  if a.toNat * b.toNat < 2 ^ 64 then .ok (a * b) else .error .wraps

/-- The length of a buffer as it is passed to a reader. -/
def bufferSize (buf : List UInt8) : UInt64 := UInt64.ofNat buf.length

def load (buf : List UInt8) (off : UInt64) : Except Fault UInt8 :=
  match buf[off.toNat]? with
  | some b => .ok b
  | none => .error .outOfBounds

/-- `buf[off + k]`. -/
def loadAt (buf : List UInt8) (off k : UInt64) : Except Fault UInt8 := do
  let i ← add off k
  load buf i

/-- `memcpy` out of a buffer. -/
def copyOut (buf : List UInt8) (off n : UInt64) : Except Fault (List UInt8) :=
  if off.toNat + n.toNat ≤ buf.length then .ok ((buf.drop off.toNat).take n.toNat)
  else .error .outOfBounds

variable {α β : Type}

/-- The rounds of `for (i = …; i < n; i++)` that are left. -/
def collectFrom (body : UInt64 → Except Fault α) (i : UInt64) : ℕ → Except Fault (List α)
  | 0 => .ok []
  | left + 1 => do
      let x ← body i
      let next ← add i 1
      let xs ← collectFrom body next left
      .ok (x :: xs)

def collect (n : UInt64) (body : UInt64 → Except Fault α) : Except Fault (List α) :=
  collectFrom body 0 n.toNat

/-! ## What a reader does -/

theorem bind_eq_ok_iff {ε : Type} {x : Except ε α} {f : α → Except ε β} {b : β} :
    x >>= f = .ok b ↔ ∃ a, x = .ok a ∧ f a = .ok b := by
  cases x with
  | error e => exact ⟨fun h ↦ absurd h (by rintro ⟨⟩), fun ⟨_, h, _⟩ ↦ absurd h (by simp)⟩
  | ok a => exact ⟨fun h ↦ ⟨a, rfl, h⟩, fun ⟨_, ha, h⟩ ↦ Except.ok.inj ha ▸ h⟩

/-- The reader does not fault: it returns a value with `Q`, or it rejects and
`R` holds. -/
def Post (x : Except Fault α) (Q : α → Prop) (R : Prop) : Prop :=
  match x with
  | .ok a => Q a
  | .error .rejected => R
  | .error .wraps => False
  | .error .outOfBounds => False

namespace Post

variable {x : Except Fault α} {f : α → Except Fault β} {Q Q' : α → Prop} {P : β → Prop}
  {R R' : Prop}

theorem ok {a : α} (h : Q a) : Post (.ok a) Q R := h

theorem rejected (h : R) : Post (.error .rejected : Except Fault α) Q R := h

theorem bind (h : Post x (fun a ↦ Post (f a) P R) R) : Post (x >>= f) P R := by
  rcases x with (_ | _ | _) | a
  · exact h
  · exact h.elim
  · exact h.elim
  · exact h

theorem mono (h : Post x Q R) (hQ : ∀ a, Q a → Q' a) (hR : R → R') : Post x Q' R' := by
  rcases x with (_ | _ | _) | a
  · exact hR h
  · exact h.elim
  · exact h.elim
  · exact hQ a h

/-- A reader followed by another one. -/
theorem step (h : Post x Q R') (hR : R' → R) (hf : ∀ a, Q a → Post (f a) P R) :
    Post (x >>= f) P R :=
  bind (h.mono hf hR)

/-- The reader reads what another one, `y`, reads, and goes on as that one does. -/
theorem bind_as {ε γ : Type} {y : Except ε α} {e : ε} {g : α → Except ε γ}
    {Q : Except ε γ → β → Prop} {R : Except ε γ → Prop}
    (h : Post x (fun a ↦ y = .ok a) (y = .error e)) (he : R (.error e))
    (hf : ∀ a, Post (f a) (Q (g a)) (R (g a))) : Post (x >>= f) (Q (y >>= g)) (R (y >>= g)) := by
  apply h.step
  · intro hrejected
    rw [hrejected]
    exact he
  · intro a hread
    rw [hread]
    exact hf a

theorem ne_wraps (h : Post x Q R) : x ≠ .error .wraps := by
  rintro rfl
  exact h

theorem ne_outOfBounds (h : Post x Q R) : x ≠ .error .outOfBounds := by
  rintro rfl
  exact h

theorem of_eq_ok (h : Post x Q R) {a : α} (hx : x = .ok a) : Q a := by
  rw [hx] at h
  exact h

/-- When only one of the answers is possible, the other one is given. -/
theorem exists_ok (h : Post x Q R) (hR : ¬ R) : ∃ a, x = .ok a ∧ Q a := by
  rcases x with (_ | _ | _) | a
  · exact absurd h hR
  · exact h.elim
  · exact h.elim
  · exact ⟨a, rfl, h⟩

theorem eq_rejected (h : Post x Q R) (hQ : ∀ a, ¬ Q a) : x = .error .rejected := by
  rcases x with (_ | _ | _) | a
  · rfl
  · exact h.elim
  · exact h.elim
  · exact absurd h (hQ a)

end Post

/-! ## The operations -/

variable {R : Prop} {buf : List UInt8}

theorem toNat_bufferSize (h : buf.length < 2 ^ 62) : (bufferSize buf).toNat = buf.length := by
  rw [bufferSize, UInt64.toNat_ofNat', Nat.mod_eq_of_lt (by omega)]

theorem gt_bufferSize_iff (h : buf.length < 2 ^ 62) (n : UInt64) :
    n > bufferSize buf ↔ n.toNat > buf.length := by
  rw [gt_iff_lt, UInt64.lt_iff_toNat_lt, toNat_bufferSize h]

theorem toNat_add {a b : UInt64} (h : a.toNat + b.toNat < 2 ^ 64) :
    (a + b).toNat = a.toNat + b.toNat := by
  rw [UInt64.toNat_add, Nat.mod_eq_of_lt h]

theorem toNat_mul {a b : UInt64} (h : a.toNat * b.toNat < 2 ^ 64) :
    (a * b).toNat = a.toNat * b.toNat := by
  rw [UInt64.toNat_mul, Nat.mod_eq_of_lt h]

theorem post_add {a b : UInt64} (h : a.toNat + b.toNat < 2 ^ 64) :
    Post (add a b) (fun c ↦ c.toNat = a.toNat + b.toNat) False := by
  rw [add, if_pos h]
  exact toNat_add h

theorem post_mul {a b : UInt64} (h : a.toNat * b.toNat < 2 ^ 64) :
    Post (mul a b) (fun c ↦ c.toNat = a.toNat * b.toNat) False := by
  rw [mul, if_pos h]
  exact toNat_mul h

theorem post_load {off : UInt64} (h : off.toNat < buf.length) :
    Post (load buf off) (fun b ↦ buf[off.toNat]? = some b) False := by
  rw [load, List.getElem?_eq_getElem h]
  exact rfl

theorem post_loadAt {off k : UInt64} (hbuf : buf.length < 2 ^ 64)
    (h : off.toNat + k.toNat < buf.length) :
    Post (loadAt buf off k) (fun b ↦ buf[off.toNat + k.toNat]? = some b) False := by
  apply (post_add (by omega)).step id
  intro i hi
  have hload := @post_load buf i (by omega)
  rwa [hi] at hload

theorem post_copyOut {off n : UInt64} (h : off.toNat + n.toNat ≤ buf.length) :
    Post (copyOut buf off n) (· = (buf.drop off.toNat).take n.toNat) False := by
  rw [copyOut, if_pos h]
  exact rfl

/-- A loop whose rounds do not fault gives one result a round. -/
theorem post_collect {n : UInt64} {body : UInt64 → Except Fault α} {Q : ℕ → α → Prop}
    (h : ∀ i : UInt64, i.toNat < n.toNat → Post (body i) (Q i.toNat) R) :
    Post (collect n body)
      (fun xs ↦ xs.length = n.toNat ∧ ∀ i x, xs[i]? = some x → Q i x) R := by
  have hlt := n.toNat_lt
  have hfrom : ∀ left (i : UInt64), i.toNat + left = n.toNat →
      Post (collectFrom body i left)
        (fun xs ↦ xs.length = left ∧ ∀ k x, xs[k]? = some x → Q (i.toNat + k) x) R := by
    intro left
    induction left with
    | zero => exact fun i _ ↦ Post.ok ⟨rfl, fun k x hx ↦ absurd hx (by simp)⟩
    | succ left ih =>
        intro i hi
        have hone : (1 : UInt64).toNat = 1 := rfl
        apply (h i (by omega)).step id
        intro x hx
        apply (post_add (by omega)).step False.elim
        intro next hnext
        apply (ih next (by omega)).step id
        rintro xs ⟨hlen, hxs⟩
        refine ⟨by rw [List.length_cons, hlen], ?_⟩
        rintro (_ | k) y hy
        · obtain rfl : x = y := by simpa using hy
          exact hx
        · have hk := hxs k y (by simpa using hy)
          rwa [hnext, hone, Nat.add_assoc, Nat.add_comm 1 k] at hk
  rw [collect]
  simpa using hfrom n.toNat 0 (by simp)

end Foundations.Sizes
