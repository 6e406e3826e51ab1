import Mathlib.Algebra.Order.Group.Abs
import Mathlib.Data.Nat.ModEq
import Mathlib.Logic.Function.Basic
import Mathlib.Tactic.Set

/-!
# Ring buffers and sliding windows

A ring buffer keeps its elements in an array of fixed size, from a first place
on and around its end.  Used as a sliding window over a growing list of times,
it holds the longest suffix that fits and is recent.
-/

namespace Foundations

/-- `count` elements of the array are in use, from place `head` on. -/
structure RingBuffer (α : Type*) (n : ℕ) where
  cells : Fin n → α
  head : ℕ
  count : ℕ

namespace RingBuffer

variable {α : Type*} {n : ℕ}

def dropFirst (r : RingBuffer α n) : RingBuffer α n :=
  { r with head := (r.head + 1) % n, count := r.count - 1 }

theorem count_dropFirst (r : RingBuffer α n) : r.dropFirst.count = r.count - 1 := rfl

variable [NeZero n]

def get (r : RingBuffer α n) (i : ℕ) : α := r.cells (Fin.ofNat n (r.head + i))

def push (r : RingBuffer α n) (x : α) : RingBuffer α n :=
  { r with
    cells := Function.update r.cells (Fin.ofNat n (r.head + r.count)) x
    count := r.count + 1 }

def dropWhile (p : α → Bool) (r : RingBuffer α n) : RingBuffer α n :=
  if 0 < r.count ∧ p (r.get 0) = true then dropWhile p r.dropFirst else r
termination_by r.count
decreasing_by
  rename_i h
  exact Nat.sub_lt h.1 Nat.one_pos

/-- The elements in order. -/
def content (r : RingBuffer α n) : List α := (List.range r.count).map r.get

structure WellFormed (r : RingBuffer α n) : Prop where
  head : r.head < n
  count : r.count ≤ n

@[simp] theorem length_content (r : RingBuffer α n) : r.content.length = r.count := by
  rw [content, List.length_map, List.length_range]

theorem get_dropFirst (r : RingBuffer α n) (i : ℕ) : r.dropFirst.get i = r.get (i + 1) := by
  have hplace : ((r.head + 1) % n + i) % n = (r.head + (i + 1)) % n := by
    rw [Nat.mod_add_mod]
    congr 1
    omega
  exact congrArg r.cells (Fin.ext hplace)

theorem content_dropFirst (r : RingBuffer α n) : r.dropFirst.content = r.content.tail := by
  rw [content, content]
  rcases hcount : r.count with _ | k
  · rw [dropFirst, hcount]
    rfl
  · have hrest : r.dropFirst.count = k := by rw [count_dropFirst, hcount, Nat.add_sub_cancel]
    rw [hrest, List.range_succ_eq_map, List.map_cons, List.tail_cons, List.map_map]
    exact List.map_congr_left fun i _ ↦ r.get_dropFirst i

theorem content_eq_cons {r : RingBuffer α n} (h : 0 < r.count) :
    r.content = r.get 0 :: r.dropFirst.content := by
  have hrange : List.range r.count = 0 :: (List.range (r.count - 1)).map Nat.succ := by
    rw [← List.range_succ_eq_map]
    congr 1
    omega
  rw [content_dropFirst, content, hrange, List.map_cons, List.tail_cons]

/-- Below the capacity the new element stands in a cell of its own. -/
theorem get_push_of_lt {r : RingBuffer α n} {x : α} {i : ℕ} (h : r.count < n) (hi : i < r.count) :
    (r.push x).get i = r.get i := by
  refine Function.update_of_ne (fun hplace ↦ ?_) _ _
  have hmod : Nat.ModEq n (r.head + i) (r.head + r.count) := congrArg Fin.val hplace
  have hcell : i % n = r.count % n := Nat.ModEq.add_left_cancel' r.head hmod
  rw [Nat.mod_eq_of_lt h, Nat.mod_eq_of_lt (hi.trans h)] at hcell
  omega

theorem content_push {r : RingBuffer α n} (h : r.count < n) (x : α) :
    (r.push x).content = r.content ++ [x] := by
  have hcount : (r.push x).count = r.count + 1 := rfl
  have hnew : (r.push x).get r.count = x := Function.update_self _ _ _
  rw [content, hcount, List.range_succ, List.map_append, List.map_singleton, hnew, content]
  congr 1
  exact List.map_congr_left fun i hi ↦ get_push_of_lt h (List.mem_range.mp hi)

theorem content_dropWhile (p : α → Bool) (r : RingBuffer α n) :
    (r.dropWhile p).content = r.content.dropWhile p := by
  fun_induction dropWhile p r with
  | case1 r h ih => rw [ih, content_eq_cons h.1, List.dropWhile_cons_of_pos h.2]
  | case2 r h =>
      rcases Nat.eq_zero_or_pos r.count with hzero | hpos
      · rw [List.length_eq_zero_iff.mp (r.length_content.trans hzero)]
        rfl
      · rw [content_eq_cons hpos, List.dropWhile_cons_of_neg fun hp ↦ h ⟨hpos, hp⟩]

namespace WellFormed

variable {r : RingBuffer α n}

theorem dropFirst (h : r.WellFormed) : r.dropFirst.WellFormed where
  head := Nat.mod_lt _ (Nat.pos_of_neZero n)
  count := (Nat.sub_le _ _).trans h.count

theorem push (h : r.WellFormed) (hcount : r.count < n) (x : α) : (r.push x).WellFormed where
  head := h.head
  count := hcount

theorem dropWhile (h : r.WellFormed) (p : α → Bool) : (r.dropWhile p).WellFormed := by
  fun_induction RingBuffer.dropWhile p r with
  | case1 r hp ih => exact ih h.dropFirst
  | case2 r hp => exact h

end WellFormed

end RingBuffer

/-! ## Longest suffixes -/

section Suffixes

variable {α : Type*} {P : List α → Prop} {n : ℕ} {s u l : List α}

/-- `s` is the longest suffix of `l` with the property. -/
structure IsLongestSuffix (P : List α → Prop) (s l : List α) : Prop where
  suffix : s <:+ l
  holds : P s
  longest : ∀ u, u <:+ l → P u → u <:+ s

theorem suffix_tail_of_length_lt (h : u <:+ s) (hlt : u.length < s.length) : u <:+ s.tail := by
  rcases s with _ | ⟨x, s⟩
  · exact absurd hlt (by simp)
  · rcases List.suffix_cons_iff.mp h with rfl | h
    · exact absurd hlt (lt_irrefl _)
    · exact h

theorem suffix_dropWhile {p : α → Bool} (h : u <:+ l) (hu : ∀ x ∈ u, p x = false) :
    u <:+ l.dropWhile p := by
  obtain ⟨front, rfl⟩ := h
  rw [List.dropWhile_append]
  split
  · rcases u with _ | ⟨x, u⟩
    · exact List.nil_suffix
    · have hkept : (x :: u).dropWhile p = x :: u :=
        List.dropWhile_cons_of_neg (by simp [hu x List.mem_cons_self])
      exact ⟨[], hkept.symm⟩
  · exact List.suffix_append _ _

/-- The list with room for another element. -/
def makeRoom (n : ℕ) (s : List α) : List α := if s.length = n then s.tail else s

theorem makeRoom_suffix : makeRoom n s <:+ s := by
  rw [makeRoom]
  split
  · exact List.tail_suffix s
  · exact List.suffix_rfl

theorem length_makeRoom (hn : 0 < n) (h : s.length ≤ n) : (makeRoom n s).length < n := by
  rw [makeRoom]
  split
  · rw [List.length_tail]
    omega
  · omega

theorem suffix_makeRoom (hu : u <:+ s) (hlt : u.length < n) : u <:+ makeRoom n s := by
  rw [makeRoom]
  split
  · exact suffix_tail_of_length_lt hu (by omega)
  · exact hu

theorem le_getLast [LinearOrder α] {newest x : α} (hsorted : l.Pairwise (· ≤ ·))
    (hnewest : newest ∈ l.getLast?) (hx : x ∈ l) : x ≤ newest := by
  obtain ⟨front, rfl⟩ := List.getLast?_eq_some_iff.mp hnewest
  rcases List.mem_append.mp hx with hx | hx
  · exact (List.pairwise_append.mp hsorted).2.2 x hx newest List.mem_cons_self
  · exact (List.mem_singleton.mp hx).le

/-- Where the property `p` goes over to later elements, a suffix has all of
those with it, or has it throughout. -/
theorem countP_suffix {p : α → Bool} (hp : l.Pairwise fun x y ↦ p x = true → p y = true)
    (h : s <:+ l) : s.countP p = min s.length (l.countP p) := by
  obtain ⟨front, rfl⟩ := h
  have hle : s.countP p ≤ s.length := List.countP_le_length
  rw [List.countP_append]
  by_cases hfront : front.countP p = 0
  · omega
  · obtain ⟨x, hx, hpx⟩ := List.countP_pos_iff.mp (Nat.pos_of_ne_zero hfront)
    have hall : s.countP p = s.length := by
      rw [List.countP_eq_length]
      intro y hy
      exact (List.pairwise_append.mp hp).2.2 x hx y hy hpx
    omega

end Suffixes

/-! ## Windows of recent times -/

section Windows

variable {T : Type*} [AddCommGroup T] [LinearOrder T] [IsOrderedAddMonoid T]
variable {w t : T} {n : ℕ} {s times : List T}

def Within (w t x : T) : Prop := |t - x| ≤ w

instance : DecidableRel (Within w : T → T → Prop) := fun t x ↦
  inferInstanceAs (Decidable (|t - x| ≤ w))

theorem within_iff {x : T} (h : x ≤ t) : Within w t x ↔ t - x ≤ w := by
  rw [Within, abs_of_nonneg (sub_nonneg.mpr h)]

/-- At most `n` times, all within `w` of the newest of the list. -/
def Recent (n : ℕ) (w : T) (times s : List T) : Prop :=
  s.length ≤ n ∧ ∀ newest ∈ times.getLast?, ∀ x ∈ s, Within w newest x

omit [IsOrderedAddMonoid T] in
theorem Recent.of_suffix {u : List T} (h : Recent n w times s) (hu : u <:+ s) :
    Recent n w times u :=
  ⟨hu.length_le.trans h.1, fun newest hnewest x hx ↦ h.2 newest hnewest x (hu.subset hx)⟩

/-- A suffix is recent if its first time is. -/
theorem recent_drop_iff (hsorted : times.Pairwise (· ≤ ·)) {i : ℕ} (hi : i < times.length) :
    Recent n w times (times.drop i) ↔
      times.length ≤ i + n ∧ ∀ newest ∈ times.getLast?, Within w newest times[i] := by
  have hlength : (times.drop i).length ≤ n ↔ times.length ≤ i + n := by
    rw [List.length_drop]
    omega
  rw [Recent, hlength]
  refine and_congr_right fun _ ↦ forall₂_congr fun newest hnewest ↦ ?_
  have hdrop : times.drop i = times[i] :: times.drop (i + 1) := List.drop_eq_getElem_cons hi
  refine ⟨fun h ↦ h _ (hdrop ▸ List.mem_cons_self), fun h x hx ↦ ?_⟩
  have hle : times[i] ≤ x := by
    have hpair := hsorted.sublist (List.drop_sublist i times)
    rw [hdrop] at hpair hx
    rcases List.mem_cons.mp hx with rfl | hx
    · exact le_rfl
    · exact List.rel_of_pairwise_cons hpair hx
  have hmem : x ∈ times := List.mem_of_mem_drop hx
  rw [within_iff (le_getLast hsorted hnewest (List.getElem_mem hi))] at h
  rw [within_iff (le_getLast hsorted hnewest hmem)]
  exact (sub_le_sub_left hle newest).trans h

/-- The longest recent suffix begins with the first time that is recent. -/
theorem IsLongestSuffix.recent_iff (h : IsLongestSuffix (Recent n w times) s times)
    (hsorted : times.Pairwise (· ≤ ·)) {i : ℕ} (hi : i < times.length) :
    times.length - s.length ≤ i ↔
      times.length ≤ i + n ∧ ∀ newest ∈ times.getLast?, Within w newest times[i] := by
  rw [← recent_drop_iff hsorted hi]
  have hdrop := List.drop_suffix i times
  constructor
  · intro hle
    refine h.holds.of_suffix (List.suffix_of_suffix_length_le hdrop h.suffix ?_)
    rw [List.length_drop]
    omega
  · intro hrecent
    have hlength := (h.longest _ hdrop hrecent).length_le
    rw [List.length_drop] at hlength
    omega

/-- The times without those at the front that are older. -/
def dropOld (w t : T) (s : List T) : List T := s.dropWhile fun x ↦ decide (w < t - x)

/-- The first that is kept is recent enough, and the others are later. -/
theorem within_of_mem_dropOld (hsorted : s.Pairwise (· ≤ ·)) (hle : ∀ x ∈ s, x ≤ t) {x : T}
    (hx : x ∈ dropOld w t s) : Within w t x := by
  have hkept : dropOld w t s <:+ s := List.dropWhile_suffix _
  have hpair := hsorted.sublist hkept.sublist
  rw [within_iff (hle x (hkept.subset hx))]
  rcases hdrop : dropOld w t s with _ | ⟨y, rest⟩
  · rw [hdrop] at hx
    exact absurd hx List.not_mem_nil
  · have hy : t - y ≤ w := by
      have hhead := List.head?_dropWhile_not (fun x ↦ decide (w < t - x)) s
      rw [← dropOld, hdrop] at hhead
      simpa using hhead
    rw [hdrop] at hx hpair
    rcases List.mem_cons.mp hx with rfl | hx
    · exact hy
    · exact (sub_le_sub_left (List.rel_of_pairwise_cons hpair hx) t).trans hy

/-- What was recent at a later time is recent at an earlier one. -/
theorem Recent.of_concat {u : List T} (h : Recent n w (times ++ [t]) (u ++ [t]))
    (hle : ∀ x ∈ times, x ≤ t) (hold : times.Pairwise (· ≤ ·)) (hu : u <:+ times) :
    Recent n w times u := by
  obtain ⟨hlength, hwithin⟩ := h
  rw [List.length_append, List.length_singleton] at hlength
  refine ⟨by omega, fun newest hnewest x hx ↦ ?_⟩
  have hx_times := hu.subset hx
  have hrecent := hwithin t List.getLast?_concat x (List.mem_append_left _ hx)
  rw [within_iff (hle x hx_times)] at hrecent
  rw [within_iff (le_getLast hold hnewest hx_times)]
  exact (sub_le_sub_right (hle newest (List.mem_of_getLast? hnewest)) x).trans hrecent

/-- The window after another time: room is made for it, and then what is too
old goes from the front. -/
theorem IsLongestSuffix.record (hn : 0 < n)
    (h : IsLongestSuffix (Recent n w times) s times)
    (hsorted : (times ++ [t]).Pairwise (· ≤ ·)) :
    IsLongestSuffix (Recent n w (times ++ [t])) (dropOld w t (makeRoom n s ++ [t]))
      (times ++ [t]) := by
  obtain ⟨hold, -, hnew⟩ := List.pairwise_append.mp hsorted
  have hle : ∀ x ∈ times, x ≤ t := fun x hx ↦ hnew x hx t List.mem_cons_self
  have hle' : ∀ x ∈ times ++ [t], x ≤ t := by
    intro x hx
    rcases List.mem_append.mp hx with hx | hx
    · exact hle x hx
    · exact (List.mem_singleton.mp hx).le
  have hroom := length_makeRoom hn h.holds.1
  have hwhole : makeRoom n s ++ [t] <:+ times ++ [t] :=
    List.suffix_append_self_iff.mpr (makeRoom_suffix.trans h.suffix)
  have hkept : dropOld w t (makeRoom n s ++ [t]) <:+ makeRoom n s ++ [t] :=
    List.dropWhile_suffix _
  refine ⟨hkept.trans hwhole, ⟨?_, fun newest hnewest x hx ↦ ?_⟩, fun u hu hrecent ↦ ?_⟩
  · have hfits := hkept.length_le
    rw [List.length_append, List.length_singleton] at hfits
    omega
  · rw [List.getLast?_concat, Option.mem_some_iff] at hnewest
    rw [← hnewest]
    exact within_of_mem_dropOld (hsorted.sublist hwhole.sublist)
      (fun y hy ↦ hle' y (hwhole.subset hy)) hx
  · rcases List.suffix_concat_iff.mp hu with rfl | ⟨v, rfl, hv⟩
    · exact List.nil_suffix
    have hlength := hrecent.1
    rw [List.length_append, List.length_singleton] at hlength
    have hv_kept : v <:+ makeRoom n s :=
      suffix_makeRoom (h.longest v hv (hrecent.of_concat hle hold hv)) (by omega)
    refine suffix_dropWhile (List.suffix_append_self_iff.mpr hv_kept) fun x hx ↦ ?_
    have hwithin := hrecent.2 t List.getLast?_concat x hx
    rw [within_iff (hle' x (hu.subset hx))] at hwithin
    simpa using hwithin

/-- The times within a shorter span of a later moment are all in the window,
or fill it. -/
theorem IsLongestSuffix.countP_within {v : T} (hvw : v ≤ w)
    (h : IsLongestSuffix (Recent n w times) s times) (hsorted : times.Pairwise (· ≤ ·))
    (hle : ∀ x ∈ times, x ≤ t) :
    s.countP (fun x ↦ Within v t x) = min n (times.countP fun x ↦ Within v t x) := by
  have hlater : times.Pairwise fun x y ↦ decide (Within v t x) = true →
      decide (Within v t y) = true := by
    refine hsorted.imp_of_mem fun {x y} hx hy hxy hwithin ↦ ?_
    rw [decide_eq_true_iff, within_iff (hle x hx)] at hwithin
    rw [decide_eq_true_iff, within_iff (hle y hy)]
    exact (sub_le_sub_left hxy t).trans hwithin
  have hcount := countP_suffix hlater h.suffix
  -- the last of them, as many as fit, are recent
  set m := min n (times.countP fun x ↦ Within v t x) with hm
  have hm_le : m ≤ times.length := (min_le_right _ _).trans List.countP_le_length
  have hu := List.drop_suffix (times.length - m) times
  have hu_length : (times.drop (times.length - m)).length = m := by
    rw [List.length_drop]
    omega
  have hu_within : ∀ x ∈ times.drop (times.length - m), decide (Within v t x) = true := by
    rw [← List.countP_eq_length, countP_suffix hlater hu, hu_length]
    omega
  have hu_recent : Recent n w times (times.drop (times.length - m)) := by
    refine ⟨by omega, fun newest hnewest x hx ↦ ?_⟩
    have hx_within := of_decide_eq_true (hu_within x hx)
    have hx_times := hu.subset hx
    rw [within_iff (hle x hx_times)] at hx_within
    rw [within_iff (le_getLast hsorted hnewest hx_times)]
    exact (sub_le_sub_right (hle newest (List.mem_of_getLast? hnewest)) x).trans
      (hx_within.trans hvw)
  have hu_length_le := (h.longest _ hu hu_recent).length_le
  have hs_length := h.holds.1
  omega

end Windows

end Foundations
