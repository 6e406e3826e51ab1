import Wallpiper.Foundations.Sizes
import Wallpiper.Fonts.NameTableForm

/-!
# UTF-8 that is not valid

The names of a font are transcoded byte by byte behind a pointer, whatever they
hold.  The pointer stays in front of the terminator, and every sequence of the
string gives its code units.  Sequences that stand for single surrogates or for
numbers beyond the last code point are not kept out.
-/

namespace Wallpiper.Fonts

open Foundations Foundations.CText Foundations.Sizes Foundations.Unicode

/-! ## The bytes behind the pointer -/

/-- The bytes that continue a sequence, read one after the other; the buffer ends
with `p`. -/
def readContinuation : ℕ → UInt32 → Bytes → Except Fault (Option (UInt32 × Bytes))
  | 0, cp, p => .ok (some (cp, p))
  | _ + 1, _, [] => .error .outOfBounds
  | extra + 1, cp, c :: p =>
      if c &&& 0xC0 ≠ 0x80 then .ok none
      else readContinuation extra (cp <<< 6 ||| (c &&& 0x3F).toUInt32) p

theorem length_readContinuation {extra : ℕ} {cp cp' : UInt32} {p rest : Bytes}
    (h : readContinuation extra cp p = .ok (some (cp', rest))) : rest.length ≤ p.length := by
  induction extra generalizing cp p with
  | zero =>
      obtain ⟨rfl, rfl⟩ := Prod.mk.inj (Option.some.inj (Except.ok.inj h))
      exact Nat.le_refl _
  | succ extra ih =>
      cases p with
      | nil => exact absurd h (by simp [readContinuation])
      | cons c p =>
          rw [readContinuation] at h
          split at h
          · exact absurd h (by simp)
          · exact (ih h).trans (Nat.le_succ _)

/-- `bytebuf_append_utf16be` on a buffer of which `p` is the rest. -/
def bytebufAppendUtf16be (b : ByteBuf) : Bytes → Except Fault ByteBuf
  | [] => .error .outOfBounds
  | c :: p =>
      if c = 0 then .ok b
      else
        match utf8Lead c with
        | none => bytebufAppendUtf16be b p
        | some (bits, extra) =>
            match h : readContinuation extra bits p with
            | .error fault => .error fault
            | .ok none => bytebufAppendUtf16be b p
            | .ok (some (cp, rest)) =>
                have := length_readContinuation h
                bytebufAppendUtf16be (appendCodePoint b cp) rest
termination_by p => p.length

/-- A terminator continues no sequence. -/
theorem readContinuation_terminated (extra : ℕ) (cp : UInt32) (s post : Bytes) :
    readContinuation extra cp (s ++ 0 :: post) =
      .ok ((utf8Tail extra cp s).map fun (cp, rest) ↦ (cp, rest ++ 0 :: post)) := by
  induction extra generalizing cp s with
  | zero => rfl
  | succ extra ih =>
      cases s with
      | nil =>
          rw [List.nil_append, readContinuation, if_pos (by decide), utf8Tail]
          rfl
      | cons c s =>
          rw [List.cons_append, readContinuation, utf8Tail]
          split
          · rfl
          · exact ih _ s

theorem utf8Tail_suffix {extra : ℕ} {cp cp' : UInt32} {p rest : Bytes}
    (h : utf8Tail extra cp p = some (cp', rest)) : rest <:+ p := by
  induction extra generalizing cp p with
  | zero =>
      obtain ⟨rfl, rfl⟩ := Prod.mk.inj (Option.some.inj h)
      exact List.suffix_rfl
  | succ extra ih =>
      cases p with
      | nil => exact absurd h (by simp [utf8Tail])
      | cons c p =>
          rw [utf8Tail] at h
          split at h
          · exact absurd h (by simp)
          · exact (ih h).trans (List.suffix_cons c p)

/-- No byte behind the terminator is read. -/
theorem bytebufAppendUtf16be_terminated (b : ByteBuf) {s : Bytes} (h : ∀ c ∈ s, c ≠ 0)
    (post : Bytes) : bytebufAppendUtf16be b (s ++ 0 :: post) = .ok (appendUtf16be b s) := by
  induction hn : s.length using Nat.strong_induction_on generalizing b s with
  | _ n ih =>
    cases s with
    | nil => rw [List.nil_append, bytebufAppendUtf16be, if_pos rfl, appendUtf16be]
    | cons c s =>
        obtain ⟨hc, h⟩ := List.forall_mem_cons.mp h
        have hlt : s.length < n := by
          rw [← hn]
          exact Nat.lt_succ_self _
        rw [List.cons_append, bytebufAppendUtf16be, if_neg hc, appendUtf16be]
        cases utf8Lead c with
        | none => exact ih _ hlt b h rfl
        | some lead =>
            obtain ⟨bits, extra⟩ := lead
            have hread := readContinuation_terminated extra bits s post
            dsimp only
            split
            · rename_i hfault
              exact absurd (hfault.symm.trans hread) (by simp)
            · rename_i hnone
              have htail : utf8Tail extra bits s = none := by
                simpa using hnone.symm.trans hread
              split
              · exact ih _ hlt b h rfl
              · rename_i hsome
                exact absurd (htail.symm.trans hsome) (by simp)
            · rename_i cp rest hsome
              obtain ⟨⟨cp', rest'⟩, htail, heq⟩ := Option.map_eq_some_iff.mp
                (Except.ok.inj (hread.symm.trans hsome))
              obtain ⟨rfl, rfl⟩ := Prod.mk.inj heq
              split
              · rename_i hnone
                exact absurd (hnone.symm.trans htail) (by simp)
              · rename_i hsome'
                obtain ⟨rfl, rfl⟩ := Prod.mk.inj (Option.some.inj (htail.symm.trans hsome'))
                have hsuffix := utf8Tail_suffix htail
                have hlength := hsuffix.length_le
                exact ih _ (by omega) _ (fun d hd ↦ h d (hsuffix.subset hd)) rfl

/-! ## The sequences that are found -/

theorem utf8Lead_eq (c : UInt8) :
    utf8Lead c = (leadingByte c).map fun (bits, extra) ↦ (UInt32.ofNat bits, extra) := by
  have key : ∀ x : Fin 256, utf8Lead (UInt8.ofNat x.1) =
      (leadingByte (UInt8.ofNat x.1)).map fun (bits, extra) ↦ (UInt32.ofNat bits, extra) := by
    decide +kernel
  have hbyte := key ⟨c.toNat, c.toNat_lt⟩
  rwa [UInt8.ofNat_toNat] at hbyte

theorem isContinuation_iff (c : UInt8) : IsContinuation c ↔ c &&& 0xC0 = 0x80 := by
  have key : ∀ x : Fin 256, IsContinuation (UInt8.ofNat x.1) ↔ UInt8.ofNat x.1 &&& 0xC0 = 0x80 := by
    decide +kernel
  have hbyte := key ⟨c.toNat, c.toNat_lt⟩
  rwa [UInt8.ofNat_toNat] at hbyte

theorem utf8Tail_eq {extra a : ℕ} (h : (a + 1) * 64 ^ extra ≤ 2 ^ 26) (p : Bytes) :
    utf8Tail extra (UInt32.ofNat a) p =
      if extra ≤ p.length ∧ ∀ d ∈ p.take extra, IsContinuation d then
        some (UInt32.ofNat (sequenceValue a (p.take extra)), p.drop extra)
      else none := by
  induction extra generalizing a p with
  | zero => simp [utf8Tail, sequenceValue]
  | succ extra ih =>
      cases p with
      | nil => simp [utf8Tail]
      | cons c p =>
          by_cases hc : IsContinuation c
          · have hbyte : c = UInt8.ofNat (c.toNat % 64 + 0x80) := by
              apply UInt8.toNat_inj.mp
              obtain ⟨hlow, hhigh⟩ := hc
              rw [UInt8.toNat_ofNat', Nat.mod_eq_of_lt (by omega)]
              omega
            have ha : a < 2 ^ 26 := by
              have hpos := Nat.pow_pos (n := extra + 1) (show 0 < 64 by decide)
              have hle := Nat.le_mul_of_pos_right (a + 1) hpos
              omega
            have hnext : (a * 64 + c.toNat % 64 + 1) * 64 ^ extra ≤ 2 ^ 26 := by
              refine le_trans ?_ h
              rw [Nat.pow_succ', ← Nat.mul_assoc]
              exact Nat.mul_le_mul_right _ (by omega)
            have hstep := utf8Tail_succ ha (Nat.mod_lt c.toNat (by decide)) extra p
            have hfits : (extra ≤ p.length ∧ ∀ d ∈ p.take extra, IsContinuation d) ↔
                extra + 1 ≤ (c :: p).length ∧
                  ∀ d ∈ (c :: p).take (extra + 1), IsContinuation d := by
              rw [List.take_succ_cons, List.forall_mem_cons, List.length_cons,
                Nat.add_le_add_iff_right, and_iff_right hc]
            rw [← hbyte] at hstep
            rw [hstep, ih hnext]
            exact if_congr hfits rfl rfl
          · have hstop : c &&& 0xC0 ≠ 0x80 := fun heq ↦ hc ((isContinuation_iff c).mpr heq)
            rw [utf8Tail, if_pos hstop, if_neg]
            rintro ⟨-, hall⟩
            rw [List.take_succ_cons] at hall
            exact hc (hall c List.mem_cons_self)

theorem sequenceAt_eq_some {c : UInt8} {p : Bytes} {cp : ℕ} (h : sequenceAt (c :: p) = some cp) :
    ∃ bits extra, leadingByte c = some (bits, extra) ∧ ∀ d ∈ p.take extra, IsContinuation d := by
  rw [sequenceAt] at h
  split at h
  · exact absurd h (by simp)
  · rename_i bits extra hlead
    split at h
    · rename_i hfits
      exact ⟨bits, extra, hlead, hfits.2⟩
    · exact absurd h (by simp)

/-- The decoder finds the sequence at the head, if one stands there. -/
theorem decode_eq (c : UInt8) (p : Bytes) :
    ((utf8Lead c).bind fun (bits, extra) ↦ utf8Tail extra bits p) =
      (sequenceAt (c :: p)).bind fun cp ↦
        (leadingByte c).map fun (_, extra) ↦ (UInt32.ofNat cp, p.drop extra) := by
  rw [utf8Lead_eq, sequenceAt]
  cases hlead : leadingByte c with
  | none => rfl
  | some lead =>
      obtain ⟨bits, extra⟩ := lead
      have hbits : (bits + 1) * 64 ^ extra ≤ 2 ^ 26 := by
        have hc := c.toNat_lt
        unfold leadingByte at hlead
        split_ifs at hlead
        all_goals
          obtain ⟨rfl, rfl⟩ := Prod.mk.inj (Option.some.inj hlead)
          omega
      simp only [Option.map_some, Option.bind_some, utf8Tail_eq hbits]
      split
      · rfl
      · rfl

theorem appendUtf16be_cons (b : ByteBuf) (c : UInt8) (p : Bytes) :
    appendUtf16be b (c :: p) =
      match (utf8Lead c).bind fun (bits, extra) ↦ utf8Tail extra bits p with
      | none => appendUtf16be b p
      | some (cp, rest) => appendUtf16be (appendCodePoint b cp) rest := by
  rw [appendUtf16be]
  cases utf8Lead c with
  | none => rfl
  | some lead =>
      obtain ⟨bits, extra⟩ := lead
      simp only [Option.bind_some]
      split
      · rename_i hnone
        rw [hnone]
      · rename_i hsome
        rw [hsome]

/-- What is appended are the code units of the sequences. -/
theorem appendUtf16be_sequences (b : ByteBuf) (s : Bytes) :
    (appendUtf16be b s).data = b.data ++ ((sequences s).flatMap codeUnits).flatMap u16be := by
  induction hn : s.length using Nat.strong_induction_on generalizing b s with
  | _ n ih =>
    cases s with
    | nil => simp [appendUtf16be, sequences, sequenceAt]
    | cons c p =>
        have hlt : p.length < n := by
          rw [← hn]
          exact Nat.lt_succ_self _
        rw [appendUtf16be_cons, decode_eq, sequences_cons]
        cases hseq : sequenceAt (c :: p) with
        | none => exact ih _ hlt b p rfl
        | some cp =>
            obtain ⟨bits, extra, hlead, hcontinue⟩ := sequenceAt_eq_some hseq
            have hbound : cp < 2 ^ 21 := by
              apply lt_of_mem_sequences (s := c :: p)
              rw [sequences_cons, hseq]
              exact List.mem_cons_self
            have hrest := ih (p.drop extra).length (by rw [List.length_drop]; omega)
              (appendCodePoint b (UInt32.ofNat cp)) (p.drop extra) rfl
            rw [hlead]
            simp only [Option.bind_some, Option.map_some, Option.toList_some]
            rw [hrest, appendCodePoint_codeUnits b (by omega), sequences_drop hcontinue,
              List.singleton_append, List.flatMap_cons, List.flatMap_append, List.append_assoc]

/-! ## Arbitrary strings -/

/-- What is asked of the transcoding of a string: the buffer in which it ends
with its terminator is not left, and what is appended is well formed and the text
itself where the string is valid. -/
def Transcodes (b : ByteBuf) (s : Bytes) : Prop :=
  ∃ b' units, bytebufAppendUtf16be b (s ++ [0]) = .ok b' ∧
    b'.data = b.data ++ units.flatMap u16be ∧ WellFormedUtf16 units ∧
    ∀ text, utf8 text = s → b'.data = b.data ++ utf16be text

/-- The buffer is never left, valid UTF-8 is transcoded, and what is appended is
well formed exactly when no sequence is beyond the last code point and encoded
surrogates come in pairs. -/
theorem bytebufAppendUtf16be_wellFormed_iff (b : ByteBuf) {s : Bytes} (h : ∀ c ∈ s, c ≠ 0) :
    (∃ b', bytebufAppendUtf16be b (s ++ [0]) = .ok b' ∧
        ∀ text, utf8 text = s → b'.data = b.data ++ utf16be text) ∧
      (Transcodes b s ↔
        (∀ cp ∈ sequences s, cp ≤ 0x10FFFF) ∧ SurrogatesPaired (sequences s)) := by
  have hread : bytebufAppendUtf16be b (s ++ [0]) = .ok (appendUtf16be b s) :=
    bytebufAppendUtf16be_terminated b h []
  have hvalid : ∀ text, utf8 text = s →
      (appendUtf16be b s).data = b.data ++ utf16be text := by
    rintro text rfl
    exact appendUtf16be_data b text
  have hdata := appendUtf16be_sequences b s
  have hunits := wellFormedUtf16_iff fun cp hcp ↦ lt_of_mem_sequences (s := s) hcp
  refine ⟨⟨_, hread, hvalid⟩, ?_⟩
  rw [← hunits]
  constructor
  · rintro ⟨b', units, hread', hdata', hwell, -⟩
    obtain rfl := Except.ok.inj (hread.symm.trans hread')
    rw [hdata] at hdata'
    rwa [flatMap_u16be_inj (List.append_cancel_left hdata')]
  · intro hwell
    exact ⟨_, _, hread, hdata, hwell, hvalid⟩

theorem bytebufAppendUtf16be_wellFormed_iff_pair :
    Transcodes .init [0x61, 0xF0, 0x9F, 0x98, 0x80] := by
  apply (bytebufAppendUtf16be_wellFormed_iff .init (by decide +kernel)).2.mpr
  decide +kernel

/-- A single surrogate in three bytes. -/
theorem encoded_surrogate_appended :
    (∃ b, bytebufAppendUtf16be .init [0xED, 0xA0, 0x80, 0] = .ok b ∧ b.data = [0xD8, 0x00]) ∧
      ¬ Transcodes .init [0xED, 0xA0, 0x80] := by
  have hread : bytebufAppendUtf16be .init ([0xED, 0xA0, 0x80] ++ [0]) =
      .ok (appendUtf16be .init [0xED, 0xA0, 0x80]) :=
    bytebufAppendUtf16be_terminated .init (by decide +kernel) []
  have hdata : (appendUtf16be .init [0xED, 0xA0, 0x80]).data =
      ([0xD800] : List UInt16).flatMap u16be := by
    rw [appendUtf16be_sequences]
    decide +kernel
  refine ⟨⟨_, hread, hdata⟩, ?_⟩
  rintro ⟨b', units, hread', hdata', hwell, -⟩
  obtain rfl := Except.ok.inj (hread.symm.trans hread')
  obtain rfl := flatMap_u16be_inj (hdata.symm.trans hdata')
  exact absurd hwell (by decide)

end Wallpiper.Fonts
