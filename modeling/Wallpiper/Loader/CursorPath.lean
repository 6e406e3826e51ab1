import Mathlib.Logic.Function.Basic
import Wallpiper.Ctl.ResponseText
import Wallpiper.Foundations.LittleEndian
import Wallpiper.Foundations.Runs

/-!
# The way of the cursor position

A thread in each renderer process asks the portal for the position and writes it
into a shared file.  A thread in each Windows program reads the file and stores
the position for the threads that call `GetCursorPos`.  The two numbers of a
position go through a line of text, eight bytes of the file and one 64-bit word
beside a flag, and every one of these threads may be anywhere in between.  As
long as nothing is stored, calls go to the function that was replaced.
-/

namespace Wallpiper.Loader

open Foundations Foundations.CText Wallpiper.Ctl

/-! ## From the portal's answer -/

/-- `sscanf` with `"CURSOR_POS %d %d"`, on what fits the buffer. -/
def scanCursorPos (answer : Bytes) : Option (Int32 × Int32) :=
  let buf := cString (answer.take 63)
  if bytesOf "CURSOR_POS" <+: buf then scanTwoInts (buf.drop 10) else none

theorem scanInt_dropWhile (s : Bytes) : scanInt (s.dropWhile isSpace) = scanInt s := by
  have hidem : (s.dropWhile isSpace).dropWhile isSpace = s.dropWhile isSpace :=
    List.dropWhile_idempotent isSpace s
  simp only [scanInt, scanNumber, strtol, hidem]

theorem scanTwoInts_blank (x y : Int32) :
    scanTwoInts (32 :: (decimalInt x.toInt ++ 32 :: (decimalInt y.toInt ++ [10]))) =
      some (x, y) := by
  have hfirst : scanInt (32 :: (decimalInt x.toInt ++ 32 :: (decimalInt y.toInt ++ [10]))) =
      some (x, 32 :: (decimalInt y.toInt ++ [10])) := by
    rw [← scanInt_dropWhile, List.dropWhile_cons_of_pos (by decide), scanInt_dropWhile]
    exact scanInt_decimalInt_append x rfl
  have hsecond : scanInt ((32 :: (decimalInt y.toInt ++ [10])).dropWhile isSpace) =
      some (y, [10]) := by
    rw [List.dropWhile_cons_of_pos (by decide), scanInt_dropWhile]
    exact scanInt_decimalInt_append y rfl
  rw [scanTwoInts, hfirst]
  simp only [Option.bind_eq_bind, Option.bind_some, hsecond]

/-- The text of a position. -/
def cursorPosText (x y : Int32) : Bytes :=
  bytesOf "CURSOR_POS" ++ 32 :: (decimalInt x.toInt ++ 32 :: (decimalInt y.toInt ++ [10]))

theorem length_cursorPosText_le (x y : Int32) : (cursorPosText x y).length ≤ 63 := by
  have hx := decimalInt_i32_length_le x
  have hy := decimalInt_i32_length_le y
  have hword : (bytesOf "CURSOR_POS").length = 10 := rfl
  simp only [cursorPosText, List.length_append, List.length_cons, List.length_nil]
  omega

theorem nonul_cursorPosText (x y : Int32) : ∀ b ∈ cursorPosText x y, b ≠ 0 := by
  have hword : ∀ b ∈ bytesOf "CURSOR_POS", b ≠ 0 := by decide +kernel
  intro b hb
  simp only [cursorPosText, List.mem_append, List.mem_cons, List.not_mem_nil, or_false] at hb
  rcases hb with hb | rfl | hb | rfl | hb | rfl
  · exact hword b hb
  · decide
  · exact (plain_of_mem_decimalInt hb).1.1
  · decide
  · exact (plain_of_mem_decimalInt hb).1.1
  · decide

theorem scanCursorPos_text (x y : Int32) : scanCursorPos (cursorPosText x y) = some (x, y) := by
  have hword : (bytesOf "CURSOR_POS").length = 10 := rfl
  have hprefix : bytesOf "CURSOR_POS" <+: cursorPosText x y := List.prefix_append _ _
  have hdrop : (cursorPosText x y).drop 10 =
      32 :: (decimalInt x.toInt ++ 32 :: (decimalInt y.toInt ++ [10])) := List.drop_left' hword
  rw [scanCursorPos, List.take_of_length_le (length_cursorPosText_le x y),
    cString_of_nonul (nonul_cursorPosText x y)]
  simp only [if_pos hprefix, hdrop]
  exact scanTwoInts_blank x y

theorem scanCursorPos_other {c : UInt8} (hc : c ≠ 67) (rest : Bytes) :
    scanCursorPos (c :: rest) = none := by
  have hword : bytesOf "CURSOR_POS" = 67 :: bytesOf "URSOR_POS" := rfl
  have hnot : ¬ bytesOf "CURSOR_POS" <+: cString ((c :: rest).take 63) := by
    rw [List.take_succ_cons, cString, List.takeWhile_cons, hword]
    split
    · rw [List.cons_prefix_cons]
      exact fun h ↦ hc h.1.symm
    · simp
  rw [scanCursorPos]
  exact if_neg hnot

def positionOf : CtlResponse → Option (Int32 × Int32)
  | .cursorPos x y => some (x, y)
  | _ => none

/-- The answer to a question is read as the position it gives, and no other
response is read as a position. -/
theorem scanCursorPos_encode {response : CtlResponse} {text : Bytes}
    (h : wpCtlResponseEncode response 512 = some text) :
    scanCursorPos text = positionOf response := by
  cases response with
  | ok =>
      simp only [wpCtlResponseEncode] at h
      obtain ⟨-, htext⟩ := Option.ite_none_right_eq_some.mp h
      obtain rfl := Option.some.inj htext
      exact @scanCursorPos_other 79 (by decide) _
  | err message =>
      simp only [wpCtlResponseEncode] at h
      obtain ⟨-, htext⟩ := Option.ite_none_right_eq_some.mp h
      obtain rfl := Option.some.inj htext
      exact @scanCursorPos_other 69 (by decide) _
  | geometry g =>
      simp only [wpCtlResponseEncode] at h
      cases hjson : wpMonitorGeometryEncodeJson g 256 with
      | none => simp [hjson] at h
      | some json =>
          rw [hjson, Option.map_some] at h
          obtain ⟨-, htext⟩ := Option.ite_none_right_eq_some.mp h
          obtain rfl := Option.some.inj htext
          exact @scanCursorPos_other 71 (by decide) _
  | cursorPos x y =>
      simp only [wpCtlResponseEncode] at h
      obtain ⟨-, htext⟩ := Option.ite_none_right_eq_some.mp h
      have hsame : cursorPosText x y = text := by
        have hword : bytesOf "CURSOR_POS " = bytesOf "CURSOR_POS" ++ [32] := rfl
        rw [← Option.some.inj htext, hword]
        simp [cursorPosText]
      rw [← hsame]
      exact scanCursorPos_text x y

/-! ## The file and the word -/

/-- The eight bytes of the file. -/
def cursorPayload (x y : Int32) : Bytes := u32le x.toUInt32 ++ u32le y.toUInt32

def readPayload (payload : Bytes) : Int32 × Int32 :=
  ((u32leAt payload 0).toInt32, (u32leAt payload 4).toInt32)

theorem readPayload_cursorPayload (x y : Int32) : readPayload (cursorPayload x y) = (x, y) := by
  have hx : u32leAt (cursorPayload x y) 0 = x.toUInt32 :=
    @u32leAt_append [] 0 rfl x.toUInt32 (u32le y.toUInt32)
  have hy : u32leAt (cursorPayload x y) 4 = y.toUInt32 := by
    have h := @u32leAt_append (u32le x.toUInt32) 4 rfl y.toUInt32 []
    rwa [List.append_nil] at h
  rw [readPayload, hx, hy]
  rfl

def packCursor (x y : Int32) : UInt64 := x.toUInt32.toUInt64 <<< 32 ||| y.toUInt32.toUInt64

def unpackCursor (packed : UInt64) : Int32 × Int32 :=
  ((packed >>> 32).toUInt32.toInt32, (packed &&& 0xFFFFFFFF).toUInt32.toInt32)

theorem toNat_packCursor (x y : Int32) :
    (packCursor x y).toNat = x.toUInt32.toNat * 2 ^ 32 + y.toUInt32.toNat := by
  have hx := x.toUInt32.toNat_lt
  have hy := y.toUInt32.toNat_lt
  have hshift : (x.toUInt32.toUInt64 <<< 32).toNat = x.toUInt32.toNat <<< 32 := by
    rw [UInt64.toNat_shiftLeft, UInt32.toNat_toUInt64]
    change x.toUInt32.toNat <<< 32 % 2 ^ 64 = _
    rw [Nat.shiftLeft_eq]
    exact Nat.mod_eq_of_lt (by omega)
  rw [packCursor, UInt64.toNat_or, hshift, UInt32.toNat_toUInt64,
    ← Nat.shiftLeft_add_eq_or_of_lt hy, Nat.shiftLeft_eq]

theorem unpackCursor_packCursor (x y : Int32) : unpackCursor (packCursor x y) = (x, y) := by
  have hx := x.toUInt32.toNat_lt
  have hy := y.toUInt32.toNat_lt
  have hhigh : (packCursor x y >>> 32).toUInt32 = x.toUInt32 := by
    apply UInt32.toNat_inj.mp
    rw [UInt64.toNat_toUInt32, UInt64.toNat_shiftRight, toNat_packCursor]
    change (_ >>> 32) % _ = _
    rw [Nat.shiftRight_eq_div_pow]
    omega
  have hlow : (packCursor x y &&& 0xFFFFFFFF).toUInt32 = y.toUInt32 := by
    apply UInt32.toNat_inj.mp
    rw [UInt64.toNat_toUInt32, UInt64.toNat_and, toNat_packCursor]
    change (_ &&& (2 ^ 32 - 1)) % _ = _
    rw [Nat.and_two_pow_sub_one_eq_mod]
    omega
  rw [unpackCursor, hhigh, hlow]
  rfl

/-! ## The threads -/

/-- A position with its number among those that the portal gave. -/
structure Numbered where
  position : Int32 × Int32
  number : ℕ
  deriving DecidableEq

/-- The position was given by the portal under its number. -/
def Numbered.GivenIn (p : Numbered) (reports : List (Int32 × Int32)) : Prop :=
  reports[p.number]? = some p.position

theorem Numbered.GivenIn.append {p : Numbered} {reports : List (Int32 × Int32)}
    (h : p.GivenIn reports) (more : List (Int32 × Int32)) : p.GivenIn (reports ++ more) := by
  obtain ⟨hlt, -⟩ := List.getElem?_eq_some_iff.mp h
  rw [GivenIn, List.getElem?_append_left hlt]
  exact h

/-! ## A Windows program -/

/-- Where the thread that reads the file is. -/
inductive PollPc where
  | idle
  | read (p : Numbered)
  /-- the word is stored and the flag is not set -/
  | stored
  deriving DecidableEq

/-- Where a thread is in a call that has a place for the position. -/
inductive CallPc where
  | outside
  /-- the flag was set, and the word is not read -/
  | entered
  /-- the flag was not set, and the function that was replaced is called -/
  | passedOn
  deriving DecidableEq

/-- What a call returns. -/
inductive CursorResult where
  | forwarded (p : Numbered)
  /-- the answer of the function that was replaced, or of none -/
  | real (answer : Option (Int32 × Int32))
  deriving DecidableEq

def CursorResult.forwarded? : CursorResult → Option Numbered
  | .forwarded p => some p
  | .real _ => none

/-- A program with its reading thread and the threads `τ` that call
`GetCursorPos`.  The numbers are not part of the program's data. -/
structure CursorReader (τ : Type*) where
  poll : PollPc
  forwardedCursor : UInt64
  wordNumber : ℕ
  haveForwardedCursor : Bool
  call : τ → CallPc
  /-- what `GetCursorPos` returned to the threads, the last at the end -/
  returned : List (τ × CursorResult)

inductive ReaderAct (τ : Type*)
  | readFile
  | storeWord
  | storeFlag
  | loadFlag (t : τ)
  | loadWord (t : τ)
  | realReturns (t : τ) (answer : Option (Int32 × Int32))

section Reader

open Function (update)

variable {τ : Type*}

/-- A property of every value is kept when one value that has it is put in. -/
theorem forall_update {α β : Type*} [DecidableEq α] {P : α → β → Prop} {f : α → β} {a : α} {b : β}
    (hf : ∀ x, P x (f x)) (hb : P a b) : ∀ x, P x (update f a b x) :=
  (Function.forall_update_iff f P).mpr ⟨hb, fun x _ ↦ hf x⟩

theorem mem_update {α β : Type*} [DecidableEq α] {f : α → Option β} {a x : α} {v : Option β} {p : β}
    (h : p ∈ update f a v x) : p ∈ v ∨ p ∈ f x := by
  obtain rfl | hne := eq_or_ne x a
  · rw [Function.update_self] at h
    exact .inl h
  · rw [Function.update_of_ne hne] at h
    exact .inr h

namespace CursorReader

def start : CursorReader τ := ⟨.idle, 0, 0, false, fun _ ↦ .outside, []⟩

/-- The forwarded positions among what was returned. -/
def positions (r : CursorReader τ) : List Numbered := r.returned.filterMap (·.2.forwarded?)

structure Sound (reports : List (Int32 × Int32)) (r : CursorReader τ) : Prop where
  read : ∀ p, r.poll = .read p → p.GivenIn reports
  word : r.poll = .stored ∨ r.haveForwardedCursor = true →
    Numbered.GivenIn ⟨unpackCursor r.forwardedCursor, r.wordNumber⟩ reports
  entered : ∀ t, r.call t = .entered → r.haveForwardedCursor = true
  returned : ∀ t p, (t, .forwarded p) ∈ r.returned → p.GivenIn reports

theorem Sound.append {reports : List (Int32 × Int32)} {r : CursorReader τ} (hr : r.Sound reports)
    (more : List (Int32 × Int32)) : r.Sound (reports ++ more) where
  read p hp := (hr.read p hp).append more
  word h := (hr.word h).append more
  entered := hr.entered
  returned t p hp := (hr.returned t p hp).append more

theorem positions_forwarded (r : CursorReader τ) (call : τ → CallPc) (t : τ) (p : Numbered) :
    positions { r with call, returned := r.returned ++ [(t, .forwarded p)] } =
      r.positions ++ [p] := by
  rw [positions, List.filterMap_append]
  rfl

theorem positions_real (r : CursorReader τ) (call : τ → CallPc) (t : τ)
    (answer : Option (Int32 × Int32)) :
    positions { r with call, returned := r.returned ++ [(t, .real answer)] } = r.positions := by
  rw [positions, List.filterMap_append]
  exact List.append_nil _

/-- The two results are not a forwarded position before one of the function
that was replaced, for one thread. -/
def InOrder (a b : τ × CursorResult) : Prop :=
  a.1 = b.1 → a.2.forwarded?.isSome = true → b.2.forwarded?.isSome = true

/-- A thread that was given a forwarded position is given no others later. -/
structure Lasting (r : CursorReader τ) : Prop where
  entered : ∀ t, r.call t = .entered → r.haveForwardedCursor = true
  flag : ∀ t p, (t, .forwarded p) ∈ r.returned → r.haveForwardedCursor = true
  passedOn : ∀ t, r.call t = .passedOn → ∀ p, (t, .forwarded p) ∉ r.returned
  inOrder : r.returned.Pairwise InOrder

/-- Nothing older follows, if nothing older comes into the file. -/
structure Ordered (fileNumber : ℕ) (r : CursorReader τ) : Prop where
  read : ∀ p, r.poll = .read p → r.wordNumber ≤ p.number ∧ p.number ≤ fileNumber
  word_le : r.wordNumber ≤ fileNumber
  returned_le : ∀ p ∈ r.positions, p.number ≤ r.wordNumber
  sorted : r.positions.Pairwise fun p q ↦ p.number ≤ q.number

theorem Ordered.mono {fileNumber later : ℕ} {r : CursorReader τ} (hr : r.Ordered fileNumber)
    (hle : fileNumber ≤ later) : r.Ordered later where
  read p hp := ⟨(hr.read p hp).1, (hr.read p hp).2.trans hle⟩
  word_le := hr.word_le.trans hle
  returned_le := hr.returned_le
  sorted := hr.sorted

variable [DecidableEq τ]

def step (file : Bytes) (fileNumber : ℕ) (r : CursorReader τ) :
    ReaderAct τ → Option (CursorReader τ)
  | .readFile =>
      if r.poll = .idle ∧ file.length = 8 then
        some { r with poll := .read ⟨readPayload file, fileNumber⟩ }
      else none
  | .storeWord =>
      match r.poll with
      | .read p =>
          some { r with
            forwardedCursor := packCursor p.position.1 p.position.2
            wordNumber := p.number
            poll := .stored }
      | _ => none
  | .storeFlag =>
      if r.poll = .stored then some { r with haveForwardedCursor := true, poll := .idle } else none
  | .loadFlag t =>
      if r.call t = .outside then
        some { r with
          call := update r.call t (if r.haveForwardedCursor then .entered else .passedOn) }
      else none
  | .loadWord t =>
      if r.call t = .entered then
        some { r with
          call := update r.call t .outside
          returned :=
            r.returned ++ [(t, .forwarded ⟨unpackCursor r.forwardedCursor, r.wordNumber⟩)] }
      else none
  | .realReturns t answer =>
      if r.call t = .passedOn then
        some { r with
          call := update r.call t .outside
          returned := r.returned ++ [(t, .real answer)] }
      else none

/-- Where a thread is in a call, when one of them has just returned. -/
theorem call_of_update {call : τ → CallPc} {t t' : τ} {pc : CallPc} (hpc : pc ≠ .outside)
    (h : update call t .outside t' = pc) : call t' = pc := by
  obtain rfl | hne := eq_or_ne t' t
  · rw [Function.update_self] at h
    exact absurd h.symm hpc
  · rwa [Function.update_of_ne hne] at h

theorem Sound.step {reports : List (Int32 × Int32)} {file : Bytes} {fileNumber : ℕ}
    {r r' : CursorReader τ} {act : ReaderAct τ} (hr : r.Sound reports)
    (hfile : file.length = 8 → Numbered.GivenIn ⟨readPayload file, fileNumber⟩ reports)
    (h : step file fileNumber r act = some r') : r'.Sound reports := by
  cases act with
  | readFile =>
      obtain ⟨⟨-, hlength⟩, hr'⟩ := Option.ite_none_right_eq_some.mp h
      obtain rfl := Option.some.inj hr'
      refine ⟨fun p hp ↦ ?_, fun hword ↦ ?_, hr.entered, hr.returned⟩
      · obtain rfl := PollPc.read.inj hp
        exact hfile hlength
      · exact hr.word (.inr (hword.resolve_left (by simp)))
  | storeWord =>
      simp only [CursorReader.step] at h
      split at h
      · rename_i p hp
        obtain rfl := Option.some.inj h
        refine ⟨fun p' hp' ↦ (by cases hp'), fun _ ↦ ?_, hr.entered, hr.returned⟩
        simp only [unpackCursor_packCursor]
        exact hr.read p hp
      · cases h
  | storeFlag =>
      obtain ⟨hstored, hr'⟩ := Option.ite_none_right_eq_some.mp h
      obtain rfl := Option.some.inj hr'
      exact ⟨fun p hp ↦ (by cases hp), fun _ ↦ hr.word (.inl hstored), fun _ _ ↦ rfl, hr.returned⟩
  | loadFlag t =>
      obtain ⟨-, hr'⟩ := Option.ite_none_right_eq_some.mp h
      obtain rfl := Option.some.inj hr'
      refine ⟨hr.read, hr.word, fun t' ht' ↦ ?_, hr.returned⟩
      simp only [Function.update_apply] at ht'
      split at ht'
      · split at ht'
        · assumption
        · cases ht'
      · exact hr.entered t' ht'
  | loadWord t =>
      obtain ⟨hentered, hr'⟩ := Option.ite_none_right_eq_some.mp h
      obtain rfl := Option.some.inj hr'
      have hflag := hr.entered t hentered
      refine ⟨hr.read, hr.word, fun _ _ ↦ hflag, fun t' p hp ↦ ?_⟩
      rcases List.mem_append.mp hp with hp | hp
      · exact hr.returned t' p hp
      · obtain ⟨-, hp⟩ := Prod.mk.inj (List.mem_singleton.mp hp)
        obtain rfl := CursorResult.forwarded.inj hp
        exact hr.word (.inr hflag)
  | realReturns t answer =>
      obtain ⟨-, hr'⟩ := Option.ite_none_right_eq_some.mp h
      obtain rfl := Option.some.inj hr'
      refine ⟨hr.read, hr.word, fun t' ht' ↦ hr.entered t' (call_of_update (by simp) ht'),
        fun t' p hp ↦ ?_⟩
      rcases List.mem_append.mp hp with hp | hp
      · exact hr.returned t' p hp
      · cases (Prod.mk.inj (List.mem_singleton.mp hp)).2

theorem Lasting.step {file : Bytes} {fileNumber : ℕ} {r r' : CursorReader τ} {act : ReaderAct τ}
    (hr : r.Lasting) (h : step file fileNumber r act = some r') : r'.Lasting := by
  cases act with
  | readFile =>
      obtain ⟨-, hr'⟩ := Option.ite_none_right_eq_some.mp h
      obtain rfl := Option.some.inj hr'
      exact ⟨hr.entered, hr.flag, hr.passedOn, hr.inOrder⟩
  | storeWord =>
      simp only [CursorReader.step] at h
      split at h
      · obtain rfl := Option.some.inj h
        exact ⟨hr.entered, hr.flag, hr.passedOn, hr.inOrder⟩
      · cases h
  | storeFlag =>
      obtain ⟨-, hr'⟩ := Option.ite_none_right_eq_some.mp h
      obtain rfl := Option.some.inj hr'
      exact ⟨fun _ _ ↦ rfl, fun _ _ _ ↦ rfl, hr.passedOn, hr.inOrder⟩
  | loadFlag t =>
      obtain ⟨-, hr'⟩ := Option.ite_none_right_eq_some.mp h
      obtain rfl := Option.some.inj hr'
      refine ⟨fun t' ht' ↦ ?_, hr.flag, fun t' ht' p hp ↦ ?_, hr.inOrder⟩
      all_goals simp only [Function.update_apply] at ht'
      all_goals split at ht'
      · split at ht'
        · assumption
        · cases ht'
      · exact hr.entered t' ht'
      · split at ht'
        · cases ht'
        · rename_i hflag
          exact hflag (hr.flag t' p hp)
      · exact hr.passedOn t' ht' p hp
  | loadWord t =>
      obtain ⟨hentered, hr'⟩ := Option.ite_none_right_eq_some.mp h
      obtain rfl := Option.some.inj hr'
      have hflag := hr.entered t hentered
      refine ⟨fun _ _ ↦ hflag, fun _ _ _ ↦ hflag, fun t' ht' p hp ↦ ?_, ?_⟩
      · have hpassed := call_of_update (by simp) ht'
        rcases List.mem_append.mp hp with hp | hp
        · exact hr.passedOn t' hpassed p hp
        · obtain ⟨rfl, -⟩ := Prod.mk.inj (List.mem_singleton.mp hp)
          exact absurd (hentered.symm.trans hpassed) (by simp)
      · rw [List.pairwise_append]
        refine ⟨hr.inOrder, List.pairwise_singleton _ _, fun a _ b hb _ _ ↦ ?_⟩
        rw [List.mem_singleton.mp hb]
        rfl
  | realReturns t answer =>
      obtain ⟨hpassed, hr'⟩ := Option.ite_none_right_eq_some.mp h
      obtain rfl := Option.some.inj hr'
      have hold : ∀ t' p, (t', CursorResult.forwarded p) ∈ r.returned ++ [(t, .real answer)] →
          (t', .forwarded p) ∈ r.returned := by
        intro t' p hp
        rcases List.mem_append.mp hp with hp | hp
        · exact hp
        · cases (Prod.mk.inj (List.mem_singleton.mp hp)).2
      refine ⟨fun t' ht' ↦ hr.entered t' (call_of_update (by simp) ht'),
        fun t' p hp ↦ hr.flag t' p (hold t' p hp),
        fun t' ht' p hp ↦ hr.passedOn t' (call_of_update (by simp) ht') p (hold t' p hp), ?_⟩
      rw [List.pairwise_append]
      refine ⟨hr.inOrder, List.pairwise_singleton _ _, fun a ha b hb hsame hforwarded ↦ ?_⟩
      obtain rfl := List.mem_singleton.mp hb
      obtain ⟨t', result⟩ := a
      obtain rfl : t' = t := hsame
      cases result with
      | forwarded p => exact absurd ha (hr.passedOn t' hpassed p)
      | real answer' => cases hforwarded

theorem Ordered.step {file : Bytes} {fileNumber : ℕ} {r r' : CursorReader τ} {act : ReaderAct τ}
    (hr : r.Ordered fileNumber) (h : step file fileNumber r act = some r') :
    r'.Ordered fileNumber := by
  cases act with
  | readFile =>
      obtain ⟨-, hr'⟩ := Option.ite_none_right_eq_some.mp h
      obtain rfl := Option.some.inj hr'
      refine ⟨fun p hp ↦ ?_, hr.word_le, hr.returned_le, hr.sorted⟩
      obtain rfl := PollPc.read.inj hp
      exact ⟨hr.word_le, le_refl _⟩
  | storeWord =>
      simp only [CursorReader.step] at h
      split at h
      · rename_i p hp
        obtain rfl := Option.some.inj h
        obtain ⟨hle, hfile⟩ := hr.read p hp
        exact ⟨fun p' hp' ↦ (by cases hp'), hfile,
          fun q hq ↦ (hr.returned_le q hq).trans hle, hr.sorted⟩
      · cases h
  | storeFlag =>
      obtain ⟨-, hr'⟩ := Option.ite_none_right_eq_some.mp h
      obtain rfl := Option.some.inj hr'
      exact ⟨fun p hp ↦ (by cases hp), hr.word_le, hr.returned_le, hr.sorted⟩
  | loadFlag t =>
      obtain ⟨-, hr'⟩ := Option.ite_none_right_eq_some.mp h
      obtain rfl := Option.some.inj hr'
      exact ⟨hr.read, hr.word_le, hr.returned_le, hr.sorted⟩
  | loadWord t =>
      obtain ⟨-, hr'⟩ := Option.ite_none_right_eq_some.mp h
      obtain rfl := Option.some.inj hr'
      refine ⟨hr.read, hr.word_le, ?_, ?_⟩
      · rw [positions_forwarded, List.forall_mem_append, List.forall_mem_singleton]
        exact ⟨hr.returned_le, le_refl _⟩
      · rw [positions_forwarded, List.pairwise_append]
        refine ⟨hr.sorted, List.pairwise_singleton _ _, fun p hp q hq ↦ ?_⟩
        rw [List.mem_singleton.mp hq]
        exact hr.returned_le p hp
  | realReturns t answer =>
      obtain ⟨-, hr'⟩ := Option.ite_none_right_eq_some.mp h
      obtain rfl := Option.some.inj hr'
      refine ⟨hr.read, hr.word_le, ?_, ?_⟩
      · rw [positions_real]
        exact hr.returned_le
      · rw [positions_real]
        exact hr.sorted

end CursorReader

end Reader

/-! ## All threads -/

/-- The forwarding threads `ι` and the Windows programs `κ`. -/
structure CursorPath (ι κ τ : Type*) where
  /-- the positions that the portal gave, oldest first -/
  reports : List (Int32 × Int32)
  inFlight : ι → Option Numbered
  file : Bytes
  fileNumber : ℕ
  readers : κ → CursorReader τ

inductive CursorAct (ι κ τ : Type*)
  /-- the whole of an answer is read; where a question has none nothing happens -/
  | answer (i : ι) (response : CtlResponse)
  /-- all eight bytes are written, or none -/
  | pwrite (i : ι) (ok : Bool)
  | reader (k : κ) (act : ReaderAct τ)

namespace CursorPath

open Function (update)

variable {ι κ τ : Type*}

/-- The file may be left from before, with a position of that time. -/
def start (old : Option (Int32 × Int32)) : CursorPath ι κ τ where
  reports := old.toList
  inFlight _ := none
  file := (old.map fun p ↦ cursorPayload p.1 p.2).getD []
  fileNumber := 0
  readers _ := .start

structure Sound (s : CursorPath ι κ τ) : Prop where
  inFlight : ∀ i, ∀ p ∈ s.inFlight i, p.GivenIn s.reports
  file : s.file.length = 8 → Numbered.GivenIn ⟨readPayload s.file, s.fileNumber⟩ s.reports
  readers : ∀ k, (s.readers k).Sound s.reports

theorem Sound.start (old : Option (Int32 × Int32)) : Sound (start old : CursorPath ι κ τ) where
  inFlight _ _ h := by cases h
  file h := by
    cases old with
    | none => cases h
    | some p => exact congrArg some (readPayload_cursorPayload p.1 p.2).symm
  readers _ :=
    ⟨fun _ h ↦ (by cases h), fun h ↦ (by simp [CursorPath.start, CursorReader.start] at h),
      fun _ h ↦ (by cases h), fun _ _ h ↦ (by cases h)⟩

/-- With one forwarding thread nothing older comes into the file. -/
structure Ordered (s : CursorPath ι κ τ) : Prop where
  file_le : s.fileNumber ≤ s.reports.length
  inFlight : ∀ i, ∀ p ∈ s.inFlight i, s.fileNumber ≤ p.number ∧ p.number < s.reports.length
  readers : ∀ k, (s.readers k).Ordered s.fileNumber

theorem Ordered.start (old : Option (Int32 × Int32)) : Ordered (start old : CursorPath ι κ τ) where
  file_le := Nat.zero_le _
  inFlight _ _ h := by cases h
  readers _ := ⟨fun _ h ↦ (by cases h), le_refl _, fun _ h ↦ (by cases h), .nil⟩

variable [DecidableEq ι] [DecidableEq κ] [DecidableEq τ]

def step (s : CursorPath ι κ τ) : CursorAct ι κ τ → Option (CursorPath ι κ τ)
  | .answer i response =>
      match s.inFlight i, wpCtlResponseEncode response 512 with
      | none, some text =>
          some { s with
            reports := s.reports ++ (positionOf response).toList
            inFlight := update s.inFlight i
              ((scanCursorPos text).map fun p ↦ ⟨p, s.reports.length⟩) }
      | _, _ => none
  | .pwrite i ok =>
      match s.inFlight i with
      | none => none
      | some p =>
          if ok then
            some { s with
              inFlight := update s.inFlight i none
              file := cursorPayload p.position.1 p.position.2
              fileNumber := p.number }
          else some { s with inFlight := update s.inFlight i none }
  | .reader k act =>
      ((s.readers k).step s.file s.fileNumber act).map fun r ↦
        { s with readers := update s.readers k r }

theorem Sound.step {s s' : CursorPath ι κ τ} {act : CursorAct ι κ τ} (hs : s.Sound)
    (h : step s act = some s') : s'.Sound := by
  cases act with
  | answer i response =>
      simp only [CursorPath.step] at h
      split at h
      · rename_i text _ htext
        obtain rfl := Option.some.inj h
        refine ⟨fun i' p hp ↦ ?_, fun hlength ↦ (hs.file hlength).append _,
          fun k ↦ (hs.readers k).append _⟩
        rcases mem_update hp with hp | hp
        · rw [scanCursorPos_encode htext] at hp
          obtain ⟨position, hposition, rfl⟩ := Option.map_eq_some_iff.mp hp
          simp [Numbered.GivenIn, hposition]
        · exact (hs.inFlight i' p hp).append _
      · cases h
  | pwrite i ok =>
      simp only [CursorPath.step] at h
      split at h
      · cases h
      · rename_i p hp
        have hinFlight : ∀ i', ∀ p ∈ update s.inFlight i none i', p.GivenIn s.reports :=
          fun i' q hq ↦ hs.inFlight i' q ((mem_update hq).resolve_left (by simp))
        split at h
        · obtain rfl := Option.some.inj h
          refine ⟨hinFlight, fun _ ↦ ?_, hs.readers⟩
          simp only [readPayload_cursorPayload]
          exact hs.inFlight i p hp
        · obtain rfl := Option.some.inj h
          exact ⟨hinFlight, hs.file, hs.readers⟩
  | reader k act =>
      obtain ⟨r, hr, rfl⟩ := Option.map_eq_some_iff.mp h
      exact ⟨hs.inFlight, hs.file, forall_update hs.readers ((hs.readers k).step hs.file hr)⟩

theorem Ordered.step [Subsingleton ι] {s s' : CursorPath ι κ τ} {act : CursorAct ι κ τ}
    (hs : s.Ordered) (h : step s act = some s') : s'.Ordered := by
  cases act with
  | answer i response =>
      simp only [CursorPath.step] at h
      split at h
      · rename_i text _ htext
        obtain rfl := Option.some.inj h
        refine ⟨hs.file_le.trans (by simp), fun i' p hp ↦ ?_, hs.readers⟩
        rcases mem_update hp with hp | hp
        · rw [scanCursorPos_encode htext] at hp
          obtain ⟨position, hposition, rfl⟩ := Option.map_eq_some_iff.mp hp
          exact ⟨hs.file_le, by simp [hposition]⟩
        · obtain ⟨hle, hlt⟩ := hs.inFlight i' p hp
          exact ⟨hle, hlt.trans_le (by simp)⟩
      · cases h
  | pwrite i ok =>
      simp only [CursorPath.step] at h
      split at h
      · cases h
      · rename_i p hp
        obtain ⟨hle, hlt⟩ := hs.inFlight i p hp
        have hnone : ∀ i', update s.inFlight i none i' = none := by
          intro i'
          rw [Subsingleton.elim i' i, Function.update_self]
        split at h
        · obtain rfl := Option.some.inj h
          refine ⟨hlt.le, fun i' q hq ↦ ?_, fun k ↦ (hs.readers k).mono hle⟩
          exact absurd ((hnone i').symm.trans hq) (by simp)
        · obtain rfl := Option.some.inj h
          refine ⟨hs.file_le, fun i' q hq ↦ ?_, hs.readers⟩
          exact absurd ((hnone i').symm.trans hq) (by simp)
  | reader k act =>
      obtain ⟨r, hr, rfl⟩ := Option.map_eq_some_iff.mp h
      exact ⟨hs.file_le, hs.inFlight, forall_update hs.readers ((hs.readers k).step hr)⟩

end CursorPath

end Wallpiper.Loader
