import Wallpiper.Foundations.FormatStrings
import Wallpiper.Loader.Formatter

/-!
# What the formatter produces

The loop cuts a format into the pieces of its grammar, and what it hands to the
sink is the text of the pieces, one after the other.  A format that ends inside
a conversion is read behind its NUL.  The text does not depend on the sink, so
a buffer of any capacity gets the same text, cut to its size.
-/

namespace Wallpiper.Loader

open Foundations Foundations.CText Foundations.FormatStrings

/-! ## The text of a piece -/

inductive ArgType where
  | word
  | size
  | string
  | pointer
  deriving DecidableEq, Repr

def VaArg.type : VaArg → ArgType
  | .word _ => .word
  | .size _ => .size
  | .string _ => .string
  | .pointer _ => .pointer

/-- The argument that a piece takes. -/
def argType : Piece → Option ArgType
  | .literal _ => none
  | .conversion _ _ size c =>
      if c = 115 then some .string
      else if c = 112 then some .pointer
      else if c = 100 ∨ c = 117 ∨ c = 120 ∨ c = 88 then some (if size then .size else .word)
      else none

/-- There is one argument of the right type for each conversion that takes one. -/
def Matches (fmt : Bytes) (args : List VaArg) : Prop :=
  args.map VaArg.type = (pieces fmt).filterMap argType

instance (fmt : Bytes) (args : List VaArg) : Decidable (Matches fmt args) :=
  inferInstanceAs (Decidable (_ = _))

def assigned (ps : List Piece) (args : List VaArg) : List (Piece × Option VaArg) :=
  assign (fun p ↦ (argType p).isSome) ps args

theorem assigned_plain {p : Piece} (h : argType p = none) (ps : List Piece)
    (args : List VaArg) : assigned (p :: ps) args = (p, none) :: assigned ps args := by
  have htakes : ¬(argType p).isSome = true := by simp [h]
  rw [assigned, assign, if_neg htakes, assigned]

theorem assigned_arg {p : Piece} {t : ArgType} (h : argType p = some t) (ps : List Piece)
    (a : VaArg) (args : List VaArg) :
    assigned (p :: ps) (a :: args) = (p, some a) :: assigned ps args := by
  have htakes : (argType p).isSome = true := by simp [h]
  rw [assigned, assign, if_pos htakes, List.head?_cons, List.tail_cons, assigned]

def uintText (v base : UInt64) (upper : Bool) (width : Int32) (zeroPad : Bool) : Bytes :=
  List.replicate (width.toInt - (uintDigits v base upper).length).toNat
      (if zeroPad then 48 else 32) ++
    (uintDigits v base upper).reverse

def intText (v : Int64) (width : Int32) (zeroPad : Bool) : Bytes :=
  if v < 0 then 45 :: uintText (-v).toUInt64 10 false width zeroPad
  else uintText v.toUInt64 10 false width zeroPad

def numberText (c : UInt8) (signed : Int64) (unsigned : UInt64) (width : Int32)
    (zeroPad : Bool) : Bytes :=
  if c = 100 then intText signed width zeroPad
  else if c = 117 then uintText unsigned 10 false width zeroPad
  else if c = 120 then uintText unsigned 16 false width zeroPad
  else uintText unsigned 16 true width zeroPad

def pieceText : Piece × Option VaArg → Bytes
  | (.literal c, _) => [c]
  | (.conversion zero width _ c, some (.word v)) =>
      numberText c v.toInt32.toInt64 v.toUInt64 (Int32.ofNat width) zero
  | (.conversion zero width _ c, some (.size v)) =>
      numberText c v.toInt64 v (Int32.ofNat width) zero
  | (.conversion _ _ _ _, some (.string s)) => cString (s.getD nullText)
  | (.conversion _ _ _ _, some (.pointer v)) => [48, 120] ++ uintText v 16 false 0 false
  | (.conversion _ _ _ c, none) => if c = 37 then [37] else [37, c]

/-- The text of a format with its arguments. -/
def fullText (fmt : Bytes) (args : List VaArg) : Bytes :=
  (assigned (pieces fmt) args).flatMap pieceText

variable {σ : Type} (append : σ → UInt8 → σ)

theorem appendStr_eq (s : σ) (text : Bytes) :
    appendStr append s text = (cString text).foldl append s := by
  induction text generalizing s with
  | nil => rfl
  | cons c cs ih =>
      by_cases hc : c = 0
      · have hstop : cString (c :: cs) = [] :=
          List.takeWhile_cons_of_neg (by simpa using hc)
        rw [appendStr, if_pos hc, hstop, List.foldl_nil]
      · have hgo : cString (c :: cs) = c :: cString cs :=
          List.takeWhile_cons_of_pos (by simpa using hc)
        rw [appendStr, if_neg hc, hgo, List.foldl_cons, ih]

theorem appendUint_eq (s : σ) (v base : UInt64) (upper : Bool) (width : Int32)
    (zeroPad : Bool) :
    appendUint append s v base upper width zeroPad =
      (uintText v base upper width zeroPad).foldl append s := by
  simp only [appendUint, uintText, List.foldl_append]

/-- A conversion that takes no argument. -/
theorem convert_plain {c : UInt8} {zero size : Bool} {width : ℕ}
    (h : argType (.conversion zero width size c) = none) (s : σ) (args : List VaArg)
    (w : Int32) :
    convert append s args zero w size c =
      .ok ((pieceText (.conversion zero width size c, none)).foldl append s, args) := by
  have hs : c ≠ 115 := by
    rintro rfl
    simp [argType] at h
  have hp : c ≠ 112 := by
    rintro rfl
    simp [argType] at h
  have hn : ¬(c = 100 ∨ c = 117 ∨ c = 120 ∨ c = 88) := by
    intro hn
    simp [argType, hs, hp, hn] at h
  obtain ⟨hd, hu, hx, hX⟩ : c ≠ 100 ∧ c ≠ 117 ∧ c ≠ 120 ∧ c ≠ 88 := by simpa using hn
  simp only [convert, if_neg hs, if_neg hd, if_neg hu, if_neg hx, if_neg hX, if_neg hp,
    pieceText]
  by_cases hpercent : c = 37
  · rw [if_pos hpercent, if_pos hpercent]
    rfl
  · rw [if_neg hpercent, if_neg hpercent]
    rfl

theorem convert_number {c : UInt8} (hc : c = 100 ∨ c = 117 ∨ c = 120 ∨ c = 88) {size : Bool}
    {signed : Int64} {unsigned : UInt64} {args rest : List VaArg}
    (hsigned : vaSigned size args = .ok (signed, rest))
    (hunsigned : vaUnsigned size args = .ok (unsigned, rest)) (s : σ) (zero : Bool)
    (w : Int32) :
    convert append s args zero w size c =
      .ok ((numberText c signed unsigned w zero).foldl append s, rest) := by
  rcases hc with rfl | rfl | rfl | rfl
  · have hconvert : convert append s args zero w size 100 = (do
        let v ← vaSigned size args
        if v.1 < 0 then
          .ok (appendUint append (append s 45) (-v.1).toUInt64 10 false w zero, v.2)
        else
          .ok (appendUint append s v.1.toUInt64 10 false w zero, v.2)) := rfl
    rw [hconvert, hsigned, numberText, if_pos rfl, intText]
    by_cases hneg : signed < 0
    · rw [if_pos hneg, List.foldl_cons, ← appendUint_eq]
      exact if_pos hneg
    · rw [if_neg hneg, ← appendUint_eq]
      exact if_neg hneg
  · have hconvert : convert append s args zero w size 117 = (do
        let v ← vaUnsigned size args
        .ok (appendUint append s v.1 10 false w zero, v.2)) := rfl
    rw [hconvert, hunsigned, numberText, if_neg (by decide), if_pos rfl, ← appendUint_eq]
    rfl
  · have hconvert : convert append s args zero w size 120 = (do
        let v ← vaUnsigned size args
        .ok (appendUint append s v.1 16 false w zero, v.2)) := rfl
    rw [hconvert, hunsigned, numberText, if_neg (by decide), if_neg (by decide), if_pos rfl,
      ← appendUint_eq]
    rfl
  · have hconvert : convert append s args zero w size 88 = (do
        let v ← vaUnsigned size args
        .ok (appendUint append s v.1 16 true w zero, v.2)) := rfl
    rw [hconvert, hunsigned, numberText, if_neg (by decide), if_neg (by decide),
      if_neg (by decide), ← appendUint_eq]
    rfl

/-- A conversion whose argument is there. -/
theorem convert_arg {c : UInt8} {zero size : Bool} {width : ℕ} {a : VaArg}
    (h : argType (.conversion zero width size c) = some a.type) (s : σ) (args : List VaArg) :
    convert append s (a :: args) zero (Int32.ofNat width) size c =
      .ok ((pieceText (.conversion zero width size c, some a)).foldl append s, args) := by
  by_cases hs : c = 115
  · subst hs
    have htype : ArgType.string = a.type := Option.some.inj h
    cases a with
    | string t =>
        rw [pieceText, ← appendStr_eq]
        rfl
    | _ => cases htype
  by_cases hp : c = 112
  · subst hp
    have htype : ArgType.pointer = a.type := Option.some.inj h
    cases a with
    | pointer v =>
        rw [pieceText, List.foldl_append, ← appendUint_eq]
        rfl
    | _ => cases htype
  by_cases hn : c = 100 ∨ c = 117 ∨ c = 120 ∨ c = 88
  · have htype : (if size then ArgType.size else .word) = a.type := by
      simpa only [argType, if_neg hs, if_neg hp, if_pos hn, Option.some.injEq] using h
    cases size with
    | true =>
        cases a with
        | size v => exact convert_number append hn rfl rfl s zero _
        | _ => cases htype
    | false =>
        cases a with
        | word v => exact convert_number append hn rfl rfl s zero _
        | _ => cases htype
  · simp only [argType, if_neg hs, if_neg hp, if_neg hn, reduceCtorEq] at h

/-! ## The loops over a conversion -/

theorem not_isDigit_zero : ¬IsDigit 0 := by decide

theorem scanZeros_eq (zero : Bool) {p : Bytes} (hp : 0 ∉ p) :
    ∃ zero' q, scanZeros zero (p ++ [0]) = .ok (zero', q ++ [0]) ∧ q <:+ p ∧
      scan (.flag zero) p = scan (.digits zero' 0) q := by
  induction p generalizing zero with
  | nil => exact ⟨zero, [], rfl, List.suffix_refl _, rfl⟩
  | cons c p ih =>
      by_cases hc : c = 48
      · subst hc
        obtain ⟨zero', q, hcode, hsuffix, hscan⟩ :=
          ih true fun h ↦ hp (List.mem_cons_of_mem 48 h)
        exact ⟨zero', q, hcode, hsuffix.trans (List.suffix_cons 48 p),
          (scan_flag_zero zero p).trans hscan⟩
      · have hhead : ∀ d ∈ (c :: p).head?, d ≠ 48 := by simpa using hc
        refine ⟨zero, c :: p, ?_, List.suffix_refl _, scan_flag zero hhead⟩
        rw [List.cons_append, scanZeros, if_neg hc]

theorem scanWidth_eq (zero : Bool) (width : ℕ) {p : Bytes} (hp : 0 ∉ p) :
    ∃ width' q, scanWidth (Int32.ofNat width) (p ++ [0]) = .ok (Int32.ofNat width', q ++ [0]) ∧
      q <:+ p ∧ (∀ c ∈ q.head?, ¬IsDigit c) ∧
        scan (.digits zero width) p = scan (.digits zero width') q := by
  induction p generalizing width with
  | nil =>
      refine ⟨width, [], ?_, List.suffix_refl _, by simp, rfl⟩
      exact if_neg not_isDigit_zero
  | cons c p ih =>
      by_cases hc : IsDigit c
      · obtain ⟨width', q, hcode, hsuffix, hhead, hscan⟩ :=
          ih (width * 10 + (c.toNat - 48)) fun h ↦ hp (List.mem_cons_of_mem c h)
        have hnext : Int32.ofNat width * 10 + Int32.ofNat (c.toNat - 48) =
            Int32.ofNat (width * 10 + (c.toNat - 48)) := by
          rw [Int32.ofNat_add, Int32.ofNat_mul]
          rfl
        refine ⟨width', q, ?_, hsuffix.trans (List.suffix_cons c p), hhead, ?_⟩
        · rw [List.cons_append, scanWidth, if_pos hc, hnext]
          exact hcode
        · rw [scan_width_digit zero width hc, hscan]
      · refine ⟨width, c :: p, ?_, List.suffix_refl _, by simpa using hc, rfl⟩
        rw [List.cons_append, scanWidth, if_neg hc]

theorem scanSize_eq (zero : Bool) (width : ℕ) {p : Bytes} (hhead : ∀ c ∈ p.head?, ¬IsDigit c) :
    ∃ size q, scanSize (p ++ [0]) = .ok (size, q ++ [0]) ∧ q <:+ p ∧
      (q = [] → scan (.digits zero width) p = ([], true)) ∧
        ∀ c r, q = c :: r → scan (.digits zero width) p =
          (.conversion zero width size c :: (scan .text r).1, (scan .text r).2) := by
  cases p with
  | nil =>
      exact ⟨false, [], rfl, List.suffix_refl _, fun _ ↦ rfl, fun _ _ h ↦ by cases h⟩
  | cons c p =>
      by_cases hc : c = 122
      · subst hc
        refine ⟨true, p, rfl, List.suffix_cons 122 p, ?_, ?_⟩
        · rintro rfl
          rw [scan_width_size]
          rfl
        · rintro d r rfl
          rw [scan_width_size, scan_size_conversion]
      · refine ⟨false, c :: p, ?_, List.suffix_refl _, ?_, ?_⟩
        · rw [List.cons_append, scanSize, if_neg hc]
        · intro h
          cases h
        · intro d r heq
          obtain ⟨rfl, rfl⟩ := List.cons.inj heq
          exact scan_width_conversion zero width (hhead c rfl) hc p

/-- What the loops over a conversion leave before the conversion character, or
before the NUL. -/
theorem scan_conversion {p : Bytes} (hp : 0 ∉ p) :
    ∃ zero width size q p₁ p₂, scanZeros false (p ++ [0]) = .ok (zero, p₁) ∧
      scanWidth 0 p₁ = .ok (Int32.ofNat width, p₂) ∧ scanSize p₂ = .ok (size, q ++ [0]) ∧
      q <:+ p ∧ (q = [] → scan .text (37 :: p) = ([], true)) ∧
        ∀ c r, q = c :: r → scan .text (37 :: p) =
          (.conversion zero width size c :: (scan .text r).1, (scan .text r).2) := by
  obtain ⟨zero, p₁, hzeros, hsuffix₁, hscan₁⟩ := scanZeros_eq false hp
  have hp₁ : 0 ∉ p₁ := fun h ↦ hp (hsuffix₁.subset h)
  obtain ⟨width, p₂, hwidth, hsuffix₂, hhead, hscan₂⟩ := scanWidth_eq zero 0 hp₁
  obtain ⟨size, q, hsize, hsuffix₃, hnil, hcons⟩ := scanSize_eq zero width hhead
  have hscan : scan .text (37 :: p) = scan (.digits zero width) p₂ :=
    (scan_percent p).trans (hscan₁.trans hscan₂)
  refine ⟨zero, width, size, q, p₁ ++ [0], p₂ ++ [0], hzeros, hwidth, hsize,
    (hsuffix₃.trans hsuffix₂).trans hsuffix₁, fun h ↦ hscan.trans (hnil h), fun c r h ↦ ?_⟩
  exact hscan.trans (hcons c r h)

/-! ## The loop over the format -/

/-- One conversion of the loop, up to its character. -/
theorem formatLoop_percent {p p₁ p₂ q : Bytes} {zero size : Bool} {width : Int32}
    (hzeros : scanZeros false p = .ok (zero, p₁)) (hwidth : scanWidth 0 p₁ = .ok (width, p₂))
    (hsize : scanSize p₂ = .ok (size, q)) (rounds : ℕ) (s : σ) (args : List VaArg) :
    formatLoop append (rounds + 1) s (37 :: p) args = (do
      let conversion ← deref q
      let done ← convert append s args zero width size conversion
      formatLoop append rounds done.1 q.tail done.2) := by
  have hnul : ¬(37 : UInt8) = 0 := by decide
  have hpercent : ¬(37 : UInt8) ≠ 37 := fun h ↦ h rfl
  have hround : formatLoop append (rounds + 1) s (37 :: p) args = (do
      let zeros ← scanZeros false p
      let width ← scanWidth 0 zeros.2
      let size ← scanSize width.2
      let conversion ← deref size.2
      let done ← convert append s args zeros.1 width.1 size.1 conversion
      formatLoop append rounds done.1 size.2.tail done.2) := rfl
  rw [hround, hzeros]
  change (do
      let width ← scanWidth 0 p₁
      let size ← scanSize width.2
      let conversion ← deref size.2
      let done ← convert append s args zero width.1 size.1 conversion
      formatLoop append rounds done.1 size.2.tail done.2) = _
  rw [hwidth]
  change (do
      let size ← scanSize p₂
      let conversion ← deref size.2
      let done ← convert append s args zero width size.1 conversion
      formatLoop append rounds done.1 size.2.tail done.2) = _
  rw [hsize]
  rfl

/-- A conversion takes its argument, if it has one, and the loop goes on behind it. -/
theorem formatLoop_conversion {rounds : ℕ} {r : Bytes}
    (hnext : ∀ args s, Matches r args → formatLoop append rounds s (r ++ [0]) args =
      if Unfinished r then .error .pastEnd else .ok ((fullText r args).foldl append s))
    {fmt : Bytes} {zero size : Bool} {width : ℕ} {d : UInt8}
    (hscan : scan .text fmt =
      (.conversion zero width size d :: (scan .text r).1, (scan .text r).2))
    {args : List VaArg} (hargs : Matches fmt args) (s : σ) :
    (do
      let done ← convert append s args zero (Int32.ofNat width) size d
      formatLoop append rounds done.1 (r ++ [0]) done.2) =
      if Unfinished fmt then .error .pastEnd
      else .ok ((fullText fmt args).foldl append s) := by
  have hpieces : pieces fmt = .conversion zero width size d :: pieces r :=
    congrArg Prod.fst hscan
  have hunfinished : Unfinished fmt ↔ Unfinished r := by
    rw [Unfinished, hscan, Unfinished]
  rw [Matches, hpieces] at hargs
  rw [fullText, hpieces]
  simp only [hunfinished]
  cases htype : argType (.conversion zero width size d) with
  | none =>
      have hrest : Matches r args := by
        rwa [List.filterMap_cons_none htype] at hargs
      rw [convert_plain append htype, assigned_plain htype, List.flatMap_cons, List.foldl_append]
      exact hnext args _ hrest
  | some t =>
      rw [List.filterMap_cons_some htype] at hargs
      cases args with
      | nil => cases hargs
      | cons a args =>
          obtain ⟨ha, hrest⟩ := List.cons.inj hargs
          rw [convert_arg append (htype.trans (congrArg some ha.symm)), assigned_arg htype,
            List.flatMap_cons, List.foldl_append]
          exact hnext args _ hrest

theorem formatLoop_eq (rounds : ℕ) {fmt : Bytes} (hrounds : fmt.length < rounds)
    (hnul : 0 ∉ fmt) {args : List VaArg} (hargs : Matches fmt args) (s : σ) :
    formatLoop append rounds s (fmt ++ [0]) args =
      if Unfinished fmt then .error .pastEnd
      else .ok ((fullText fmt args).foldl append s) := by
  induction rounds generalizing fmt args s with
  | zero => exact absurd hrounds (Nat.not_lt_zero _)
  | succ rounds ih =>
      cases fmt with
      | nil => rfl
      | cons c p =>
          have hp : 0 ∉ p := fun h ↦ hnul (List.mem_cons_of_mem c h)
          have hlen : p.length < rounds := Nat.lt_of_succ_lt_succ hrounds
          by_cases hc : c = 37
          · subst hc
            obtain ⟨zero, width, size, q, p₁, p₂, hzeros, hwidth, hsize, hsuffix, hnil, hcons⟩ :=
              scan_conversion hp
            rw [List.cons_append, formatLoop_percent append hzeros hwidth hsize]
            cases q with
            | nil =>
                -- the conversion character is the NUL, and the loop steps over it
                have hunfinished : Unfinished (37 :: p) := congrArg Prod.snd (hnil rfl)
                obtain ⟨rounds, rfl⟩ := Nat.exists_eq_succ_of_ne_zero (by omega : rounds ≠ 0)
                rw [if_pos hunfinished]
                rfl
            | cons d r =>
                have hr : 0 ∉ r := fun h ↦ hp (hsuffix.subset (List.mem_cons_of_mem d h))
                have hlen' : r.length < rounds := by
                  have hle := hsuffix.length_le
                  rw [List.length_cons] at hle
                  omega
                exact formatLoop_conversion append (fun args s hrest ↦ ih hlen' hr hrest s)
                  (hcons d r rfl) hargs s
          · have hc0 : c ≠ 0 := fun h ↦ hnul (h ▸ List.mem_cons_self)
            have hscan := scan_literal hc p
            have hpieces : pieces (c :: p) = .literal c :: pieces p := congrArg Prod.fst hscan
            have hunfinished : Unfinished (c :: p) ↔ Unfinished p := by
              rw [Unfinished, hscan, Unfinished]
            have hround : formatLoop append (rounds + 1) s (c :: p ++ [0]) args =
                formatLoop append rounds (append s c) (p ++ [0]) args :=
              (if_neg hc0).trans (if_pos hc)
            have hrest : Matches p args := by
              rwa [Matches, hpieces, List.filterMap_cons_none rfl] at hargs
            rw [hround, fullText, hpieces, assigned_plain rfl, List.flatMap_cons,
              List.foldl_append]
            simp only [hunfinished]
            exact ih hlen hp hrest _

theorem formatText_eq {fmt : Bytes} (hnul : 0 ∉ fmt) {args : List VaArg}
    (hargs : Matches fmt args) (s : σ) :
    formatText append s fmt args =
      if Unfinished fmt then .error .pastEnd
      else .ok ((fullText fmt args).foldl append s) :=
  formatLoop_eq append _ (by omega) hnul hargs s

/-! ## Buffers -/

/-- The full output: what is handed to `append_char`, in this order. -/
def produced (fmt : Bytes) (args : List VaArg) : Except FormatFault Bytes :=
  formatText (fun text c ↦ text ++ [c]) [] fmt args

theorem foldl_concat {α : Type*} (text more : List α) :
    more.foldl (fun text c ↦ text ++ [c]) text = text ++ more := by
  induction more generalizing text with
  | nil => rw [List.foldl_nil, List.append_nil]
  | cons c more ih => rw [List.foldl_cons, ih, List.append_assoc, List.singleton_append]

theorem produced_eq {fmt : Bytes} (hnul : 0 ∉ fmt) {args : List VaArg}
    (hargs : Matches fmt args) :
    produced fmt args =
      if Unfinished fmt then .error .pastEnd else .ok (fullText fmt args) := by
  have h := formatText_eq (fun text c ↦ text ++ [c]) hnul hargs ([] : Bytes)
  rw [foldl_concat, List.nil_append] at h
  exact h

theorem vsnprintf_eq {fmt : Bytes} (hnul : 0 ∉ fmt) (hfinished : ¬Unfinished fmt)
    {args : List VaArg} (hargs : Matches fmt args) (cap : UInt64) (buf : ℕ → UInt8)
    (hlen : (fullText fmt args).length < 2 ^ 64) :
    ∃ out, vsnprintf cap buf fmt args = .ok (Int32.ofNat (fullText fmt args).length, out) ∧
      out.Cut cap buf 0 (fullText fmt args) := by
  have hrun := formatText_eq (appendChar cap) hnul hargs (Sink.start buf)
  rw [if_neg hfinished] at hrun
  have hstart : (Sink.start buf).Holds cap buf [] := Sink.holds_start
  have hholds := hstart.puts (fullText fmt args) hlen
  rw [List.nil_append] at hholds
  refine ⟨_, ?_, hholds.close 0⟩
  rw [vsnprintf, hrun, ← hholds.pos]
  rfl

/-- The text is the same for every capacity, its length is returned, and the
buffer holds as much of it as fits before the NUL. -/
theorem vsnprintf_truncates (fmt : Bytes) (args : List VaArg) (hnul : 0 ∉ fmt)
    (hfinished : ¬Unfinished fmt) (hargs : Matches fmt args)
    (hlen : ∀ text, produced fmt args = .ok text → text.length < 2 ^ 31) :
    ∃ text, produced fmt args = .ok text ∧
      ∀ (cap : UInt64) (buf : ℕ → UInt8), ∃ n out, vsnprintf cap buf fmt args = .ok (n, out) ∧
        n.toInt = text.length ∧ out.Cut cap buf 0 text := by
  have htext : produced fmt args = .ok (fullText fmt args) := by
    rw [produced_eq hnul hargs, if_neg hfinished]
  have hshort := hlen _ htext
  refine ⟨fullText fmt args, htext, fun cap buf ↦ ?_⟩
  obtain ⟨out, hrun, hcut⟩ := vsnprintf_eq hnul hfinished hargs cap buf (by omega)
  exact ⟨_, out, hrun, Int32.toInt_ofNat_of_lt hshort, hcut⟩

/-- `%3u|%s` for 7 and `ab`. -/
theorem vsnprintf_truncates_padded :
    ∃ text, produced [37, 51, 117, 124, 37, 115] [.word 7, .string (some [97, 98])] = .ok text ∧
      ∀ (cap : UInt64) (buf : ℕ → UInt8), ∃ n out,
        vsnprintf cap buf [37, 51, 117, 124, 37, 115] [.word 7, .string (some [97, 98])] =
          .ok (n, out) ∧ n.toInt = text.length ∧ out.Cut cap buf 0 text := by
  apply vsnprintf_truncates
  · decide
  · decide
  · decide
  · intro text h
    have htext : produced [37, 51, 117, 124, 37, 115] [.word 7, .string (some [97, 98])] =
        .ok [32, 32, 55, 124, 97, 98] := by decide
    obtain rfl := Except.ok.inj (htext.symm.trans h)
    decide

/-- `sprintf` puts the whole text and its NUL behind `buf`. -/
theorem sprintf_writes {fmt : Bytes} (hnul : 0 ∉ fmt) (hfinished : ¬Unfinished fmt)
    {args : List VaArg} (hargs : Matches fmt args) (buf : ℕ → UInt8)
    (hlen : (fullText fmt args).length < 2 ^ 31) :
    ∃ n out, sprintf buf fmt args = .ok (n, out) ∧ n.toInt = (fullText fmt args).length ∧
      (∀ i, i < (fullText fmt args).length → (fullText fmt args)[i]? = some (out.cells i)) ∧
        out.cells (fullText fmt args).length = 0 ∧
          ∀ i, (fullText fmt args).length < i → out.cells i = buf i := by
  have hcap : (UInt64.ofNat (2 ^ 64 - 1)).toNat = 2 ^ 64 - 1 := rfl
  obtain ⟨out, hrun, hcut⟩ :=
    vsnprintf_eq hnul hfinished hargs (UInt64.ofNat (2 ^ 64 - 1)) buf (by omega)
  have hmin : min (fullText fmt args).length ((UInt64.ofNat (2 ^ 64 - 1)).toNat - 1) =
      (fullText fmt args).length := by
    rw [hcap]
    omega
  have hkept := hcut.kept
  have hended := hcut.ended (by decide)
  have hbeyond := hcut.beyond
  rw [hmin] at hkept hended hbeyond
  exact ⟨_, out, hrun, Int32.toInt_ofNat_of_lt hlen, hkept, hended,
    fun i hi ↦ hbeyond i (Or.inl hi)⟩

end Wallpiper.Loader
