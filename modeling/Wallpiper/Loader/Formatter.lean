import Wallpiper.Foundations.BoundedText
import Wallpiper.Foundations.CText

/-!
# The loader's formatter

`vsnprintf` and the functions under it.  All that they produce goes through
`append_char`, so they are written over any sink that takes characters.  The
format is read through its terminating NUL; what stands behind is not its own,
and a read there is a fault, as is a conversion that finds no argument of its
type.  Signed arithmetic wraps.
-/

namespace Wallpiper.Loader

open Foundations Foundations.CText

inductive FormatFault where
  /-- the format is read behind its terminating NUL -/
  | pastEnd
  /-- `va_arg` finds no argument of its type -/
  | noArgument
  /-- the bound on the rounds of the loop was too small -/
  | outOfRounds
  deriving DecidableEq, Repr

inductive VaArg where
  /-- an `int` or an `unsigned int` -/
  | word (v : UInt32)
  /-- a `size_t` -/
  | size (v : UInt64)
  /-- a `const char *`, with the memory that it points to -/
  | string (s : Option Bytes)
  /-- a `void *` -/
  | pointer (v : UInt64)
  deriving DecidableEq, Repr

def vaWord : List VaArg → Except FormatFault (UInt32 × List VaArg)
  | .word v :: args => .ok (v, args)
  | _ => .error .noArgument

def vaSize : List VaArg → Except FormatFault (UInt64 × List VaArg)
  | .size v :: args => .ok (v, args)
  | _ => .error .noArgument

def vaString : List VaArg → Except FormatFault (Option Bytes × List VaArg)
  | .string s :: args => .ok (s, args)
  | _ => .error .noArgument

def vaPointer : List VaArg → Except FormatFault (UInt64 × List VaArg)
  | .pointer v :: args => .ok (v, args)
  | _ => .error .noArgument

/-- `is_size ? (long long)va_arg(ap, size_t) : va_arg(ap, int)`. -/
def vaSigned (isSize : Bool) (args : List VaArg) : Except FormatFault (Int64 × List VaArg) :=
  if isSize then do
    let v ← vaSize args
    .ok (v.1.toInt64, v.2)
  else do
    let v ← vaWord args
    .ok (v.1.toInt32.toInt64, v.2)

/-- `is_size ? (unsigned long long)va_arg(ap, size_t) : va_arg(ap, unsigned int)`. -/
def vaUnsigned (isSize : Bool) (args : List VaArg) : Except FormatFault (UInt64 × List VaArg) :=
  if isSize then vaSize args
  else do
    let v ← vaWord args
    .ok (v.1.toUInt64, v.2)

/-- `0123456789abcdef`. -/
def lowerDigits : Bytes :=
  [48, 49, 50, 51, 52, 53, 54, 55, 56, 57, 97, 98, 99, 100, 101, 102]

/-- `0123456789ABCDEF`. -/
def upperDigits : Bytes :=
  [48, 49, 50, 51, 52, 53, 54, 55, 56, 57, 65, 66, 67, 68, 69, 70]

/-- What the loop over `v` puts in `digits`, when there is room for so many more. -/
def digitLoop (tab : Bytes) (base : UInt64) : ℕ → UInt64 → Bytes
  | 0, _ => []
  | room + 1, v =>
      if 0 < v then tab.getD (v % base).toNat 0 :: digitLoop tab base room (v / base) else []

/-- `digits`, the last digit first. -/
def uintDigits (v base : UInt64) (upper : Bool) : Bytes :=
  if v = 0 then [48] else digitLoop (if upper then upperDigits else lowerDigits) base 32 v

/-- `(null)`. -/
def nullText : Bytes := [40, 110, 117, 108, 108, 41]

section

variable {σ : Type} (append : σ → UInt8 → σ)

def appendStr (s : σ) : Bytes → σ
  | [] => s
  | c :: cs => if c = 0 then s else appendStr (append s c) cs

def appendUint (s : σ) (v base : UInt64) (upper : Bool) (width : Int32) (zeroPad : Bool) : σ :=
  let digits := uintDigits v base upper
  let pads := (width.toInt - digits.length).toNat
  let padded := (List.replicate pads (if zeroPad then 48 else 32)).foldl append s
  digits.reverse.foldl append padded

/-- The `switch` over the conversion character. -/
def convert (s : σ) (args : List VaArg) (zeroPad : Bool) (width : Int32) (isSize : Bool)
    (c : UInt8) : Except FormatFault (σ × List VaArg) :=
  if c = 115 then do
    let v ← vaString args
    .ok (appendStr append s (v.1.getD nullText), v.2)
  else if c = 100 then do
    let v ← vaSigned isSize args
    if v.1 < 0 then
      .ok (appendUint append (append s 45) (-v.1).toUInt64 10 false width zeroPad, v.2)
    else
      .ok (appendUint append s v.1.toUInt64 10 false width zeroPad, v.2)
  else if c = 117 then do
    let v ← vaUnsigned isSize args
    .ok (appendUint append s v.1 10 false width zeroPad, v.2)
  else if c = 120 then do
    let v ← vaUnsigned isSize args
    .ok (appendUint append s v.1 16 false width zeroPad, v.2)
  else if c = 88 then do
    let v ← vaUnsigned isSize args
    .ok (appendUint append s v.1 16 true width zeroPad, v.2)
  else if c = 112 then do
    let v ← vaPointer args
    .ok (appendUint append (appendStr append s [48, 120]) v.1 16 false 0 false, v.2)
  else if c = 37 then .ok (append s 37, args)
  else .ok (append (append s 37) c, args)

/-- `*p`. -/
def deref : Bytes → Except FormatFault UInt8
  | c :: _ => .ok c
  | [] => .error .pastEnd

/-- `while (*p == '0')`. -/
def scanZeros (zeroPad : Bool) : Bytes → Except FormatFault (Bool × Bytes)
  | [] => .error .pastEnd
  | c :: p => if c = 48 then scanZeros true p else .ok (zeroPad, c :: p)

/-- `while (*p >= '0' && *p <= '9')`. -/
def scanWidth (width : Int32) : Bytes → Except FormatFault (Int32 × Bytes)
  | [] => .error .pastEnd
  | c :: p =>
      if 48 ≤ c ∧ c ≤ 57 then scanWidth (width * 10 + Int32.ofNat (c.toNat - 48)) p
      else .ok (width, c :: p)

/-- `if (p[0] == 'z')`. -/
def scanSize : Bytes → Except FormatFault (Bool × Bytes)
  | [] => .error .pastEnd
  | c :: p => if c = 122 then .ok (true, p) else .ok (false, c :: p)

/-- The loop of `vsnprintf`, for a number of rounds that bounds it. -/
def formatLoop : ℕ → σ → Bytes → List VaArg → Except FormatFault σ
  | 0, _, _, _ => .error .outOfRounds
  | rounds + 1, s, p, args => do
      let c ← deref p
      if c = 0 then .ok s
      else if c ≠ 37 then formatLoop rounds (append s c) p.tail args
      else do
        let zeros ← scanZeros false p.tail
        let width ← scanWidth 0 zeros.2
        let size ← scanSize width.2
        let conversion ← deref size.2
        let done ← convert append s args zeros.1 width.1 size.1 conversion
        formatLoop rounds done.1 size.2.tail done.2

/-- The loop over the format, which is followed by its NUL. -/
def formatText (s : σ) (fmt : Bytes) (args : List VaArg) : Except FormatFault σ :=
  formatLoop append (fmt.length + 2) s (fmt ++ [0]) args

end

def appendChar (cap : UInt64) (out : Sink UInt8) (c : UInt8) : Sink UInt8 := out.put cap c

/-- The value returned and the memory from `buf` on. -/
def vsnprintf (cap : UInt64) (buf : ℕ → UInt8) (fmt : Bytes) (args : List VaArg) :
    Except FormatFault (Int32 × Sink UInt8) := do
  let out ← formatText (appendChar cap) (Sink.start buf) fmt args
  .ok (Int32.ofNat out.pos.toNat, out.close cap 0)

def sprintf (buf : ℕ → UInt8) (fmt : Bytes) (args : List VaArg) :
    Except FormatFault (Int32 × Sink UInt8) :=
  vsnprintf (UInt64.ofNat (2 ^ 64 - 1)) buf fmt args

def snprintf (cap : UInt64) (buf : ℕ → UInt8) (fmt : Bytes) (args : List VaArg) :
    Except FormatFault (Int32 × Sink UInt8) :=
  vsnprintf cap buf fmt args

end Wallpiper.Loader
