import Wallpiper.Fonts.Sfnt
import Wallpiper.Foundations.PathSpelling

/-!
# Font redirects

The daemon rewrites system fonts under the names of Windows fonts and lists
where they are in one environment string.  The preload library reads the
string at every `symlink` call and looks for the path that is linked.  Strings
are the bytes before their NUL.
-/

namespace Wallpiper.Fonts

open Foundations Foundations.CText
open Capture (snprintf)

/-! ## The daemon -/

inductive FontGeneric where
  | sansRegular
  | sansBold
  | serifRegular
  | monoRegular
  | monoBold
  deriving DecidableEq, Repr

structure FontSource where
  path : Bytes
  index : UInt32
  deriving DecidableEq, Repr

structure FontRedirect where
  filename : Bytes
  family : Bytes
  subfamily : Bytes
  generic : FontGeneric
  deriving DecidableEq, Repr

def redirects : List FontRedirect :=
  [⟨bytesOf "arial.ttf", bytesOf "Arial", bytesOf "Regular", .sansRegular⟩,
    ⟨bytesOf "arialbd.ttf", bytesOf "Arial", bytesOf "Bold", .sansBold⟩,
    ⟨bytesOf "tahoma.ttf", bytesOf "Tahoma", bytesOf "Regular", .sansRegular⟩,
    ⟨bytesOf "tahomabd.ttf", bytesOf "Tahoma", bytesOf "Bold", .sansBold⟩,
    ⟨bytesOf "times.ttf", bytesOf "Times New Roman", bytesOf "Regular", .serifRegular⟩,
    ⟨bytesOf "cour.ttf", bytesOf "Courier New", bytesOf "Regular", .monoRegular⟩,
    ⟨bytesOf "courbd.ttf", bytesOf "Courier New", bytesOf "Bold", .monoBold⟩]

/-- What the daemon finds on the system: the fonts that `fc-match` reports, and
whether a renamed copy of one could be written to a path. -/
structure FontSystem where
  targetsGet : FontGeneric → Option FontSource
  writeRenamed : FontSource → Bytes → Bytes → Bytes → Bool

def redirectDest (cacheDir : Bytes) (r : FontRedirect) : Bytes :=
  snprintf 1200 (cacheDir ++ 47 :: r.filename)

/-- A renamed copy of the redirect's font was written. -/
def FontSystem.rewritten (sys : FontSystem) (cacheDir : Bytes) (r : FontRedirect) : Bool :=
  match sys.targetsGet r.generic with
  | none => false
  | some source => sys.writeRenamed source r.family r.subfamily (redirectDest cacheDir r)

/-- What is appended for one redirect; behind the first one a separator comes
before it. -/
def redirectEntry (fontsDir cacheDir : Bytes) (first : Bool) (r : FontRedirect) : Bytes :=
  (if first then [] else [59]) ++ fontsDir ++ 47 :: r.filename ++ 61 :: redirectDest cacheDir r

/-- `out` so far and whether it is still empty.  As many bytes are copied as the
whole text of an entry has, also where its buffer of 2400 bytes cuts it. -/
def appendRedirect (sys : FontSystem) (fontsDir cacheDir : Bytes) (outLen : ℕ)
    (st : Bytes × Bool) (r : FontRedirect) : Except FontFault (Bytes × Bool) :=
  if sys.rewritten cacheDir r = false then .ok st
  else
    let entry := redirectEntry fontsDir cacheDir st.2 r
    if entry.length = 0 ∨ st.1.length + entry.length ≥ outLen then .ok st
    else if entry.length > 2400 then .error .outOfBounds
    else .ok (st.1 ++ (snprintf 2400 entry ++ [0]).take entry.length, false)

/-- The directories are absent where they could not be found or did not fit
their buffers. -/
def wpFontsEnvValue (sys : FontSystem) (fontsDir cacheDir : Option Bytes) (outLen : ℕ) :
    Except FontFault Bytes :=
  match fontsDir, cacheDir with
  | some fontsDir, some cacheDir => do
      let st ← redirects.foldlM (appendRedirect sys fontsDir cacheDir outLen) ([], true)
      .ok st.1
  | _, _ => .error .rejected

/-! ## The preload library -/

/-- The loop over the bytes of a path, with room for a number of bytes. -/
def normalizeFrom : Bool → ℕ → Bytes → Bytes
  | _, 0, _ => []
  | _, _, [] => []
  | prevSlash, room + 1, c :: cs =>
      if c = 47 then
        if prevSlash = true then normalizeFrom true (room + 1) cs
        else c :: normalizeFrom true room cs
      else c :: normalizeFrom false room cs

def wpNormalizePath (outSize : ℕ) (path : Bytes) : Bytes :=
  PathSpelling.dropTrailing (normalizeFrom false (outSize - 1) path)

/-- The target of an entry for a path; an entry without '=' has none. -/
def entryTarget (normalizedLinkpath entry : Bytes) : Option Bytes :=
  match cutAt 61 entry with
  | none => none
  | some (source, target) =>
      if wpNormalizePath 4096 source = normalizedLinkpath then some (target.take 4095) else none

def wpFontRedirectTarget (redirects : Option Bytes) (linkpath : Bytes) : Option Bytes :=
  match redirects with
  | none => none
  | some redirects =>
      if redirects = [] then none
      else
        (tokens (· == 59) redirects).findSome? (entryTarget (wpNormalizePath 4096 linkpath))

end Wallpiper.Fonts
