import Wallpiper.Capture.WireFormat
import Wallpiper.Foundations.NaturalOrder

/-!
# Finding Proton

The Proton builds under the Steam root are collected from two directories in
the order in which these are enumerated, sorted by a comparison of strings that
reads their digits as numbers, and the first is taken.
-/

namespace Wallpiper.Steam

open Foundations Foundations.CText Foundations.NaturalOrder
open Capture (snprintf)

/-! ## Comparing names -/

/-- The first difference within `n` characters. -/
def strncmp : ℕ → Bytes → Bytes → ℤ
  | 0, _, _ => 0
  | n + 1, a, b =>
      if a.headD 0 ≠ b.headD 0 then ((a.headD 0).toNat : ℤ) - (b.headD 0).toNat
      else if a.headD 0 = 0 then 0
      else strncmp n a.tail b.tail

def naturalCompare : Bytes → Bytes → ℤ
  | c :: s, d :: t =>
      if c = 0 ∨ d = 0 then (c.toNat : ℤ) - d.toNat
      else if _ : isDigit c = true ∧ isDigit d = true then
        let aDigits := dropZeros ((c :: s).takeWhile isDigit)
        let bDigits := dropZeros ((d :: t).takeWhile isDigit)
        if aDigits.length ≠ bDigits.length then
          if aDigits.length < bDigits.length then -1 else 1
        else
          let cmp := strncmp aDigits.length aDigits bDigits
          if cmp ≠ 0 then cmp
          else naturalCompare ((c :: s).dropWhile isDigit) ((d :: t).dropWhile isDigit)
      else if c ≠ d then (c.toNat : ℤ) - d.toNat
      else naturalCompare s t
  | a, b => ((a.headD 0).toNat : ℤ) - (b.headD 0).toNat
termination_by a => a.length
decreasing_by
  · exact length_dropWhile_isDigit_lt (And.left ‹_›)
  · exact Nat.lt_succ_self _

def compareStringsDesc (a b : Bytes) : ℤ := naturalCompare b a

/-! ## Looking for Steam and Proton -/

/-- What the functions ask the system for.  `readdir` gives the names of a
directory in the order of its enumeration, and nothing where `opendir` fails. -/
structure System where
  getenv : String → Option Bytes
  isDir : Bytes → Bool
  isRegularFile : Bytes → Bool
  readdir : Bytes → Option (List Bytes)

/-- A path, or the text of the error where one is given. -/
abbrev PathResult := Except (Option Bytes) Bytes

def fmtOk (outLen : ℕ) (text : Bytes) : PathResult :=
  if 0 < text.length ∧ text.length < outLen then .ok text else .error none

/-- A variable that is set and not empty. -/
def System.override (sys : System) (name : String) : Option Bytes :=
  (sys.getenv name).filter fun value ↦ value.headD 0 ≠ 0

def wpHomeDir (sys : System) (outLen : ℕ) : PathResult :=
  match sys.override "HOME" with
  | none => .error none
  | some home => fmtOk outLen home

/-- The places of a Steam install in a home directory. -/
def steamRootCandidates (home : Bytes) : List Bytes :=
  ["/.local/share/Steam", "/.steam/steam", "/.steam/root",
    "/.var/app/com.valvesoftware.Steam/.local/share/Steam"].map
      fun place ↦ snprintf 768 (home ++ bytesOf place)

def noHomeText : Bytes := bytesOf "HOME is not set"

def noSteamText (candidates : List Bytes) : Bytes :=
  bytesOf "could not find a Steam install. set WALLPIPER_STEAM_ROOT to its path (checked "
    ++ (bytesOf ", ").intercalate candidates ++ bytesOf ")"

def wpSteamRoot (sys : System) (outLen errOutLen : ℕ) : PathResult :=
  match sys.override "WALLPIPER_STEAM_ROOT" with
  | some root => fmtOk outLen root
  | none =>
      match wpHomeDir sys 512 with
      | .error _ => .error (some (snprintf errOutLen noHomeText))
      | .ok home =>
          match (steamRootCandidates home).find? sys.isDir with
          | some root => fmtOk outLen root
          | none => .error (some (snprintf errOutLen (noSteamText (steamRootCandidates home))))

/-- The path of the program in one of the directories. -/
def candidatePath (dir name : Bytes) : Bytes := dir ++ 47 :: name ++ bytesOf "/proton"

/-- The loop over the names, with the candidates collected so far. -/
def scanNames (sys : System) (dir : Bytes) (maxCandidates : ℕ) :
    List Bytes → List Bytes → List Bytes
  | [], candidates => candidates
  | name :: names, candidates =>
      if name.headD 0 = 46 then scanNames sys dir maxCandidates names candidates
      else if maxCandidates ≤ candidates.length then candidates
      else if 1024 ≤ (candidatePath dir name).length then
        scanNames sys dir maxCandidates names candidates
      else if sys.isRegularFile (candidatePath dir name) then
        scanNames sys dir maxCandidates names (candidates ++ [candidatePath dir name])
      else scanNames sys dir maxCandidates names candidates

def scanProtonCandidates (sys : System) (dir : Bytes) (maxCandidates : ℕ)
    (candidates : List Bytes) : List Bytes :=
  match sys.readdir dir with
  | none => candidates
  | some names => scanNames sys dir maxCandidates names candidates

def toolsDir (steamRoot : Bytes) : Bytes :=
  snprintf 900 (steamRoot ++ bytesOf "/compatibilitytools.d")

def commonDir (steamRoot : Bytes) : Bytes :=
  snprintf 900 (steamRoot ++ bytesOf "/steamapps/common")

def noProtonText (steamRoot : Bytes) : Bytes :=
  bytesOf "no Proton build found under " ++ toolsDir steamRoot ++ bytesOf " or "
    ++ commonDir steamRoot ++ bytesOf (". Install Proton through Steam, or set "
      ++ "WALLPIPER_PROTON_BIN to a proton binary's path")

def wpProtonBin (qsort : QSort compareStringsDesc) (sys : System) (outLen errOutLen : ℕ) :
    PathResult :=
  match sys.override "WALLPIPER_PROTON_BIN" with
  | some bin => fmtOk outLen bin
  | none =>
      match wpSteamRoot sys 768 errOutLen with
      | .error text => .error text
      | .ok steamRoot =>
          let candidates := scanProtonCandidates sys (commonDir steamRoot) 64
            (scanProtonCandidates sys (toolsDir steamRoot) 64 [])
          match qsort.sort candidates with
          | [] => .error (some (snprintf errOutLen (noProtonText steamRoot)))
          | candidate :: _ => fmtOk outLen candidate

/-! ## The comparison orders the parts -/

theorem compares_strncmp {n : ℕ} {as bs : Bytes} (ha : as.length = n) (hb : bs.length = n)
    (hdigit : ∀ c ∈ as, isDigit c = true) :
    Compares (strncmp n as bs) (as.map UInt8.toNat) (bs.map UInt8.toNat) := by
  induction n generalizing as bs with
  | zero =>
      rw [List.length_eq_zero_iff.mp ha, List.length_eq_zero_iff.mp hb]
      exact Compares.refl _
  | succ n ih =>
      obtain ⟨c, as, rfl⟩ := List.exists_cons_of_length_eq_add_one ha
      obtain ⟨d, bs, rfl⟩ := List.exists_cons_of_length_eq_add_one hb
      have hc : c ≠ 0 := by
        rintro rfl
        exact absurd (hdigit 0 List.mem_cons_self) (by decide)
      have hrest := ih (Nat.succ.inj ha) (Nat.succ.inj hb)
        fun e he ↦ hdigit e (List.mem_cons_of_mem c he)
      by_cases hcd : c = d
      · subst hcd
        have hstep : strncmp (n + 1) (c :: as) (c :: bs) = strncmp n as bs := by
          simp [strncmp, hc]
        rw [hstep, List.map_cons, List.map_cons]
        exact hrest.cons_of_eq _
      · have hstep : strncmp (n + 1) (c :: as) (d :: bs) = (c.toNat : ℤ) - d.toNat := by
          simp [strncmp, hcd]
        have hne : c.toNat ≠ d.toNat := fun h ↦ hcd (UInt8.toNat_inj.mp h)
        have hbytes : Compares ((c.toNat : ℤ) - d.toNat) c.toNat d.toNat := by
          constructor <;> omega
        rw [hstep, List.map_cons, List.map_cons]
        exact hbytes.cons_of_ne (by omega)

theorem naturalCompare_end {a b : Bytes} (h : a.headD 0 = 0 ∨ b.headD 0 = 0) :
    naturalCompare a b = ((a.headD 0).toNat : ℤ) - (b.headD 0).toNat := by
  rcases a with _ | ⟨c, s⟩
  · rw [naturalCompare]
    exact fun c s d t hnil ↦ absurd hnil (List.cons_ne_nil c s).symm
  · rcases b with _ | ⟨d, t⟩
    · rw [naturalCompare]
      exact fun c s d t _ hnil ↦ absurd hnil (List.cons_ne_nil d t).symm
    · have hnul : c = 0 ∨ d = 0 := h
      rw [naturalCompare, if_pos hnul]
      rfl

theorem parts_eq_nil_of_head {s : Bytes} (h : s.headD 0 = 0) : parts s = [] := by
  rcases s with _ | ⟨c, s⟩
  · rw [parts]
  · rw [show c = 0 from h, parts_nul]

theorem parts_pos_of_head {s : Bytes} (h : s.headD 0 ≠ 0) : [] < parts s := by
  rcases s with _ | ⟨c, s⟩
  · exact absurd rfl h
  · have hc : c ≠ 0 := h
    obtain ⟨p, ps, hp⟩ := List.exists_cons_of_ne_nil (parts_ne_nil hc s)
    rw [hp]
    exact List.nil_lt_cons p ps

/-- A string that ends first is the smaller one. -/
theorem compares_end {a b : Bytes} (h : a.headD 0 = 0 ∨ b.headD 0 = 0) :
    Compares (naturalCompare a b) (parts a) (parts b) := by
  have hpos : ∀ {c : UInt8}, c ≠ 0 → 0 < c.toNat := by
    intro c hc
    exact Nat.pos_of_ne_zero fun h ↦ hc (UInt8.toNat_inj.mp h)
  have hzero : (0 : UInt8).toNat = 0 := rfl
  rw [naturalCompare_end h]
  by_cases ha : a.headD 0 = 0
  · rw [parts_eq_nil_of_head ha, ha, hzero]
    by_cases hb : b.headD 0 = 0
    · rw [parts_eq_nil_of_head hb, hb]
      exact Compares.refl _
    · have hlt := hpos hb
      exact Compares.of_lt (by omega) (parts_pos_of_head hb)
  · have hb : b.headD 0 = 0 := h.resolve_left ha
    have hlt := hpos ha
    rw [parts_eq_nil_of_head hb, hb, hzero]
    exact Compares.of_gt (by omega) (parts_pos_of_head ha)

/-- Two runs of digits decide, or leave it to what comes behind them. -/
theorem compares_runs {ds es s t : Bytes} {z : ℤ} (hdigit : ∀ d ∈ ds, isDigit d = true)
    (h : Compares z (parts s) (parts t)) :
    Compares
      (if ds.length ≠ es.length then if ds.length < es.length then -1 else 1
        else if strncmp ds.length ds es ≠ 0 then strncmp ds.length ds es else z)
      (runPart ds :: parts s) (runPart es :: parts t) := by
  by_cases hlength : ds.length = es.length
  · have hruns := compares_run_digits hlength (compares_strncmp rfl hlength.symm hdigit)
    rw [if_neg (not_not.mpr hlength)]
    by_cases hcmp : strncmp ds.length ds es = 0
    · rw [if_neg (not_not.mpr hcmp), hruns.zero.mp hcmp]
      exact h.cons_of_eq _
    · rw [if_pos hcmp]
      exact hruns.cons_of_ne hcmp
  · rw [if_pos hlength]
    refine (compares_run_length hlength).cons_of_ne ?_
    split <;> decide

theorem mem_dropZeros {c : UInt8} {ds : Bytes} (h : c ∈ dropZeros ds) : c ∈ ds := by
  fun_induction dropZeros ds with
  | case1 => exact h
  | case2 => exact h
  | case3 d ds ih => exact List.mem_cons_of_mem _ (ih h)
  | case4 => exact h

/-- Characters that differ decide, when not both are digits. -/
theorem compares_chars {c d : UInt8} {s t : Bytes} (hc : c ≠ 0) (hd : d ≠ 0) (hne : c ≠ d)
    (hdigit : ¬(isDigit c = true ∧ isDigit d = true)) :
    Compares ((c.toNat : ℤ) - d.toNat) (parts (c :: s)) (parts (d :: t)) := by
  have hdiff : (c.toNat : ℤ) - d.toNat ≠ 0 := by
    intro h
    exact hne (UInt8.toNat_inj.mp (by omega))
  cases hc' : isDigit c with
  | true =>
      have hd' : isDigit d = false := by simpa [hc'] using hdigit
      rw [parts_digit hc', parts_char hd hd']
      exact (compares_run_char hc' hd' _).cons_of_ne hdiff
  | false =>
      rw [parts_char hc hc']
      cases hd' : isDigit d with
      | true =>
          rw [parts_digit hd']
          exact (compares_char_run hc' hd' _).cons_of_ne hdiff
      | false =>
          rw [parts_char hd hd']
          exact (compares_char c d).cons_of_ne hdiff

theorem compares_naturalCompare (a b : Bytes) :
    Compares (naturalCompare a b) (parts a) (parts b) := by
  induction hn : a.length using Nat.strong_induction_on generalizing a b with
  | _ n ih =>
    by_cases hend : a.headD 0 = 0 ∨ b.headD 0 = 0
    · exact compares_end hend
    obtain ⟨ha, hb⟩ := not_or.mp hend
    rcases a with _ | ⟨c, s⟩
    · exact absurd rfl ha
    rcases b with _ | ⟨d, t⟩
    · exact absurd rfl hb
    have hnul : ¬(c = 0 ∨ d = 0) := hend
    rw [naturalCompare, if_neg hnul]
    by_cases hdigits : isDigit c = true ∧ isDigit d = true
    · have hlt := length_dropWhile_isDigit_lt (s := s) hdigits.1
      rw [dif_pos hdigits, parts_digit hdigits.1, parts_digit hdigits.2]
      refine compares_runs (fun e he ↦ ?_) (ih _ (by omega) _ _ rfl)
      exact List.mem_takeWhile_imp (mem_dropZeros he)
    · rw [dif_neg hdigits]
      by_cases hcd : c = d
      · subst hcd
        have hc : isDigit c = false := by simpa using hdigits
        have hc₀ : c ≠ 0 := ha
        rw [if_neg (not_not.mpr rfl), parts_char hc₀ hc, parts_char hc₀ hc]
        exact (ih s.length (by rw [← hn]; exact Nat.lt_succ_self _) s t rfl).cons_of_eq _
      · rw [if_pos hcd]
        exact compares_chars ha hb hcd hdigits

theorem totalPreorder_naturalCompare : TotalPreorder naturalCompare :=
  TotalPreorder.of_key parts compares_naturalCompare

theorem naturalCompare_eq_zero_iff (a b : Bytes) :
    naturalCompare a b = 0 ↔ SameUpToZeros (cString a) (cString b) := by
  rw [(compares_naturalCompare a b).zero, parts_eq_iff]

/-! ## The choice -/

/-- The program that a name of the directory leads to. -/
def candidateOf (sys : System) (dir name : Bytes) : Option Bytes :=
  if name.headD 0 ≠ 46 ∧ (candidatePath dir name).length < 1024 ∧
    sys.isRegularFile (candidatePath dir name) = true
  then some (candidatePath dir name) else none

def protonCandidates (sys : System) (dir : Bytes) : List Bytes :=
  ((sys.readdir dir).getD []).filterMap (candidateOf sys dir)

/-- As long as there is room every candidate is taken. -/
theorem scanNames_eq {sys : System} {dir : Bytes} {maxCandidates : ℕ}
    {names candidates : List Bytes}
    (h : candidates.length + (names.filterMap (candidateOf sys dir)).length ≤ maxCandidates) :
    scanNames sys dir maxCandidates names candidates =
      candidates ++ names.filterMap (candidateOf sys dir) := by
  induction names generalizing candidates with
  | nil => exact (List.append_nil _).symm
  | cons name names ih =>
      rw [scanNames]
      cases hname : candidateOf sys dir name with
      | none =>
          rw [List.filterMap_cons_none hname] at h ⊢
          have hrest := ih h
          rw [candidateOf, ite_eq_right_iff] at hname
          split_ifs with hdot hfull hlong hfile
          · exact hrest
          · have hnone : names.filterMap (candidateOf sys dir) = [] :=
              List.length_eq_zero_iff.mp (by omega)
            rw [hnone, List.append_nil]
          · exact hrest
          · exact absurd (hname ⟨hdot, by omega, hfile⟩) (Option.some_ne_none _)
          · exact hrest
      | some path =>
          rw [List.filterMap_cons_some hname, List.length_cons] at h
          have hroom : (candidates ++ [path]).length +
              (names.filterMap (candidateOf sys dir)).length ≤ maxCandidates := by
            rw [List.length_append, List.length_singleton]
            omega
          have hrest := ih hroom
          obtain ⟨⟨hdot, hshort, hfile⟩, hpath⟩ := Option.ite_none_right_eq_some.mp hname
          rw [if_neg hdot, if_neg (by omega), if_neg (by omega), if_pos hfile,
            Option.some.inj hpath, hrest, List.filterMap_cons_some hname, List.append_assoc]
          rfl

theorem scanProtonCandidates_eq {sys : System} {dir : Bytes} {maxCandidates : ℕ}
    {candidates : List Bytes}
    (h : candidates.length + (protonCandidates sys dir).length ≤ maxCandidates) :
    scanProtonCandidates sys dir maxCandidates candidates =
      candidates ++ protonCandidates sys dir := by
  rw [protonCandidates] at h ⊢
  rw [scanProtonCandidates]
  cases hnames : sys.readdir dir with
  | none => exact (List.append_nil _).symm
  | some names =>
      rw [hnames] at h
      exact scanNames_eq h

/-- All candidates under a Steam root. -/
def allCandidates (sys : System) (steamRoot : Bytes) : List Bytes :=
  protonCandidates sys (toolsDir steamRoot) ++ protonCandidates sys (commonDir steamRoot)

/-- The choice is left to the function when no program is named by the
environment, the Steam root is known and there are candidates, at most as many
as it has room for. -/
structure Chooses (sys : System) (errOutLen : ℕ) (steamRoot : Bytes) : Prop where
  override : sys.override "WALLPIPER_PROTON_BIN" = none
  root : wpSteamRoot sys 768 errOutLen = .ok steamRoot
  nonempty : allCandidates sys steamRoot ≠ []
  room : (allCandidates sys steamRoot).length ≤ 64

theorem wpProtonBin_greatest (qsort : QSort compareStringsDesc) {sys : System}
    {errOutLen : ℕ} {steamRoot : Bytes} (h : Chooses sys errOutLen steamRoot) :
    ∃ p ∈ allCandidates sys steamRoot,
      (∀ q ∈ allCandidates sys steamRoot, naturalCompare q p ≤ 0) ∧
        ∀ outLen, wpProtonBin qsort sys outLen errOutLen = fmtOk outLen p := by
  have hroom := h.room
  rw [allCandidates, List.length_append] at hroom
  have htools := @scanProtonCandidates_eq sys (toolsDir steamRoot) 64 []
    (by rw [List.length_nil]; omega)
  have hscan : scanProtonCandidates sys (commonDir steamRoot) 64
      (scanProtonCandidates sys (toolsDir steamRoot) 64 []) = allCandidates sys steamRoot := by
    rw [htools, List.nil_append, scanProtonCandidates_eq hroom, allCandidates]
  obtain ⟨p, rest, hsort, hp, hleast⟩ :=
    qsort.head_least totalPreorder_naturalCompare.flip h.nonempty
  refine ⟨p, hp, hleast, fun outLen ↦ ?_⟩
  rw [wpProtonBin, h.override, h.root]
  dsimp only
  rw [hscan, hsort]

/-- The same system whose directories are enumerated in another order. -/
structure System.SameEntries (sys sys' : System) : Prop where
  getenv : sys'.getenv = sys.getenv
  isDir : sys'.isDir = sys.isDir
  isRegularFile : sys'.isRegularFile = sys.isRegularFile
  readdir : ∀ dir, Option.Rel List.Perm (sys.readdir dir) (sys'.readdir dir)

theorem System.SameEntries.allCandidates_perm {sys sys' : System} (h : sys.SameEntries sys')
    (steamRoot : Bytes) :
    (allCandidates sys steamRoot).Perm (allCandidates sys' steamRoot) := by
  have hdir : ∀ dir, (protonCandidates sys dir).Perm (protonCandidates sys' dir) := by
    intro dir
    have hof : candidateOf sys' dir = candidateOf sys dir := by
      funext name
      rw [candidateOf, candidateOf, h.isRegularFile]
    rw [protonCandidates, protonCandidates, hof]
    refine List.Perm.filterMap _ ?_
    have hnames := h.readdir dir
    revert hnames
    cases sys.readdir dir <;> cases sys'.readdir dir <;> intro hnames <;> cases hnames
    · exact List.Perm.refl _
    · assumption
  exact (hdir _).append (hdir _)

theorem System.SameEntries.chooses {sys sys' : System} {errOutLen : ℕ} {steamRoot : Bytes}
    (h : sys.SameEntries sys') (hchooses : Chooses sys errOutLen steamRoot) :
    Chooses sys' errOutLen steamRoot where
  override := by rw [System.override, h.getenv]; exact hchooses.override
  root := by
    rw [← hchooses.root]
    simp only [wpSteamRoot, wpHomeDir, System.override, h.getenv, h.isDir]
  nonempty := by
    intro hnil
    exact hchooses.nonempty (List.Perm.eq_nil (hnil ▸ h.allCandidates_perm steamRoot))
  room := by
    rw [← (h.allCandidates_perm steamRoot).length_eq]
    exact hchooses.room

/-- The comparison is a total preorder whose ties are the strings that differ
in leading zeros only.  The program chosen is a greatest candidate, and another
order of enumeration chooses one that ties with it. -/
theorem wpProtonBin_chooses_greatest :
    (∀ a b, (naturalCompare a b).sign = -(naturalCompare b a).sign) ∧
      (∀ a b c, naturalCompare a b ≤ 0 → naturalCompare b c ≤ 0 → naturalCompare a c ≤ 0) ∧
      (∀ a b, naturalCompare a b = 0 ↔ SameUpToZeros (cString a) (cString b)) ∧
      ∀ (qsort qsort' : QSort compareStringsDesc) (sys sys' : System) (errOutLen : ℕ)
        (steamRoot : Bytes), Chooses sys errOutLen steamRoot → sys.SameEntries sys' →
        ∃ p ∈ allCandidates sys steamRoot, ∃ p' ∈ allCandidates sys' steamRoot,
          (∀ q ∈ allCandidates sys steamRoot, naturalCompare q p ≤ 0) ∧
            naturalCompare p p' = 0 ∧
              ∀ outLen, wpProtonBin qsort sys outLen errOutLen = fmtOk outLen p ∧
                wpProtonBin qsort' sys' outLen errOutLen = fmtOk outLen p' := by
  refine ⟨totalPreorder_naturalCompare.swap, totalPreorder_naturalCompare.trans,
    naturalCompare_eq_zero_iff, fun qsort qsort' sys sys' errOutLen steamRoot hchooses hsame ↦ ?_⟩
  obtain ⟨p, hp, hgreatest, hchosen⟩ := wpProtonBin_greatest qsort hchooses
  obtain ⟨p', hp', hgreatest', hchosen'⟩ :=
    wpProtonBin_greatest qsort' (hsame.chooses hchooses)
  have hperm := hsame.allCandidates_perm steamRoot
  have hle : naturalCompare p p' ≤ 0 := hgreatest' p (hperm.mem_iff.mp hp)
  have hge : 0 ≤ naturalCompare p p' :=
    totalPreorder_naturalCompare.nonpos_swap (hgreatest p' (hperm.mem_iff.mpr hp'))
  exact ⟨p, hp, p', hp', hgreatest, by omega, fun outLen ↦ ⟨hchosen outLen, hchosen' outLen⟩⟩

/-- Two versions, listed in the one and the other order. -/
def twoVersions (names : List Bytes) : System where
  getenv name := if name = "WALLPIPER_STEAM_ROOT" then some (bytesOf "/steam") else none
  isDir _ := true
  isRegularFile _ := true
  readdir dir := if dir = bytesOf "/steam/steamapps/common" then some names else none

theorem wpProtonBin_chooses_greatest_twoVersions :
    ∃ p ∈ allCandidates (twoVersions [bytesOf "Proton 9", bytesOf "Proton 10"]) (bytesOf "/steam"),
      ∃ p', naturalCompare p p' = 0 ∧
        wpProtonBin (QSort.mergeSort _) (twoVersions [bytesOf "Proton 9", bytesOf "Proton 10"])
          1024 512 = fmtOk 1024 p ∧
        wpProtonBin (QSort.mergeSort _) (twoVersions [bytesOf "Proton 10", bytesOf "Proton 9"])
          1024 512 = fmtOk 1024 p' := by
  have hchooses : Chooses (twoVersions [bytesOf "Proton 9", bytesOf "Proton 10"]) 512
      (bytesOf "/steam") := by
    refine ⟨?_, ?_, ?_, ?_⟩ <;> decide
  have hsame : (twoVersions [bytesOf "Proton 9", bytesOf "Proton 10"]).SameEntries
      (twoVersions [bytesOf "Proton 10", bytesOf "Proton 9"]) := by
    refine ⟨rfl, rfl, rfl, fun dir ↦ ?_⟩
    rw [twoVersions, twoVersions]
    dsimp only
    split
    · exact Option.Rel.some (List.Perm.swap _ _ _)
    · exact Option.Rel.none
  obtain ⟨p, hp, p', -, -, hties, hchosen⟩ := wpProtonBin_chooses_greatest.2.2.2
    (QSort.mergeSort _) (QSort.mergeSort _) _ _ 512 _ hchooses hsame
  exact ⟨p, hp, p', hties, hchosen 1024⟩

end Wallpiper.Steam
