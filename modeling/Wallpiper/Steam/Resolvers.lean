import Wallpiper.Steam.Proton

/-!
# Paths from the environment, and what is said when there is none

The programs resolve their paths from variables, with defaults under the Steam
root.  A resolver that fails is expected to leave a message, which its callers
print.  It does where nothing is found; a path that is found and does not fit the
buffer of the caller, or one on the way, is given up without a word.
-/

namespace Wallpiper.Steam

open Foundations Foundations.CText Foundations.NaturalOrder
open Capture (snprintf)

def wallpaperEngineAppId : Bytes := bytesOf "431960"

/-- A path below the Steam root, which is resolved into 768 bytes. -/
def belowSteamRoot (path : Bytes) (sys : System) (outLen errOutLen : ℕ) : PathResult :=
  match wpSteamRoot sys 768 errOutLen with
  | .error text => .error text
  | .ok steamRoot => fmtOk outLen (steamRoot ++ path)

def wpCompatdataDir : System → ℕ → ℕ → PathResult :=
  belowSteamRoot (bytesOf "/steamapps/compatdata/" ++ wallpaperEngineAppId)

def wpWorkshopContentDir : System → ℕ → ℕ → PathResult :=
  belowSteamRoot (bytesOf "/steamapps/workshop/content/" ++ wallpaperEngineAppId)

def wpWeConfigPath : System → ℕ → ℕ → PathResult :=
  belowSteamRoot (bytesOf "/steamapps/common/wallpaper_engine/config.json")

def weExePath (steamRoot : Bytes) : Bytes :=
  steamRoot ++ bytesOf "/steamapps/common/wallpaper_engine/wallpaper64.exe"

def wpWeExe (sys : System) (outLen errOutLen : ℕ) : PathResult :=
  match sys.override "WALLPIPER_WE_EXE" with
  | some exe => fmtOk outLen exe
  | none =>
      match wpSteamRoot sys 768 errOutLen with
      | .error text => .error text
      | .ok steamRoot =>
          match fmtOk 1024 (weExePath steamRoot) with
          | .error _ => .error (some (snprintf errOutLen (bytesOf "steam root path too long")))
          | .ok path =>
              if sys.isRegularFile path then fmtOk outLen path
              else
                .error (some (snprintf errOutLen
                  (bytesOf "Wallpaper Engine executable not found at " ++ path
                    ++ bytesOf ". set WALLPIPER_WE_EXE to its path")))

/-- What is in front of the last slash. -/
def beforeLastSlash (path : Bytes) : Option Bytes :=
  match path.reverse.dropWhile (· ≠ 47) with
  | [] => none
  | _ :: front => some front.reverse

def winePath (protonDir : Bytes) : Bytes := protonDir ++ bytesOf "/files/bin/wine"

def wpWineBin (qsort : QSort compareStringsDesc) (sys : System) (outLen errOutLen : ℕ) :
    PathResult :=
  match sys.override "WALLPIPER_WINE_BIN" with
  | some bin => fmtOk outLen bin
  | none =>
      match wpProtonBin qsort sys 1024 errOutLen with
      | .error text => .error text
      | .ok proton =>
          match beforeLastSlash proton with
          | none =>
              .error (some (snprintf errOutLen
                (bytesOf "could not derive wine binary from proton path " ++ proton)))
          | some dir =>
              match fmtOk 1024 (winePath dir) with
              | .error _ => .error (some (snprintf errOutLen (bytesOf "proton path too long")))
              | .ok path =>
                  if sys.isRegularFile path then fmtOk outLen path
                  else
                    .error (some (snprintf errOutLen
                      (bytesOf "wine binary not found at " ++ path
                        ++ bytesOf ". set WALLPIPER_WINE_BIN to its path")))

def noPortalText : Bytes :=
  bytesOf ("WALLPIPER_PORTAL not set. export WALLPIPER_PORTAL=<name> naming an installed "
    ++ "wallpiper-portal-<name> binary (e.g. WALLPIPER_PORTAL=hyprland)")

def wpPortalName (sys : System) (outLen errOutLen : ℕ) : PathResult :=
  match sys.getenv "WALLPIPER_PORTAL" with
  | none => .error (some (snprintf errOutLen noPortalText))
  | some portal => fmtOk outLen portal

inductive Resolver where
  | steamRoot
  | compatdataDir
  | workshopContentDir
  | weConfigPath
  | weExe
  | protonBin
  | wineBin
  | portalName
  deriving DecidableEq, Repr

def resolve (qsort : QSort compareStringsDesc) (sys : System) (outLen errOutLen : ℕ) :
    Resolver → PathResult
  | .steamRoot => wpSteamRoot sys outLen errOutLen
  | .compatdataDir => wpCompatdataDir sys outLen errOutLen
  | .workshopContentDir => wpWorkshopContentDir sys outLen errOutLen
  | .weConfigPath => wpWeConfigPath sys outLen errOutLen
  | .weExe => wpWeExe sys outLen errOutLen
  | .protonBin => wpProtonBin qsort sys outLen errOutLen
  | .wineBin => wpWineBin qsort sys outLen errOutLen
  | .portalName => wpPortalName sys outLen errOutLen

/-- A failure leaves a text with its terminator in the buffer. -/
def Explained (errOutLen : ℕ) (result : PathResult) : Prop :=
  ∀ text, result = .error text → ∃ message, text = some message ∧ message.length < errOutLen

/-! ## What the environment leads to -/

/-- The variable, or the first of the four places in the home directory. -/
def System.steamRoot (sys : System) : Option Bytes :=
  match sys.override "WALLPIPER_STEAM_ROOT" with
  | some root => some root
  | none =>
      ((sys.override "HOME").filter fun home ↦ home.length < 512).bind fun home ↦
        (steamRootCandidates home).find? sys.isDir

/-- The variable, or the first of the sorted candidates. -/
def System.protonBin (qsort : QSort compareStringsDesc) (sys : System) : Option Bytes :=
  match sys.override "WALLPIPER_PROTON_BIN" with
  | some bin => some bin
  | none =>
      sys.steamRoot.bind fun root ↦
        (qsort.sort (scanProtonCandidates sys (commonDir root) 64
          (scanProtonCandidates sys (toolsDir root) 64 []))).head?

/-- A path that the environment leads to is shorter than the buffer. -/
def FitsInto (outLen : ℕ) (path : Option Bytes) : Prop := ∀ p ∈ path, p.length < outLen

def ProtonFits (qsort : QSort compareStringsDesc) (sys : System) (outLen : ℕ) : Prop :=
  (sys.override "WALLPIPER_PROTON_BIN" = none → FitsInto 768 sys.steamRoot) ∧
    FitsInto outLen (sys.protonBin qsort)

/-- Whatever a resolver finds fits, on the way and in the end. -/
def Fits (qsort : QSort compareStringsDesc) (sys : System) (outLen : ℕ) : Resolver → Prop
  | .steamRoot => FitsInto outLen sys.steamRoot
  | .compatdataDir =>
      FitsInto 768 sys.steamRoot ∧
        FitsInto outLen (sys.steamRoot.map
          (· ++ (bytesOf "/steamapps/compatdata/" ++ wallpaperEngineAppId)))
  | .workshopContentDir =>
      FitsInto 768 sys.steamRoot ∧
        FitsInto outLen (sys.steamRoot.map
          (· ++ (bytesOf "/steamapps/workshop/content/" ++ wallpaperEngineAppId)))
  | .weConfigPath =>
      FitsInto 768 sys.steamRoot ∧
        FitsInto outLen (sys.steamRoot.map
          (· ++ bytesOf "/steamapps/common/wallpaper_engine/config.json"))
  | .weExe =>
      match sys.override "WALLPIPER_WE_EXE" with
      | some exe => exe.length < outLen
      | none =>
          FitsInto 768 sys.steamRoot ∧
            FitsInto outLen ((sys.steamRoot.map weExePath).filter sys.isRegularFile)
  | .protonBin => ProtonFits qsort sys outLen
  | .wineBin =>
      match sys.override "WALLPIPER_WINE_BIN" with
      | some bin => bin.length < outLen
      | none =>
          ProtonFits qsort sys 1024 ∧
            ∀ path ∈ ((sys.protonBin qsort).bind beforeLastSlash).map winePath,
              path.length < 1024 → sys.isRegularFile path = true → path.length < outLen
  | .portalName => ∀ portal ∈ sys.getenv "WALLPIPER_PORTAL", portal ≠ [] ∧ portal.length < outLen

/-! ## Formatting a path -/

theorem fmtOk_of_lt {n : ℕ} {path : Bytes} (hne : path ≠ []) (h : path.length < n) :
    fmtOk n path = .ok path := if_pos ⟨List.length_pos_of_ne_nil hne, h⟩

theorem fmtOk_of_le {n : ℕ} {path : Bytes} (h : n ≤ path.length) : fmtOk n path = .error none :=
  if_neg fun hfits ↦ absurd hfits.2 (Nat.not_lt.mpr h)

theorem not_explained_silent (errOutLen : ℕ) : ¬ Explained errOutLen (.error none) := by
  intro h
  obtain ⟨message, hmessage, -⟩ := h none rfl
  exact absurd hmessage (by simp)

theorem explained_ok (errOutLen : ℕ) (path : Bytes) : Explained errOutLen (.ok path) :=
  fun text h ↦ absurd h (by simp)

theorem explained_fmtOk_iff (errOutLen : ℕ) {n : ℕ} {path : Bytes} (hne : path ≠ []) :
    Explained errOutLen (fmtOk n path) ↔ path.length < n := by
  by_cases h : path.length < n
  · rw [fmtOk_of_lt hne h]
    exact iff_of_true (explained_ok errOutLen path) h
  · rw [fmtOk_of_le (Nat.not_lt.mp h)]
    exact iff_of_false (not_explained_silent errOutLen) h

theorem append_ne_nil {path : Bytes} (h : path ≠ []) (more : Bytes) : path ++ more ≠ [] :=
  fun hnil ↦ h (List.append_eq_nil_iff.mp hnil).1

theorem System.override_ne_nil {sys : System} {name : String} {value : Bytes}
    (h : sys.override name = some value) : value ≠ [] := by
  rintro rfl
  exact absurd (Option.filter_eq_some_iff.mp h).2 (by decide)

section

variable {errOutLen : ℕ} (herr : 0 < errOutLen)
include herr

theorem explained_message (text : Bytes) :
    Explained errOutLen (.error (some (snprintf errOutLen text))) := by
  rintro _ ⟨rfl⟩
  refine ⟨_, rfl, ?_⟩
  have hlength := List.length_take_le (errOutLen - 1) text
  rw [snprintf]
  omega

end

/-- Whatever the size of the buffer, the path that is found is formatted, and a
message is left when none is. -/
structure Delivers (errOutLen : ℕ) (found : Option Bytes) (resolver : ℕ → PathResult) : Prop where
  path : ∀ path, found = some path → path ≠ [] ∧ ∀ outLen, resolver outLen = fmtOk outLen path
  message : found = none →
    ∃ text, ∀ outLen, resolver outLen = .error (some (snprintf errOutLen text))

theorem Delivers.of_some {errOutLen : ℕ} {path : Bytes} {resolver : ℕ → PathResult}
    (hne : path ≠ []) (h : ∀ outLen, resolver outLen = fmtOk outLen path) :
    Delivers errOutLen (some path) resolver :=
  ⟨fun _ hpath ↦ Option.some.inj hpath ▸ ⟨hne, h⟩, fun hnone ↦ absurd hnone (by simp)⟩

theorem Delivers.of_none {errOutLen : ℕ} {text : Bytes} {resolver : ℕ → PathResult}
    (h : ∀ outLen, resolver outLen = .error (some (snprintf errOutLen text))) :
    Delivers errOutLen none resolver :=
  ⟨fun _ hpath ↦ absurd hpath (by simp), fun _ ↦ ⟨text, h⟩⟩

section

variable {errOutLen : ℕ} (herr : 0 < errOutLen) {found : Option Bytes} {resolver : ℕ → PathResult}
include herr

theorem Delivers.explained_iff (h : Delivers errOutLen found resolver) (outLen : ℕ) :
    Explained errOutLen (resolver outLen) ↔ FitsInto outLen found := by
  cases found with
  | none =>
      obtain ⟨text, hresolver⟩ := h.message rfl
      rw [hresolver]
      exact iff_of_true (explained_message herr text) fun _ hp ↦ absurd hp (by simp)
  | some path =>
      obtain ⟨hne, hresolver⟩ := h.path path rfl
      rw [hresolver, explained_fmtOk_iff errOutLen hne, FitsInto]
      simp

/-- A resolver that goes on from the path that another one found. -/
theorem Delivers.explained_bind_iff (h : Delivers errOutLen found resolver) (n : ℕ)
    (next : Bytes → PathResult) :
    Explained errOutLen (match resolver n with
        | .error text => .error text
        | .ok path => next path) ↔
      FitsInto n found ∧ ∀ path ∈ found, path.length < n → Explained errOutLen (next path) := by
  cases found with
  | none =>
      obtain ⟨text, hresolver⟩ := h.message rfl
      rw [hresolver]
      exact iff_of_true (explained_message herr text)
        ⟨fun _ hp ↦ absurd hp (by simp), fun _ hp ↦ absurd hp (by simp)⟩
  | some path =>
      obtain ⟨hne, hresolver⟩ := h.path path rfl
      rw [hresolver, FitsInto]
      by_cases hlt : path.length < n
      · rw [fmtOk_of_lt hne hlt]
        simp [hlt]
      · rw [fmtOk_of_le (Nat.not_lt.mp hlt)]
        simp [hlt, not_explained_silent]

end

/-! ## The Steam root -/

theorem delivers_steamRoot (sys : System) (errOutLen : ℕ) :
    Delivers errOutLen sys.steamRoot fun outLen ↦ wpSteamRoot sys outLen errOutLen := by
  simp only [System.steamRoot, wpSteamRoot, wpHomeDir]
  cases hroot : sys.override "WALLPIPER_STEAM_ROOT" with
  | some root => exact .of_some (System.override_ne_nil hroot) fun _ ↦ rfl
  | none =>
      cases hhome : sys.override "HOME" with
      | none => exact .of_none fun _ ↦ rfl
      | some home =>
          have hne := System.override_ne_nil hhome
          by_cases hlt : home.length < 512
          · simp only [fmtOk_of_lt hne hlt, Option.filter_some, hlt, decide_true, if_true,
              Option.bind_some]
            cases hfind : (steamRootCandidates home).find? sys.isDir with
            | none => exact .of_none fun _ ↦ rfl
            | some root =>
                refine .of_some ?_ fun _ ↦ rfl
                obtain ⟨place, -, rfl⟩ := List.mem_map.mp (List.mem_of_find?_eq_some hfind)
                obtain ⟨c, rest, rfl⟩ := List.exists_cons_of_ne_nil hne
                exact List.cons_ne_nil _ _
          · simp only [fmtOk_of_le (Nat.not_lt.mp hlt), Option.filter_some, hlt, decide_false,
              Bool.false_eq_true, if_false, Option.bind_none]
            exact .of_none fun _ ↦ rfl

theorem ne_nil_of_mem_scanProtonCandidates {sys : System} {dir : Bytes} {maxCandidates : ℕ}
    {candidates : List Bytes} (h : ∀ c ∈ candidates, c ≠ []) :
    ∀ c ∈ scanProtonCandidates sys dir maxCandidates candidates, c ≠ [] := by
  rw [scanProtonCandidates]
  cases sys.readdir dir with
  | none => exact h
  | some names =>
      dsimp only
      fun_induction scanNames sys dir maxCandidates names candidates with
      | case1 => exact h
      | case2 _ _ _ _ ih => exact ih h
      | case3 => exact h
      | case4 _ _ _ _ _ _ ih => exact ih h
      | case5 _ _ _ _ _ _ _ ih =>
          refine ih (List.forall_mem_append.mpr ⟨h, List.forall_mem_singleton.mpr ?_⟩)
          simp [candidatePath]
      | case6 _ _ _ _ _ _ _ ih => exact ih h

theorem delivers_protonBin (qsort : QSort compareStringsDesc) {sys : System} (errOutLen : ℕ)
    (h : sys.override "WALLPIPER_PROTON_BIN" = none → FitsInto 768 sys.steamRoot) :
    Delivers errOutLen (sys.protonBin qsort) fun outLen ↦
      wpProtonBin qsort sys outLen errOutLen := by
  simp only [System.protonBin, wpProtonBin]
  cases hbin : sys.override "WALLPIPER_PROTON_BIN" with
  | some bin => exact .of_some (System.override_ne_nil hbin) fun _ ↦ rfl
  | none =>
      have hfits := h hbin
      cases hroot : sys.steamRoot with
      | none =>
          obtain ⟨text, htext⟩ := (delivers_steamRoot sys errOutLen).message hroot
          exact .of_none fun _ ↦ by rw [htext 768]
      | some root =>
          obtain ⟨hne, hresolver⟩ := (delivers_steamRoot sys errOutLen).path root hroot
          have hlt := hfits root hroot
          have hok : wpSteamRoot sys 768 errOutLen = .ok root :=
            (hresolver 768).trans (fmtOk_of_lt hne hlt)
          simp only [hok, Option.bind_some]
          cases hsort : qsort.sort (scanProtonCandidates sys (commonDir root) 64
              (scanProtonCandidates sys (toolsDir root) 64 [])) with
          | nil => exact .of_none fun _ ↦ rfl
          | cons candidate rest =>
              refine .of_some ?_ fun _ ↦ rfl
              apply ne_nil_of_mem_scanProtonCandidates
                (ne_nil_of_mem_scanProtonCandidates fun _ hmem ↦ absurd hmem List.not_mem_nil)
              exact (qsort.perm _).subset (hsort ▸ List.mem_cons_self)

/-- A Steam root that is too long is given up. -/
theorem wpProtonBin_silent (qsort : QSort compareStringsDesc) {sys : System} (errOutLen : ℕ)
    (h : ¬(sys.override "WALLPIPER_PROTON_BIN" = none → FitsInto 768 sys.steamRoot))
    {outLen : ℕ} : wpProtonBin qsort sys outLen errOutLen = .error none := by
  obtain ⟨hbin, hlong⟩ := Classical.not_imp.mp h
  simp only [FitsInto, not_forall] at hlong
  obtain ⟨root, hroot, hlong⟩ := hlong
  have hresolver := ((delivers_steamRoot sys errOutLen).path root hroot).2 768
  rw [fmtOk_of_le (Nat.not_lt.mp hlong)] at hresolver
  rw [wpProtonBin, hbin, hresolver]

/-! ## The resolvers -/

section

variable {errOutLen : ℕ} (herr : 0 < errOutLen)
include herr

theorem explained_belowSteamRoot_iff (path : Bytes) (sys : System) (outLen : ℕ) :
    Explained errOutLen (belowSteamRoot path sys outLen errOutLen) ↔
      FitsInto 768 sys.steamRoot ∧ FitsInto outLen (sys.steamRoot.map (· ++ path)) := by
  have hdelivers := delivers_steamRoot sys errOutLen
  refine (hdelivers.explained_bind_iff herr 768 _).trans (and_congr_right fun hfits ↦ ?_)
  cases hroot : sys.steamRoot with
  | none => simp [FitsInto]
  | some root =>
      have hne := append_ne_nil (hdelivers.path root hroot).1 path
      have hlt := hfits root hroot
      simp [FitsInto, hlt, explained_fmtOk_iff errOutLen hne]

/-- A path that is looked at before it is formatted. -/
theorem explained_checked_iff {n : ℕ} {path : Bytes} (hne : path ≠ []) (sys : System)
    (outLen : ℕ) (tooLong : Bytes) (missing : Bytes → Bytes) :
    Explained errOutLen (match fmtOk n path with
        | .error _ => .error (some (snprintf errOutLen tooLong))
        | .ok path =>
            if sys.isRegularFile path then fmtOk outLen path
            else .error (some (snprintf errOutLen (missing path)))) ↔
      (path.length < n → sys.isRegularFile path = true → path.length < outLen) := by
  by_cases hlt : path.length < n
  · rw [fmtOk_of_lt hne hlt]
    cases hfile : sys.isRegularFile path with
    | true => simp [hlt, hfile, explained_fmtOk_iff errOutLen hne]
    | false => simp [hfile, explained_message herr (missing path)]
  · rw [fmtOk_of_le (Nat.not_lt.mp hlt)]
    exact iff_of_true (explained_message herr tooLong) fun h ↦ absurd h hlt

theorem explained_wpWeExe_iff (qsort : QSort compareStringsDesc) (sys : System) (outLen : ℕ) :
    Explained errOutLen (wpWeExe sys outLen errOutLen) ↔ Fits qsort sys outLen .weExe := by
  have hdelivers := delivers_steamRoot sys errOutLen
  rw [wpWeExe, Fits]
  cases hexe : sys.override "WALLPIPER_WE_EXE" with
  | some exe => exact explained_fmtOk_iff errOutLen (System.override_ne_nil hexe)
  | none =>
      refine (hdelivers.explained_bind_iff herr 768 _).trans (and_congr_right fun hfits ↦ ?_)
      cases hroot : sys.steamRoot with
      | none => simp [FitsInto]
      | some root =>
          have hlt := hfits root hroot
          have hne : weExePath root ≠ [] := append_ne_nil (hdelivers.path root hroot).1 _
          have hshort : (weExePath root).length < 1024 := by
            have hsuffix : (bytesOf
              "/steamapps/common/wallpaper_engine/wallpaper64.exe").length = 50 := by decide
            rw [weExePath, List.length_append, hsuffix]
            omega
          have hchecked := explained_checked_iff herr (n := 1024) hne sys outLen
            (bytesOf "steam root path too long") fun path ↦
              bytesOf "Wallpaper Engine executable not found at " ++ path
                ++ bytesOf ". set WALLPIPER_WE_EXE to its path"
          simp only [Option.mem_some_iff, forall_eq', hlt, true_implies]
          refine hchecked.trans ?_
          cases hfile : sys.isRegularFile (weExePath root) with
          | true => simp [FitsInto, hfile, hshort]
          | false => simp [FitsInto, hfile]

theorem explained_wpProtonBin_iff (qsort : QSort compareStringsDesc) (sys : System)
    (outLen : ℕ) :
    Explained errOutLen (wpProtonBin qsort sys outLen errOutLen) ↔
      ProtonFits qsort sys outLen := by
  by_cases h : sys.override "WALLPIPER_PROTON_BIN" = none → FitsInto 768 sys.steamRoot
  · rw [ProtonFits, and_iff_right h]
    exact (delivers_protonBin qsort errOutLen h).explained_iff herr outLen
  · rw [wpProtonBin_silent qsort errOutLen h]
    exact iff_of_false (not_explained_silent errOutLen) fun hfits ↦ h hfits.1

theorem explained_wpWineBin_iff (qsort : QSort compareStringsDesc) (sys : System) (outLen : ℕ) :
    Explained errOutLen (wpWineBin qsort sys outLen errOutLen) ↔
      Fits qsort sys outLen .wineBin := by
  rw [wpWineBin, Fits]
  cases hbin : sys.override "WALLPIPER_WINE_BIN" with
  | some bin => exact explained_fmtOk_iff errOutLen (System.override_ne_nil hbin)
  | none =>
      by_cases h : sys.override "WALLPIPER_PROTON_BIN" = none → FitsInto 768 sys.steamRoot
      · rw [ProtonFits, and_iff_right h]
        refine ((delivers_protonBin qsort errOutLen h).explained_bind_iff herr 1024 _).trans
          (and_congr_right fun hfits ↦ ?_)
        cases hproton : sys.protonBin qsort with
        | none => simp
        | some proton =>
            have hlt := hfits proton hproton
            simp only [Option.mem_some_iff, forall_eq', hlt, true_implies, Option.bind_some]
            cases hdir : beforeLastSlash proton with
            | none => simp [explained_message herr]
            | some dir =>
                have hne : winePath dir ≠ [] :=
                  List.append_ne_nil_of_right_ne_nil dir (by decide)
                have hchecked := explained_checked_iff herr (n := 1024) hne sys outLen
                  (bytesOf "proton path too long") fun path ↦
                    bytesOf "wine binary not found at " ++ path
                      ++ bytesOf ". set WALLPIPER_WINE_BIN to its path"
                simp only [Option.map_some, Option.mem_some_iff, forall_eq']
                exact hchecked
      · rw [wpProtonBin_silent qsort errOutLen h]
        exact iff_of_false (not_explained_silent errOutLen) fun hfits ↦ h hfits.1.1

end

theorem explained_wpPortalName_iff {errOutLen : ℕ} (herr : 0 < errOutLen)
    (qsort : QSort compareStringsDesc) (sys : System) (outLen : ℕ) :
    Explained errOutLen (wpPortalName sys outLen errOutLen) ↔
      Fits qsort sys outLen .portalName := by
  rw [wpPortalName, Fits]
  cases hportal : sys.getenv "WALLPIPER_PORTAL" with
  | none => simp [explained_message herr]
  | some portal =>
      by_cases hne : portal = []
      · subst hne
        simp [fmtOk, not_explained_silent]
      · simp [explained_fmtOk_iff errOutLen hne, hne]

/-- A failing resolver leaves a message in the caller's error buffer, whatever the
environment and the file system are, exactly when what it finds fits its buffers. -/
theorem resolve_explained_iff (qsort : QSort compareStringsDesc) (sys : System) (outLen : ℕ)
    {errOutLen : ℕ} (herr : 0 < errOutLen) (r : Resolver) :
    Explained errOutLen (resolve qsort sys outLen errOutLen r) ↔ Fits qsort sys outLen r := by
  cases r with
  | steamRoot => exact (delivers_steamRoot sys errOutLen).explained_iff herr outLen
  | compatdataDir => exact explained_belowSteamRoot_iff herr _ sys outLen
  | workshopContentDir => exact explained_belowSteamRoot_iff herr _ sys outLen
  | weConfigPath => exact explained_belowSteamRoot_iff herr _ sys outLen
  | weExe => exact explained_wpWeExe_iff herr qsort sys outLen
  | protonBin => exact explained_wpProtonBin_iff herr qsort sys outLen
  | wineBin => exact explained_wpWineBin_iff herr qsort sys outLen
  | portalName => exact explained_wpPortalName_iff herr qsort sys outLen

/-- A system of which only the name of the portal is known. -/
def portalNamed (portal : Bytes) : System where
  getenv name := if name = "WALLPIPER_PORTAL" then some portal else none
  isDir _ := false
  isRegularFile _ := false
  readdir _ := none

theorem resolve_explained_iff_named :
    Explained 512 (resolve (QSort.mergeSort _) (portalNamed (bytesOf "kde")) 1024 512
      .portalName) := by
  refine (resolve_explained_iff (QSort.mergeSort _) (portalNamed (bytesOf "kde")) 1024
    (by decide) .portalName).mpr ?_
  rintro _ ⟨rfl⟩
  decide

/-- A variable that is set to nothing. -/
theorem empty_portal_not_explained :
    resolve (QSort.mergeSort _) (portalNamed []) 1024 512 .portalName = .error none ∧
      ¬ Explained 512 (resolve (QSort.mergeSort _) (portalNamed []) 1024 512 .portalName) :=
  ⟨rfl, not_explained_silent 512⟩

end Wallpiper.Steam
