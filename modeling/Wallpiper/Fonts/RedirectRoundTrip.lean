import Wallpiper.Fonts.Redirects

/-!
# Which paths are redirected

The daemon joins its entries with ';' and separates source and target with
'=', without quoting either.  The library finds the entries again exactly if
the directories leave these bytes alone.
-/

namespace Wallpiper.Fonts

open Foundations Foundations.CText Foundations.PathSpelling
open Capture (snprintf)

def redirectSource (fontsDir : Bytes) (r : FontRedirect) : Bytes := fontsDir ++ 47 :: r.filename

def redirectTarget (cacheDir : Bytes) (r : FontRedirect) : Bytes := cacheDir ++ 47 :: r.filename

/-- The redirects whose fonts were rewritten. -/
def FontSystem.available (sys : FontSystem) (cacheDir : Bytes) : List FontRedirect :=
  redirects.filter fun r ↦ sys.rewritten cacheDir r

/-- A path is redirected to the copy of the font that it names, in whatever
spelling, and no other path is redirected. -/
def RedirectsPaths (env fontsDir cacheDir : Bytes) (available : List FontRedirect) : Prop :=
  ∀ linkpath,
    (∀ r ∈ available, spelling linkpath = spelling (redirectSource fontsDir r) →
      wpFontRedirectTarget (some env) linkpath = some (redirectTarget cacheDir r)) ∧
    ((∀ r ∈ available, spelling linkpath ≠ spelling (redirectSource fontsDir r)) →
      wpFontRedirectTarget (some env) linkpath = none)

/-- The separators do not occur where they are taken for separators. -/
def Separable (fontsDir cacheDir : Bytes) : Prop :=
  59 ∉ fontsDir ∧ 61 ∉ fontsDir ∧ 59 ∉ cacheDir

instance (fontsDir cacheDir : Bytes) : Decidable (Separable fontsDir cacheDir) :=
  inferInstanceAs (Decidable (59 ∉ fontsDir ∧ 61 ∉ fontsDir ∧ 59 ∉ cacheDir))

/-! ## The file names -/

theorem filename_of_mem {r : FontRedirect} (hr : r ∈ redirects) :
    r.filename ≠ [] ∧ r.filename.length ≤ 12 ∧ ∀ c ∈ r.filename, c ≠ 47 ∧ c ≠ 59 ∧ c ≠ 61 := by
  have hall : ∀ r ∈ redirects,
      r.filename ≠ [] ∧ r.filename.length ≤ 12 ∧ ∀ c ∈ r.filename, c ≠ 47 ∧ c ≠ 59 ∧ c ≠ 61 := by
    decide +kernel
  exact hall r hr

theorem filename_injective {r r' : FontRedirect} (hr : r ∈ redirects) (hr' : r' ∈ redirects)
    (h : r.filename = r'.filename) : r = r' := by
  have hall : ∀ r ∈ redirects, ∀ r' ∈ redirects, r.filename = r'.filename → r = r' := by decide
  exact hall r hr r' hr' h

/-- A font's path determines the font. -/
theorem redirectSource_injective {fontsDir : Bytes} {r r' : FontRedirect} (hr : r ∈ redirects)
    (hr' : r' ∈ redirects)
    (h : spelling (redirectSource fontsDir r) = spelling (redirectSource fontsDir r')) :
    r = r' := by
  obtain ⟨hne, _, hbytes⟩ := filename_of_mem hr
  obtain ⟨hne', _, hbytes'⟩ := filename_of_mem hr'
  rw [redirectSource, redirectSource, spelling_append hne fun c hc ↦ (hbytes c hc).1,
    spelling_append hne' fun c hc ↦ (hbytes' c hc).1] at h
  exact filename_injective hr hr' (List.append_cancel_left h)

/-! ## Normalizing in a buffer -/

theorem normalizeFrom_zero (prevSlash : Bool) (path : Bytes) :
    normalizeFrom prevSlash 0 path = [] := by
  cases path <;> rfl

theorem normalizeFrom_cons_of_single {a c : UInt8} (h : Single a c) (room : ℕ) (path : Bytes) :
    normalizeFrom (a == 47) (room + 1) (c :: path) = c :: normalizeFrom (c == 47) room path := by
  rw [normalizeFrom]
  by_cases hc : c = 47
  · have ha : ¬ (a == 47) = true := by simpa using h.resolve_right fun hne ↦ hne hc
    rw [if_pos hc, if_neg ha, hc]
    rfl
  · have hfalse : (c == 47) = false := by simpa using hc
    rw [if_neg hc, hfalse]

theorem cons_normalizeFrom (a : UInt8) (room : ℕ) (path : Bytes) :
    a :: normalizeFrom (a == 47) room path = (path.destutter' Single a).take (room + 1) := by
  induction path generalizing a room with
  | nil => cases room <;> rfl
  | cons c path ih =>
      by_cases hac : Single a c
      · rw [List.destutter'_cons_pos _ hac, List.take_succ_cons]
        cases room with
        | zero => rw [normalizeFrom_zero, List.take_zero]
        | succ room => rw [normalizeFrom_cons_of_single hac, ih]
      · have hboth : a = 47 ∧ c = 47 := by
          unfold Single at hac
          push Not at hac
          exact hac
        rw [List.destutter'_cons_neg _ hac, ← ih]
        cases room with
        | zero => rw [normalizeFrom_zero, normalizeFrom_zero]
        | succ room =>
            rw [hboth.1, hboth.2]
            rfl

/-- What fits the buffer of a collapsed path is kept. -/
theorem wpNormalizePath_eq (outSize : ℕ) (path : Bytes) :
    wpNormalizePath outSize path = dropTrailing ((collapse path).take (outSize - 1)) := by
  have hcons := cons_normalizeFrom 0 (outSize - 1) path
  have htail := congrArg List.tail hcons
  rw [List.tail_cons, ← List.drop_one, List.drop_take, List.drop_one, Nat.add_sub_cancel,
    ← collapse_eq_tail] at htail
  rw [wpNormalizePath, ← htail]
  rfl

theorem length_collapse_le (path : Bytes) : (collapse path).length ≤ path.length :=
  (List.destutter_sublist _ path).length_le

theorem length_dropTrailing_le (path : Bytes) : (dropTrailing path).length ≤ path.length := by
  cases path with
  | nil => exact Nat.le_refl 0
  | cons c cs => exact Nat.succ_le_succ (List.rdropWhile_prefix _ cs).length_le

theorem wpNormalizePath_of_short {outSize : ℕ} {path : Bytes} (h : path.length < outSize) :
    wpNormalizePath outSize path = spelling path := by
  have hle := length_collapse_le path
  rw [wpNormalizePath_eq, List.take_of_length_le (by omega), spelling]

/-- A path is taken for a short one exactly if the spellings agree: a path that
is cut off stays too long. -/
theorem wpNormalizePath_eq_iff {outSize : ℕ} {path short : Bytes}
    (h : short.length + 2 < outSize) :
    wpNormalizePath outSize short = wpNormalizePath outSize path ↔
      spelling short = spelling path := by
  rw [@wpNormalizePath_of_short outSize short (by omega)]
  by_cases hfits : (collapse path).length ≤ outSize - 1
  · rw [wpNormalizePath_eq, List.take_of_length_le hfits, spelling, spelling]
  · have hshort : (spelling short).length ≤ short.length :=
      (length_dropTrailing_le _).trans (length_collapse_le short)
    have hchain : (collapse path).IsChain Single := List.isChain_destutter _ path
    have hlong := length_dropTrailing hchain
    have hcut := length_dropTrailing (hchain.take (outSize - 1))
    rw [List.length_take, ← wpNormalizePath_eq] at hcut
    constructor
    · intro heq
      have hlength := congrArg List.length heq
      omega
    · intro heq
      have hlength : (spelling short).length = (dropTrailing (collapse path)).length :=
        congrArg List.length heq
      omega

/-! ## The environment string -/

def redirectText (fontsDir cacheDir : Bytes) (r : FontRedirect) : Bytes :=
  redirectSource fontsDir r ++ 61 :: redirectTarget cacheDir r

section

variable {fontsDir cacheDir : Bytes}

theorem redirectDest_eq (hcache : cacheDir.length < 1024) {r : FontRedirect}
    (hr : r ∈ redirects) : redirectDest cacheDir r = redirectTarget cacheDir r := by
  have hname := (filename_of_mem hr).2.1
  rw [redirectDest, redirectTarget, Capture.snprintf, List.take_of_length_le]
  rw [List.length_append, List.length_cons]
  omega

theorem length_redirectText_le (hfonts : fontsDir.length < 1024) (hcache : cacheDir.length < 1024)
    {r : FontRedirect} (hr : r ∈ redirects) :
    (redirectText fontsDir cacheDir r).length ≤ 2098 := by
  have hname := (filename_of_mem hr).2.1
  simp only [redirectText, redirectSource, redirectTarget, List.length_append, List.length_cons]
  omega

/-- An entry that was rewritten is joined to those before it. -/
theorem appendRedirect_eq (sys : FontSystem) (hfonts : fontsDir.length < 1024)
    (hcache : cacheDir.length < 1024) {r : FontRedirect} (hr : r ∈ redirects)
    (hrewritten : sys.rewritten cacheDir r = true) {entries : List Bytes} {outLen : ℕ}
    (hroom : ([59].intercalate entries).length + 2100 ≤ outLen) :
    appendRedirect sys fontsDir cacheDir outLen ([59].intercalate entries, entries.isEmpty) r =
      .ok ([59].intercalate (entries ++ [redirectText fontsDir cacheDir r]), false) := by
  have hlength := length_redirectText_le hfonts hcache hr
  have hentry : redirectEntry fontsDir cacheDir entries.isEmpty r =
      (if entries.isEmpty then [] else [59]) ++ redirectText fontsDir cacheDir r := by
    simp only [redirectEntry, redirectDest_eq hcache hr, redirectText, redirectSource,
      List.append_assoc, List.cons_append]
  have hsep : (if entries.isEmpty then [] else [59] : Bytes).length ≤ 1 := by
    split <;> simp
  have hjoin : [59].intercalate entries ++ ((if entries.isEmpty then [] else [59]) ++
      redirectText fontsDir cacheDir r) =
        [59].intercalate (entries ++ [redirectText fontsDir cacheDir r]) := by
    cases entries with
    | nil => simp [List.intercalate]
    | cons e es =>
        rw [intercalate_concat [59] (List.cons_ne_nil e es)]
        simp
  have hnonempty : (redirectText fontsDir cacheDir r).length ≠ 0 := by
    simp [redirectText, redirectSource]
  have hshort : (redirectEntry fontsDir cacheDir entries.isEmpty r).length ≤ 2099 := by
    rw [hentry, List.length_append]
    omega
  have hfits : ¬ ((redirectEntry fontsDir cacheDir entries.isEmpty r).length = 0 ∨
      ([59].intercalate entries).length +
        (redirectEntry fontsDir cacheDir entries.isEmpty r).length ≥ outLen) := by
    rintro (hzero | hfull)
    · rw [hentry, List.length_append] at hzero
      omega
    · omega
  have hinside : ¬ (redirectEntry fontsDir cacheDir entries.isEmpty r).length > 2400 := by omega
  have hcopy : (snprintf 2400 (redirectEntry fontsDir cacheDir entries.isEmpty r) ++ [0]).take
      (redirectEntry fontsDir cacheDir entries.isEmpty r).length =
        redirectEntry fontsDir cacheDir entries.isEmpty r := by
    have hwhole : snprintf 2400 (redirectEntry fontsDir cacheDir entries.isEmpty r) =
        redirectEntry fontsDir cacheDir entries.isEmpty r := List.take_of_length_le (by omega)
    rw [hwhole, List.take_left]
  simp only [appendRedirect, hrewritten, Bool.true_eq_false, hfits, hinside, if_false, hcopy]
  rw [hentry, hjoin]

theorem length_intercalate_concat_le {entries : List Bytes} {entry : Bytes}
    (hsize : ([59].intercalate entries).length ≤ entries.length * 2100)
    (hentry : entry.length ≤ 2098) :
    ([59].intercalate (entries ++ [entry])).length ≤ (entries ++ [entry]).length * 2100 := by
  cases entries with
  | nil =>
      simp only [List.nil_append, List.intercalate_singleton, List.length_singleton]
      omega
  | cons e es =>
      rw [intercalate_concat [59] (List.cons_ne_nil e es)]
      simp only [List.length_append, List.length_singleton] at hsize ⊢
      omega

theorem foldlM_appendRedirect (sys : FontSystem) (hfonts : fontsDir.length < 1024)
    (hcache : cacheDir.length < 1024) {outLen : ℕ} {rs : List FontRedirect}
    (hrs : ∀ r ∈ rs, r ∈ redirects) {entries : List Bytes}
    (hsize : ([59].intercalate entries).length ≤ entries.length * 2100)
    (hroom : (entries.length + rs.length) * 2100 ≤ outLen) :
    ∃ first, rs.foldlM (appendRedirect sys fontsDir cacheDir outLen)
        ([59].intercalate entries, entries.isEmpty) =
      .ok ([59].intercalate (entries ++
        (rs.filter fun r ↦ sys.rewritten cacheDir r).map (redirectText fontsDir cacheDir)),
          first) := by
  induction rs generalizing entries with
  | nil => exact ⟨entries.isEmpty, by simp [pure, Except.pure]⟩
  | cons r rs ih =>
      have hr := hrs r List.mem_cons_self
      have hrest : ∀ r ∈ rs, r ∈ redirects := fun r' hr' ↦ hrs r' (List.mem_cons_of_mem r hr')
      have hroom' : ∀ n, n ≤ entries.length + (r :: rs).length → n * 2100 ≤ outLen :=
        fun n hn ↦ (Nat.mul_le_mul_right 2100 hn).trans hroom
      rw [List.length_cons] at hroom'
      by_cases hrewritten : sys.rewritten cacheDir r = true
      · have hnext := hroom' (entries.length + 1) (by omega)
        rw [Nat.add_one_mul] at hnext
        have hstep := appendRedirect_eq sys hfonts hcache hr hrewritten
          ((Nat.add_le_add_right hsize 2100).trans hnext)
        have hlength := length_redirectText_le hfonts hcache hr
        have hsize' := length_intercalate_concat_le hsize hlength
        have hlater : ((entries ++ [redirectText fontsDir cacheDir r]).length + rs.length) *
            2100 ≤ outLen := by
          rw [List.length_append, List.length_singleton]
          exact hroom' _ (by omega)
        obtain ⟨first, hfold⟩ := ih hrest hsize' hlater
        refine ⟨first, ?_⟩
        have hempty : (entries ++ [redirectText fontsDir cacheDir r]).isEmpty = false := by simp
        rw [hempty] at hfold
        rw [List.foldlM_cons, hstep, List.filter_cons_of_pos hrewritten, List.map_cons]
        simp only [bind, Except.bind, hfold, List.append_assoc, List.singleton_append]
      · have hstep : appendRedirect sys fontsDir cacheDir outLen
            ([59].intercalate entries, entries.isEmpty) r =
              .ok ([59].intercalate entries, entries.isEmpty) := by
          rw [appendRedirect, if_pos (Bool.not_eq_true _ ▸ hrewritten)]
        have hlater : (entries.length + rs.length) * 2100 ≤ outLen :=
          hroom' _ (by omega)
        obtain ⟨first, hfold⟩ := ih hrest hsize hlater
        refine ⟨first, ?_⟩
        rw [List.foldlM_cons, hstep, List.filter_cons_of_neg hrewritten]
        exact hfold

/-- The string lists the rewritten fonts. -/
theorem wpFontsEnvValue_eq (sys : FontSystem) (hfonts : fontsDir.length < 1024)
    (hcache : cacheDir.length < 1024) :
    wpFontsEnvValue sys (some fontsDir) (some cacheDir) 16384 =
      .ok ([59].intercalate ((sys.available cacheDir).map (redirectText fontsDir cacheDir))) := by
  have hroom : (([] : List Bytes).length + redirects.length) * 2100 ≤ 16384 := by decide
  obtain ⟨first, hfold⟩ :=
    foldlM_appendRedirect sys hfonts hcache (fun _ hr ↦ hr) (Nat.zero_le _) hroom
  have hstart : ([59].intercalate ([] : List Bytes), ([] : List Bytes).isEmpty) = ([], true) := rfl
  rw [hstart] at hfold
  rw [wpFontsEnvValue, hfold]
  rfl

/-! ## Finding a path again -/

theorem length_redirectSource (hfonts : fontsDir.length < 1024) {r : FontRedirect}
    (hr : r ∈ redirects) : (redirectSource fontsDir r).length + 2 < 4096 := by
  have hname := (filename_of_mem hr).2.1
  rw [redirectSource, List.length_append, List.length_cons]
  omega

theorem entryTarget_redirectText (hfonts : fontsDir.length < 1024)
    (hcache : cacheDir.length < 1024) (hsep : 61 ∉ fontsDir) {r : FontRedirect}
    (hr : r ∈ redirects) (linkpath : Bytes) :
    entryTarget (wpNormalizePath 4096 linkpath) (redirectText fontsDir cacheDir r) =
      if spelling (redirectSource fontsDir r) = spelling linkpath then
        some (redirectTarget cacheDir r) else none := by
  obtain ⟨_, hname, hbytes⟩ := filename_of_mem hr
  have hsource : ∀ b ∈ redirectSource fontsDir r, b ≠ 61 := by
    rintro b hb rfl
    rcases List.mem_append.mp hb with hb | hb
    · exact hsep hb
    · rcases List.mem_cons.mp hb with hb | hb
      · exact absurd hb (by decide)
      · exact (hbytes 61 hb).2.2 rfl
  have htarget : (redirectTarget cacheDir r).take 4095 = redirectTarget cacheDir r := by
    apply List.take_of_length_le
    rw [redirectTarget, List.length_append, List.length_cons]
    omega
  rw [entryTarget, redirectText, cutAt_append_cons hsource]
  simp only [wpNormalizePath_eq_iff (length_redirectSource hfonts hr), htarget]

/-- Without the separators in the directories, the entries are the fields. -/
theorem tokens_redirectText (hsep : Separable fontsDir cacheDir) {rs : List FontRedirect}
    (hne : rs ≠ []) (hrs : ∀ r ∈ rs, r ∈ redirects) :
    tokens (· == 59) ([59].intercalate (rs.map (redirectText fontsDir cacheDir))) =
      rs.map (redirectText fontsDir cacheDir) := by
  obtain ⟨hfonts, _, hcache⟩ := hsep
  apply tokens_intercalate (by decide) (by simpa using hne)
  · intro f hf
    obtain ⟨r, _, rfl⟩ := List.mem_map.mp hf
    simp [redirectText, redirectSource]
  · intro f hf c hc
    obtain ⟨r, hr, rfl⟩ := List.mem_map.mp hf
    obtain ⟨_, _, hbytes⟩ := filename_of_mem (hrs r hr)
    simp only [redirectText, redirectSource, redirectTarget, List.mem_append, List.mem_cons] at hc
    have hne : c ≠ 59 := by
      rintro rfl
      rcases hc with (hc | hc | hc) | hc | hc | hc | hc
      · exact hfonts hc
      · exact absurd hc (by decide)
      · exact (hbytes 59 hc).2.1 rfl
      · exact absurd hc (by decide)
      · exact hcache hc
      · exact absurd hc (by decide)
      · exact (hbytes 59 hc).2.1 rfl
    simpa using hne

theorem findSome?_congr {α β : Type*} {xs : List α} {f g : α → Option β}
    (h : ∀ x ∈ xs, f x = g x) : xs.findSome? f = xs.findSome? g := by
  induction xs with
  | nil => rfl
  | cons x xs ih =>
      rw [List.findSome?_cons, List.findSome?_cons, h x List.mem_cons_self,
        ih fun y hy ↦ h y (List.mem_cons_of_mem x hy)]

/-- Separable directories leave every path to its font. -/
theorem redirectsPaths_of_separable (hfonts : fontsDir.length < 1024)
    (hcache : cacheDir.length < 1024) (hsep : Separable fontsDir cacheDir)
    {rs : List FontRedirect} (hne : rs ≠ []) (hrs : ∀ r ∈ rs, r ∈ redirects) :
    RedirectsPaths ([59].intercalate (rs.map (redirectText fontsDir cacheDir))) fontsDir cacheDir
      rs := by
  intro linkpath
  have hnonempty : [59].intercalate (rs.map (redirectText fontsDir cacheDir)) ≠ [] := by
    intro hnil
    have htokens := tokens_redirectText hsep hne hrs
    rw [hnil] at htokens
    exact hne (List.map_eq_nil_iff.mp htokens.symm)
  have htarget : wpFontRedirectTarget
      (some ([59].intercalate (rs.map (redirectText fontsDir cacheDir)))) linkpath =
        rs.findSome? fun r ↦ if spelling (redirectSource fontsDir r) = spelling linkpath then
          some (redirectTarget cacheDir r) else none := by
    simp only [wpFontRedirectTarget]
    rw [if_neg hnonempty, tokens_redirectText hsep hne hrs, List.findSome?_map]
    exact findSome?_congr fun r hr ↦
      entryTarget_redirectText hfonts hcache hsep.2.1 (hrs r hr) linkpath
  rw [htarget]
  constructor
  · intro r hr heq
    cases hfind : rs.findSome? fun r ↦
        if spelling (redirectSource fontsDir r) = spelling linkpath then
          some (redirectTarget cacheDir r) else none with
    | none =>
        have hr' := List.findSome?_eq_none_iff.mp hfind r hr
        rw [if_pos heq.symm] at hr'
        exact absurd hr' (by simp)
    | some target =>
        obtain ⟨r', hr', htarget'⟩ := List.exists_of_findSome?_eq_some hfind
        split at htarget'
        · rename_i heq'
          have hsame := redirectSource_injective (hrs r' hr') (hrs r hr) (heq'.trans heq)
          rw [← htarget', hsame]
        · exact absurd htarget' (by simp)
  · intro hnone
    apply List.findSome?_eq_none_iff.mpr
    intro r hr
    exact if_neg fun heq ↦ hnone r hr heq.symm

/-- Redirecting one font's path takes separable directories. -/
theorem separable_of_redirected {env : Bytes} (hfonts : fontsDir.length < 1024)
    {r : FontRedirect} (hr : r ∈ redirects)
    (h : wpFontRedirectTarget (some env) (redirectSource fontsDir r) =
      some (redirectTarget cacheDir r)) : Separable fontsDir cacheDir := by
  simp only [wpFontRedirectTarget] at h
  split at h
  · exact absurd h (by simp)
  · obtain ⟨entry, hentry, htarget⟩ := List.exists_of_findSome?_eq_some h
    have hsep : 59 ∉ entry := fun hmem ↦ absurd (not_delim_of_mem_tokens hentry 59 hmem) (by simp)
    rw [entryTarget] at htarget
    split at htarget
    · exact absurd htarget (by simp)
    · rename_i source target hcut
      obtain ⟨hsplit, hsource⟩ := cutAt_eq_some hcut
      split at htarget
      · rename_i hsame
        have hspelling := (wpNormalizePath_eq_iff (length_redirectSource hfonts hr)).mp hsame.symm
        have hmem : ∀ c, c ≠ 47 → c ∈ fontsDir → c ∈ source := by
          intro c hc hin
          rw [← mem_spelling hc, ← hspelling, mem_spelling hc]
          exact List.mem_append_left _ hin
        have hcopied := Option.some.inj htarget
        refine ⟨?_, ?_, ?_⟩
        · intro hin
          exact hsep (hsplit ▸ List.mem_append_left _ (hmem 59 (by decide) hin))
        · intro hin
          exact hsource (hmem 61 (by decide) hin)
        · intro hin
          have hintarget : 59 ∈ target.take 4095 := hcopied ▸ List.mem_append_left _ hin
          apply hsep
          rw [hsplit]
          exact List.mem_append_right _ (List.mem_cons_of_mem _ (List.mem_of_mem_take hintarget))
      · exact absurd htarget (by simp)

end

/-- The environment string redirects the paths of the rewritten fonts, in every
spelling, and no others exactly if none was rewritten or the directories leave
the separators alone. -/
theorem redirectsPaths_iff (sys : FontSystem) {fontsDir cacheDir : Bytes}
    (hfonts : fontsDir.length < 1024) (hcache : cacheDir.length < 1024) :
    ∃ env, wpFontsEnvValue sys (some fontsDir) (some cacheDir) 16384 = .ok env ∧
      (RedirectsPaths env fontsDir cacheDir (sys.available cacheDir) ↔
        sys.available cacheDir = [] ∨ Separable fontsDir cacheDir) := by
  refine ⟨_, wpFontsEnvValue_eq sys hfonts hcache, ?_⟩
  have hmem : ∀ r ∈ sys.available cacheDir, r ∈ redirects :=
    fun r hr ↦ List.mem_of_mem_filter hr
  cases hav : sys.available cacheDir with
  | nil =>
      simp only [List.map_nil, true_or, iff_true]
      intro linkpath
      exact ⟨fun r hr ↦ absurd hr List.not_mem_nil, fun _ ↦ rfl⟩
  | cons r rs =>
      rw [hav] at hmem
      constructor
      · intro h
        have hr := hmem r List.mem_cons_self
        exact .inr (separable_of_redirected hfonts hr
          ((h (redirectSource fontsDir r)).1 r List.mem_cons_self rfl))
      · rintro (hnil | hsep)
        · exact absurd hnil (by simp)
        · exact redirectsPaths_of_separable hfonts hcache hsep (by simp) hmem

/-- A system with one sans-serif font, whose copies can all be written. -/
def sansOnly : FontSystem :=
  { targetsGet := fun generic ↦
      if generic = .sansRegular then some ⟨bytesOf "/usr/share/fonts/sans.ttf", 0⟩ else none
    writeRenamed := fun _ _ _ _ ↦ true }

theorem redirectsPaths_iff_sansOnly :
    ∃ env, wpFontsEnvValue sansOnly (some (bytesOf "/pfx/Fonts")) (some (bytesOf "/cache"))
        16384 = .ok env ∧
      (RedirectsPaths env (bytesOf "/pfx/Fonts") (bytesOf "/cache")
          (sansOnly.available (bytesOf "/cache")) ↔
        sansOnly.available (bytesOf "/cache") = [] ∨
          Separable (bytesOf "/pfx/Fonts") (bytesOf "/cache")) :=
  redirectsPaths_iff sansOnly (by decide) (by decide)

/-- In a directory with ';' in its name the entries fall apart. -/
theorem semicolon_splits_source :
    ∃ env, wpFontsEnvValue sansOnly (some (bytesOf "/a;b/Fonts")) (some (bytesOf "/cache"))
        16384 = .ok env ∧
      ¬ RedirectsPaths env (bytesOf "/a;b/Fonts") (bytesOf "/cache")
        (sansOnly.available (bytesOf "/cache")) := by
  refine ⟨bytesOf "/a;b/Fonts/arial.ttf=/cache/arial.ttf;/a;b/Fonts/tahoma.ttf=/cache/tahoma.ttf",
    by decide +kernel, ?_⟩
  intro h
  have hfound := (h (bytesOf "/a;b/Fonts/arial.ttf")).1
    ⟨bytesOf "arial.ttf", bytesOf "Arial", bytesOf "Regular", .sansRegular⟩ (by decide +kernel)
    (by decide +kernel)
  have hlost : wpFontRedirectTarget (some (bytesOf
      "/a;b/Fonts/arial.ttf=/cache/arial.ttf;/a;b/Fonts/tahoma.ttf=/cache/tahoma.ttf"))
        (bytesOf "/a;b/Fonts/arial.ttf") = none := by decide +kernel
  rw [hlost] at hfound
  exact absurd hfound (by simp)

end Wallpiper.Fonts
