import Wallpiper.Loader.ImportTable

/-!
# The slot that is patched

Descriptors behind the first one of the DLL are not searched, and where there is
no original thunk table the start of the image is read as one.  So the right slot
is patched only if what the first descriptor shows is right for all of them.
-/

namespace Wallpiper.Loader

open Foundations Foundations.CText

/-! ## The first descriptor of the DLL -/

theorem DescriptorsAt.mem {mem : Memory} {a : ℤ} {ds : List ImportDescriptor}
    (h : DescriptorsAt mem a ds) : ∀ d ∈ ds, ∃ b, DescriptorAt mem b d := by
  induction ds generalizing a with
  | nil => exact List.forall_mem_nil _
  | cons d ds ih => exact List.forall_mem_cons.mpr ⟨⟨a, h.1⟩, ih h.2⟩

theorem DirectoryAt.mem {mem : Memory} {ds : List ImportDescriptor} (h : DirectoryAt mem ds) :
    ∀ d ∈ ds, ∃ b, DescriptorAt mem b d := by
  obtain ⟨lfanew, importDir, -, -, hds⟩ := h
  by_cases hzero : importDir = 0
  · rw [if_pos hzero] at hds
    rw [hds]
    exact List.forall_mem_nil _
  · rw [if_neg hzero] at hds
    exact hds.mem

/-- The slot of an import holds an address. -/
theorem IsSlot.value {mem : Memory} {ds : List ImportDescriptor} (hdir : DirectoryAt mem ds)
    {dllName funcName : Bytes} {slot : ℤ} (h : IsSlot ds dllName funcName slot) :
    ∃ v, v ≠ 0 ∧ mem.u64At slot = .ok v := by
  obtain ⟨d, hd, -, k, hk, rfl⟩ := h
  obtain ⟨b, hat⟩ := hdir.mem d hd
  obtain ⟨hlt, -⟩ := List.getElem?_eq_some_iff.mp hk
  exact hat.slots k hlt

section

variable {mem : Memory} {ds : List ImportDescriptor} {dllName funcName : Bytes}
  {replacement : UInt64}

theorem patchesRight_null (h : ¬Imported ds dllName funcName) :
    PatchesRight mem ds dllName funcName replacement (0, []) :=
  ⟨fun himported ↦ absurd himported h, ⟨fun _ ↦ h, fun _ ↦ rfl⟩, fun _ ↦ rfl⟩

theorem patchesRight_slot {slot : ℤ} (h : IsSlot ds dllName funcName slot) {v : UInt64}
    (hne : v ≠ 0) (hvalue : mem.u64At slot = .ok v) :
    PatchesRight mem ds dllName funcName replacement (v, [(slot, replacement)]) :=
  ⟨fun _ ↦ ⟨slot, h, rfl, hvalue⟩,
    ⟨fun hzero ↦ absurd hzero hne, fun hnone ↦ absurd ⟨slot, h⟩ hnone⟩,
    fun hnone ↦ absurd ⟨slot, h⟩ hnone⟩

/-- The first descriptor of the DLL is one, and what it imports is imported. -/
theorem imported_of_find {d : ImportDescriptor}
    (hfind : (ds.find? fun d ↦ SameName d.dll dllName) = some d) :
    d ∈ ds ∧ ∀ k : ℕ, d.imports[k]? = some (.name funcName) →
      IsSlot ds dllName funcName (d.slot k) := by
  have hmem := List.mem_of_find?_eq_some hfind
  have hsame : SameName d.dll dllName := by simpa using List.find?_some hfind
  exact ⟨hmem, fun k hk ↦ ⟨d, hmem, hsame, k, hk, rfl⟩⟩

theorem not_imported_of_find_none
    (hfind : (ds.find? fun d ↦ SameName d.dll dllName) = none) :
    ¬Imported ds dllName funcName := by
  rintro ⟨slot, d, hd, hsame, -⟩
  have hnot := List.find?_eq_none.mp hfind d hd
  exact hnot (by simpa using hsame)

end

section

variable {image : ModuleImage} {ds : List ImportDescriptor} {dllName funcName : Bytes}
  {replacement : UInt64}

/-- What `patch_iat` does where a descriptor names the DLL. -/
theorem ends_of_find
    (hcmp : ∀ a s, image.memory.StringAt a s → (image.lstrcmpi a dllName = 0 ↔ SameName s dllName))
    (hdir : DirectoryAt image.memory ds) {d : ImportDescriptor}
    (hfind : (ds.find? fun d ↦ SameName d.dll dllName) = some d) {patch : Patch}
    (h : ∃ enough, ∀ rounds, enough ≤ rounds →
      patchThunks image funcName replacement rounds d.originalFirstThunk.toNat
        d.firstThunk.toNat = .ok patch) :
    Ends image dllName funcName replacement patch := by
  obtain ⟨enough, h⟩ := h
  refine ⟨enough + ds.length + 1, fun rounds hrounds ↦ ?_⟩
  rw [patchIat_eq hcmp hdir rounds (by omega), hfind]
  exact h rounds (by omega)

theorem Ends.thunks
    (hcmp : ∀ a s, image.memory.StringAt a s → (image.lstrcmpi a dllName = 0 ↔ SameName s dllName))
    (hdir : DirectoryAt image.memory ds) {d : ImportDescriptor}
    (hfind : (ds.find? fun d ↦ SameName d.dll dllName) = some d) {patch : Patch}
    (h : Ends image dllName funcName replacement patch) :
    ∃ enough, ∀ rounds, enough ≤ rounds →
      patchThunks image funcName replacement rounds d.originalFirstThunk.toNat
        d.firstThunk.toNat = .ok patch := by
  obtain ⟨enough, h⟩ := h
  refine ⟨enough + ds.length + 1, fun rounds hrounds ↦ ?_⟩
  have hend := h rounds (by omega)
  rw [patchIat_eq hcmp hdir rounds (by omega), hfind] at hend
  exact hend

/-- A table without the name gives `NULL`. -/
theorem Ends.of_misses
    (hcmp : ∀ a s, image.memory.StringAt a s → (image.lstrcmpi a dllName = 0 ↔ SameName s dllName))
    (hdir : DirectoryAt image.memory ds) {d : ImportDescriptor}
    (hfind : (ds.find? fun d ↦ SameName d.dll dllName) = some d)
    (h : Misses image.memory funcName d.originalFirstThunk.toNat) :
    Ends image dllName funcName replacement (0, []) := by
  obtain ⟨enough, hrun⟩ := patchThunks_of_misses h
  exact ends_of_find hcmp hdir hfind ⟨enough, fun rounds hrounds ↦ hrun rounds hrounds _⟩

theorem Ends.unique {patch patch' : Patch} (h : Ends image dllName funcName replacement patch)
    (h' : Ends image dllName funcName replacement patch') : patch = patch' := by
  obtain ⟨enough, h⟩ := h
  obtain ⟨enough', h'⟩ := h'
  have hrun := h (max enough enough') (le_max_left _ _)
  rw [h' (max enough enough') (le_max_right _ _)] at hrun
  exact (Except.ok.inj hrun).symm

/-- The hit of a table is patched. -/
theorem Ends.of_hitsAt
    (hcmp : ∀ a s, image.memory.StringAt a s → (image.lstrcmpi a dllName = 0 ↔ SameName s dllName))
    (hprotect : ∀ slot, image.virtualProtect slot = true)
    (hdir : DirectoryAt image.memory ds) {d : ImportDescriptor}
    (hfind : (ds.find? fun d ↦ SameName d.dll dllName) = some d) {n : ℕ}
    (h : HitsAt image.memory funcName d.originalFirstThunk.toNat n) {v : UInt64}
    (hvalue : image.memory.u64At (d.slot n) = .ok v) :
    Ends image dllName funcName replacement (v, [(d.slot n, replacement)]) :=
  ends_of_find hcmp hdir hfind (patchThunks_of_hitsAt hprotect h hvalue)

/-- With an original thunk table. -/
theorem right_of_original
    (hcmp : ∀ a s, image.memory.StringAt a s → (image.lstrcmpi a dllName = 0 ↔ SameName s dllName))
    (hprotect : ∀ slot, image.virtualProtect slot = true)
    (hdir : DirectoryAt image.memory ds) (hfunc : 0 ∉ funcName) {d : ImportDescriptor}
    (hfind : (ds.find? fun d ↦ SameName d.dll dllName) = some d)
    (horiginal : d.original = true) :
    (∃ patch, Ends image dllName funcName replacement patch ∧
        PatchesRight image.memory ds dllName funcName replacement patch) ↔
      .name funcName ∈ d.imports ∨ ¬Imported ds dllName funcName := by
  obtain ⟨hmem, hslot⟩ := imported_of_find hfind
  obtain ⟨b, hat⟩ := hdir.mem d hmem
  obtain ⟨-, htable⟩ := hat.table horiginal
  by_cases hname : .name funcName ∈ d.imports
  · obtain ⟨n, hn, hhits⟩ := htable.hits hfunc hname
    obtain ⟨v, hne, hvalue⟩ := (hslot n hn).value hdir
    exact iff_of_true ⟨_, Ends.of_hitsAt hcmp hprotect hdir hfind hhits hvalue,
      patchesRight_slot (hslot n hn) hne hvalue⟩ (Or.inl hname)
  · have hend : Ends image dllName funcName replacement (0, []) :=
      Ends.of_misses hcmp hdir hfind (htable.misses hfunc hname)
    constructor
    · rintro ⟨patch, hends, hright⟩
      obtain rfl := hends.unique hend
      exact Or.inr (hright.null_iff.mp rfl)
    · rintro (hmem' | hnone)
      · exact absurd hmem' hname
      · exact ⟨_, hend, patchesRight_null hnone⟩

/-- Without one. -/
theorem right_of_no_original
    (hcmp : ∀ a s, image.memory.StringAt a s → (image.lstrcmpi a dllName = 0 ↔ SameName s dllName))
    (hprotect : ∀ slot, image.virtualProtect slot = true)
    (hdir : DirectoryAt image.memory ds) {d : ImportDescriptor}
    (hfind : (ds.find? fun d ↦ SameName d.dll dllName) = some d)
    (horiginal : d.original = false) :
    (∃ patch, Ends image dllName funcName replacement patch ∧
        PatchesRight image.memory ds dllName funcName replacement patch) ↔
      (Misses image.memory funcName 0 ∧ ¬Imported ds dllName funcName) ∨
        ∃ n, HitsAt image.memory funcName 0 n ∧ IsSlot ds dllName funcName (d.slot n) := by
  obtain ⟨b, hat⟩ := hdir.mem d (List.mem_of_find?_eq_some hfind)
  have hstart : (d.originalFirstThunk.toNat : ℤ) = 0 := by
    rw [hat.noTable horiginal]
    rfl
  constructor
  · rintro ⟨patch, hends, hright⟩
    obtain ⟨enough, hrun⟩ := hends.thunks hcmp hdir hfind
    rcases patchThunks_result hprotect (hrun enough le_rfl) with
      ⟨hmisses, rfl⟩ | ⟨n, hhits, hstore, -⟩
    · exact Or.inl ⟨hstart ▸ hmisses, hright.null_iff.mp rfl⟩
    · right
      refine ⟨n, hstart ▸ hhits, ?_⟩
      have himported : Imported ds dllName funcName := by
        by_contra hnone
        rw [hright.unchanged hnone] at hstore
        cases hstore
      obtain ⟨slot, hslot, hstore', -⟩ := hright.imported himported
      rw [hstore'] at hstore
      have hsame : slot = d.slot n := congrArg Prod.fst (List.cons.inj hstore).1
      exact hsame ▸ hslot
  · rintro (⟨hmisses, hnone⟩ | ⟨n, hhits, hslot⟩)
    · exact ⟨_, Ends.of_misses hcmp hdir hfind (hstart.symm ▸ hmisses), patchesRight_null hnone⟩
    · obtain ⟨v, hne, hvalue⟩ := hslot.value hdir
      exact ⟨_, Ends.of_hitsAt hcmp hprotect hdir hfind (hstart.symm ▸ hhits) hvalue,
        patchesRight_slot hslot hne hvalue⟩

end

/-- The memory after the stores. -/
def Patch.memory (mem : Memory) (patch : Patch) : Memory :=
  patch.2.foldl (fun m s ↦ m.store s.1 s.2) mem

/-- The slot holds the replacement, and what lies beside it is as before. -/
theorem PatchesRight.memory {mem : Memory} {ds : List ImportDescriptor}
    {dllName funcName : Bytes} {replacement : UInt64} {patch : Patch}
    (h : PatchesRight mem ds dllName funcName replacement patch)
    (himported : Imported ds dllName funcName) :
    ∃ slot, IsSlot ds dllName funcName slot ∧
      (Patch.memory mem patch).u64At slot = .ok replacement ∧
        ∀ a, slot + 8 ≤ a ∨ a + 8 ≤ slot → (Patch.memory mem patch).u64At a = mem.u64At a := by
  obtain ⟨slot, hslot, hstore, -⟩ := h.imported himported
  have hmem : Patch.memory mem patch = mem.store slot replacement := by
    rw [Patch.memory, hstore, List.foldl_cons, List.foldl_nil]
  refine ⟨slot, hslot, ?_, fun a ha ↦ ?_⟩
  · rw [hmem, Memory.u64At_store]
  · rw [hmem, Memory.u64At_store_of_apart ha]

/-- `patch_iat` patches the right slot exactly when the first descriptor of the
DLL shows what there is to patch. -/
theorem patchIat_right_iff (image : ModuleImage) (ds : List ImportDescriptor)
    (dllName funcName : Bytes) (replacement : UInt64) (hdir : DirectoryAt image.memory ds)
    (hfunc : 0 ∉ funcName)
    (hcmp : ∀ a s, image.memory.StringAt a s → (image.lstrcmpi a dllName = 0 ↔ SameName s dllName))
    (hprotect : ∀ slot, image.virtualProtect slot = true) :
    (∃ patch, Ends image dllName funcName replacement patch ∧
        PatchesRight image.memory ds dllName funcName replacement patch) ↔
      FirstServes image.memory ds dllName funcName := by
  cases hfind : ds.find? fun d ↦ SameName d.dll dllName with
  | none =>
      refine iff_of_true ⟨(0, []), ⟨ds.length + 1, fun rounds hrounds ↦ ?_⟩,
        patchesRight_null (not_imported_of_find_none hfind)⟩ ?_
      · rw [patchIat_eq hcmp hdir rounds (by omega), hfind]
      · intro d hd
        rw [hfind] at hd
        cases hd
  | some d =>
      have hserves : FirstServes image.memory ds dllName funcName ↔
          if d.original then .name funcName ∈ d.imports ∨ ¬Imported ds dllName funcName
          else (Misses image.memory funcName 0 ∧ ¬Imported ds dllName funcName) ∨
            ∃ n, HitsAt image.memory funcName 0 n ∧ IsSlot ds dllName funcName (d.slot n) := by
        refine ⟨fun h ↦ h d hfind, fun h d' hd' ↦ ?_⟩
        obtain rfl : d = d' := Option.some.inj (hfind.symm.trans hd')
        exact h
      rw [hserves]
      cases horiginal : d.original with
      | true =>
          rw [if_pos rfl]
          exact right_of_original hcmp hprotect hdir hfunc hfind horiginal
      | false =>
          rw [if_neg Bool.false_ne_true]
          exact right_of_no_original hcmp hprotect hdir hfind horiginal

/-! ## Two descriptors of one DLL -/

/-- A descriptor of `K` that imports `a`, and one of `k` that imports `b`. -/
def twiceNamed : List ImportDescriptor :=
  [⟨[75], [.name [97]], true, 286, 276, 318⟩, ⟨[75], [.name [98]], true, 302, 276, 334⟩]

/-- A small image with these two. -/
def twiceNamedMemory : Memory :=
  Memory.sparse (350 : ℕ)
    [(0, 77), (1, 90), (60, 64), (208, 216),
      (216, 30), (217, 1), (228, 20), (229, 1), (232, 62), (233, 1),
      (236, 46), (237, 1), (248, 20), (249, 1), (252, 78), (253, 1),
      (276, 75), (280, 97), (284, 98), (286, 22), (287, 1), (302, 26), (303, 1),
      (318, 16), (319, 32), (334, 48), (335, 32)]

def twiceNamedImage : ModuleImage where
  memory := twiceNamedMemory
  lstrcmpi a dllName := if SameName (twiceNamedMemory.stringFrom 350 a) dllName then 0 else 1
  virtualProtect _ := true

theorem twiceNamed_lstrcmpi (dllName : Bytes) (a : ℤ) (s : Bytes)
    (h : twiceNamedImage.memory.StringAt a s) :
    twiceNamedImage.lstrcmpi a dllName = 0 ↔ SameName s dllName := by
  have hread : twiceNamedMemory.stringFrom 350 a = s :=
    Memory.StringAt.stringFrom_eq h (Memory.StringAt.length_lt h)
  change (if SameName (twiceNamedMemory.stringFrom 350 a) dllName then (0 : ℤ) else 1) = 0 ↔ _
  rw [hread]
  split <;> simp_all

theorem stringAt_single {mem : Memory} {a : ℤ} {c : UInt8} (hc : c ≠ 0)
    (hbyte : mem a = some c) (hend : mem (a + 1) = some 0) : mem.StringAt a [c] := by
  refine ⟨by simpa using hc.symm, fun i hi ↦ ?_, by simpa using hend⟩
  obtain rfl : i = 0 := Nat.lt_one_iff.mp hi
  simpa using hbyte

/-- A descriptor with one import, by a name of one letter. -/
theorem descriptorAt_single {mem : Memory} {a : ℤ} {d : ImportDescriptor} {c : UInt8}
    (horiginal : mem.u32At a = .ok d.originalFirstThunk) (hname : mem.u32At (a + 12) = .ok d.name)
    (hfirst : mem.u32At (a + 16) = .ok d.firstThunk) (hne : d.name ≠ 0)
    (hdll : mem.StringAt d.name.toNat d.dll) (htable : d.original = true)
    (hoft : d.originalFirstThunk ≠ 0) (himports : d.imports = [.name [c]])
    (href : RefAt mem d.originalFirstThunk.toNat (.name [c]))
    (hend : mem.u64At (d.originalFirstThunk.toNat + 8) = .ok 0)
    (hslot : ∃ v, v ≠ 0 ∧ mem.u64At d.firstThunk.toNat = .ok v) : DescriptorAt mem a d := by
  refine ⟨horiginal, hname, hfirst, hne, hdll, fun _ ↦ ⟨hoft, ?_, ?_⟩, ?_, ?_⟩
  · intro k r hk
    rw [himports] at hk
    obtain ⟨hlt, hget⟩ := List.getElem?_eq_some_iff.mp hk
    obtain rfl : k = 0 := Nat.lt_one_iff.mp hlt
    rw [← hget]
    simpa using href
  · rw [himports]
    exact hend
  · intro hfalse
    rw [htable] at hfalse
    cases hfalse
  · intro k hk
    rw [himports] at hk
    obtain rfl : k = 0 := Nat.lt_one_iff.mp hk
    simpa [ImportDescriptor.slot] using hslot

theorem twiceNamed_directory : DirectoryAt twiceNamedMemory twiceNamed := by
  have hdll : twiceNamedMemory.StringAt 276 [75] :=
    stringAt_single (by decide) (by decide) (by decide)
  have ha : twiceNamedMemory.StringAt 280 [97] :=
    stringAt_single (by decide) (by decide) (by decide)
  have hb : twiceNamedMemory.StringAt 284 [98] :=
    stringAt_single (by decide) (by decide) (by decide)
  have hfirst : DescriptorAt twiceNamedMemory 216 ⟨[75], [.name [97]], true, 286, 276, 318⟩ :=
    descriptorAt_single (by decide) (by decide) (by decide) (by decide) hdll rfl (by decide)
      rfl ⟨278, by decide, by decide, by decide, ha⟩ (by decide) ⟨8208, by decide, by decide⟩
  have hsecond : DescriptorAt twiceNamedMemory 236 ⟨[75], [.name [98]], true, 302, 276, 334⟩ :=
    descriptorAt_single (by decide) (by decide) (by decide) (by decide) hdll rfl (by decide)
      rfl ⟨282, by decide, by decide, by decide, hb⟩ (by decide) ⟨8240, by decide, by decide⟩
  have hend : twiceNamedMemory.u32At 268 = .ok 0 := by decide
  refine ⟨64, 216, by decide, by decide, ?_⟩
  rw [if_neg (by decide)]
  exact ⟨hfirst, hsecond, hend⟩

/-- `a` is imported by the first descriptor. -/
theorem patchIat_right_iff_first :
    (∃ patch, Ends twiceNamedImage [107] [97] 16 patch ∧
        PatchesRight twiceNamedImage.memory twiceNamed [107] [97] 16 patch) ↔
      FirstServes twiceNamedImage.memory twiceNamed [107] [97] :=
  patchIat_right_iff twiceNamedImage twiceNamed [107] [97] 16 twiceNamed_directory (by decide)
    (twiceNamed_lstrcmpi [107]) fun _ ↦ rfl

/-- `b` is imported by the second one, which is not searched. -/
theorem second_descriptor_not_patched :
    DirectoryAt twiceNamedImage.memory twiceNamed ∧
      ¬∃ patch, Ends twiceNamedImage [107] [98] 16 patch ∧
        PatchesRight twiceNamedImage.memory twiceNamed [107] [98] 16 patch := by
  refine ⟨twiceNamed_directory, ?_⟩
  have hfind : (twiceNamed.find? fun d ↦ SameName d.dll [107]) =
      some ⟨[75], [.name [97]], true, 286, 276, 318⟩ := by decide
  rw [right_of_original (twiceNamed_lstrcmpi [107]) (fun _ ↦ rfl) twiceNamed_directory
    (by decide) hfind rfl]
  rintro (hname | hnone)
  · exact absurd hname (by decide)
  · exact hnone ⟨_, ⟨[75], [.name [98]], true, 302, 276, 334⟩, by decide, by decide, 0, rfl, rfl⟩

end Wallpiper.Loader
