import Mathlib.Data.List.Basic
import Mathlib.Tactic.Ring
import Wallpiper.Foundations.MappedMemory

/-!
# Import tables

`patch_iat` walks the import descriptors of a module that is loaded, and in the
first one that names the DLL the original thunks next to the address slots.  A
directory is described by what it imports, and the memory that holds it by what
the image format says.  The loops end, and what they return is said by the thunks
that are passed over and the first that has the name.
-/

namespace Wallpiper.Loader

open Foundations Foundations.CText

/-- The memory from the image's base on, and what the system answers: how the
string at an address compares with the DLL's name, and whether the protection
of a slot can be changed. -/
structure ModuleImage where
  memory : Memory
  lstrcmpi : ℤ → Bytes → ℤ
  virtualProtect : ℤ → Bool

/-- The string at an address against a string that ends in NUL. -/
def namesEqual (mem : Memory) : ℤ → Bytes → Except MemoryFault Bool
  | a, [] => do
      let c ← mem.byteAt a
      .ok (c = 0)
  | a, b :: bs => do
      let c ← mem.byteAt a
      if c ≠ 0 ∧ c = b then namesEqual mem (a + 1) bs else .ok (c = b)

/-- `IMAGE_SNAP_BY_ORDINAL`. -/
def snapByOrdinal (ordinal : UInt64) : Bool := ordinal &&& 0x8000000000000000 ≠ 0

/-- The value returned, which is 0 for `NULL`, and what is stored to which slot. -/
abbrev Patch := UInt64 × List (ℤ × UInt64)

/-- The loop over the two thunk tables. -/
def patchThunks (image : ModuleImage) (funcName : Bytes) (replacement : UInt64) :
    ℕ → ℤ → ℤ → Except MemoryFault Patch
  | 0, _, _ => .error .outOfRounds
  | rounds + 1, origThunk, iatThunk => do
      let data ← image.memory.u64At origThunk
      if data = 0 then .ok (0, [])
      else if snapByOrdinal data then
        patchThunks image funcName replacement rounds (origThunk + 8) (iatThunk + 8)
      else do
        let equal ← namesEqual image.memory (data.toNat + 2) funcName
        if equal then do
          let original ← image.memory.u64At iatThunk
          if image.virtualProtect iatThunk then .ok (original, [(iatThunk, replacement)])
          else .ok (original, [])
        else patchThunks image funcName replacement rounds (origThunk + 8) (iatThunk + 8)

/-- The loop over the descriptors. -/
def patchDescriptors (image : ModuleImage) (dllName funcName : Bytes) (replacement : UInt64)
    (rounds : ℕ) : ℕ → ℤ → Except MemoryFault Patch
  | 0, _ => .error .outOfRounds
  | left + 1, desc => do
      let name ← image.memory.u32At (desc + 12)
      if name = 0 then .ok (0, [])
      else if image.lstrcmpi name.toNat dllName ≠ 0 then
        patchDescriptors image dllName funcName replacement rounds left (desc + 20)
      else do
        let originalFirstThunk ← image.memory.u32At desc
        let firstThunk ← image.memory.u32At (desc + 16)
        patchThunks image funcName replacement rounds originalFirstThunk.toNat firstThunk.toNat

/-- `e_lfanew` is at 60 in the DOS header, the address of the import directory
at 144 in the headers that it leads to. -/
def patchIat (image : ModuleImage) (dllName funcName : Bytes) (replacement : UInt64)
    (rounds : ℕ) : Except MemoryFault Patch := do
  let lfanew ← image.memory.u32At 60
  let importDir ← image.memory.u32At (lfanew.toInt32.toInt + 144)
  if importDir = 0 then .ok (0, [])
  else patchDescriptors image dllName funcName replacement rounds rounds importDir.toNat

/-! ## Import directories -/

inductive ImportRef where
  | ordinal (n : UInt16)
  | name (s : Bytes)
  deriving DecidableEq, Repr

structure ImportDescriptor where
  dll : Bytes
  imports : List ImportRef
  /-- whether there is an original thunk table -/
  original : Bool
  originalFirstThunk : UInt32
  name : UInt32
  firstThunk : UInt32
  deriving DecidableEq, Repr

def ImportDescriptor.slot (d : ImportDescriptor) (k : ℕ) : ℤ := d.firstThunk.toNat + 8 * k

def RefAt (mem : Memory) (a : ℤ) : ImportRef → Prop
  | .ordinal n => ∃ w, mem.u64At a = .ok w ∧ snapByOrdinal w = true ∧ w.toUInt16 = n
  | .name s => ∃ w, mem.u64At a = .ok w ∧ w ≠ 0 ∧ snapByOrdinal w = false ∧
      mem.StringAt (w.toNat + 2) s

structure TableAt (mem : Memory) (a : ℤ) (refs : List ImportRef) : Prop where
  entry : ∀ (k : ℕ) (r : ImportRef), refs[k]? = some r → RefAt mem (a + 8 * k) r
  ended : mem.u64At (a + 8 * refs.length) = .ok 0

/-- A descriptor of a module that is loaded: its slots hold addresses. -/
structure DescriptorAt (mem : Memory) (a : ℤ) (d : ImportDescriptor) : Prop where
  originalFirstThunk : mem.u32At a = .ok d.originalFirstThunk
  name : mem.u32At (a + 12) = .ok d.name
  firstThunk : mem.u32At (a + 16) = .ok d.firstThunk
  name_ne : d.name ≠ 0
  dll : mem.StringAt d.name.toNat d.dll
  table : d.original = true →
    d.originalFirstThunk ≠ 0 ∧ TableAt mem d.originalFirstThunk.toNat d.imports
  noTable : d.original = false → d.originalFirstThunk = 0
  slots : ∀ k < d.imports.length, ∃ v, v ≠ 0 ∧ mem.u64At (d.slot k) = .ok v

def DescriptorsAt (mem : Memory) : ℤ → List ImportDescriptor → Prop
  | a, [] => mem.u32At (a + 12) = .ok 0
  | a, d :: ds => DescriptorAt mem a d ∧ DescriptorsAt mem (a + 20) ds

def DirectoryAt (mem : Memory) (ds : List ImportDescriptor) : Prop :=
  ∃ lfanew importDir, mem.u32At 60 = .ok lfanew ∧
    mem.u32At (lfanew.toInt32.toInt + 144) = .ok importDir ∧
      if importDir = 0 then ds = [] else DescriptorsAt mem importDir.toNat ds

/-! ## What is to be patched -/

def upperCase (c : UInt8) : UInt8 := if 97 ≤ c ∧ c ≤ 122 then c - 32 else c

/-- The same name in some other case. -/
def SameName (a b : Bytes) : Prop := a.map upperCase = b.map upperCase

instance (a b : Bytes) : Decidable (SameName a b) := inferInstanceAs (Decidable (_ = _))

/-- The slot of an import of the function by name, in a descriptor of the DLL. -/
def IsSlot (ds : List ImportDescriptor) (dllName funcName : Bytes) (slot : ℤ) : Prop :=
  ∃ d ∈ ds, SameName d.dll dllName ∧
    ∃ k : ℕ, d.imports[k]? = some (.name funcName) ∧ slot = d.slot k

def Imported (ds : List ImportDescriptor) (dllName funcName : Bytes) : Prop :=
  ∃ slot, IsSlot ds dllName funcName slot

structure PatchesRight (mem : Memory) (ds : List ImportDescriptor) (dllName funcName : Bytes)
    (replacement : UInt64) (patch : Patch) : Prop where
  /-- one slot is stored to, it is such an import's, and its value is returned -/
  imported : Imported ds dllName funcName → ∃ slot, IsSlot ds dllName funcName slot ∧
    patch.2 = [(slot, replacement)] ∧ mem.u64At slot = .ok patch.1
  null_iff : patch.1 = 0 ↔ ¬Imported ds dllName funcName
  unchanged : ¬Imported ds dllName funcName → patch.2 = []

/-- The loops end, with any bound on their rounds that is large enough. -/
def Ends (image : ModuleImage) (dllName funcName : Bytes) (replacement : UInt64)
    (patch : Patch) : Prop :=
  ∃ enough, ∀ rounds, enough ≤ rounds →
    patchIat image dllName funcName replacement rounds = .ok patch

/-! ## When it is -/

/-- The thunk is passed over. -/
def Passed (mem : Memory) (funcName : Bytes) (a : ℤ) : Prop :=
  ∃ w, mem.u64At a = .ok w ∧ w ≠ 0 ∧
    (snapByOrdinal w = true ∨
      snapByOrdinal w = false ∧ namesEqual mem (w.toNat + 2) funcName = .ok false)

def Hit (mem : Memory) (funcName : Bytes) (a : ℤ) : Prop :=
  ∃ w, mem.u64At a = .ok w ∧ w ≠ 0 ∧ snapByOrdinal w = false ∧
    namesEqual mem (w.toNat + 2) funcName = .ok true

/-- The thunks from `a` on end and do not have the name. -/
def Misses (mem : Memory) (funcName : Bytes) (a : ℤ) : Prop :=
  ∃ n : ℕ, (∀ k : ℕ, k < n → Passed mem funcName (a + 8 * k)) ∧ mem.u64At (a + 8 * n) = .ok 0

/-- The `n`-th thunk from `a` on is the first with the name. -/
def HitsAt (mem : Memory) (funcName : Bytes) (a : ℤ) (n : ℕ) : Prop :=
  (∀ k : ℕ, k < n → Passed mem funcName (a + 8 * k)) ∧ Hit mem funcName (a + 8 * n)

/-- What the first descriptor of the DLL shows is right for all of them.  Where
it has no original thunks, those count that the start of the image spells. -/
def FirstServes (mem : Memory) (ds : List ImportDescriptor) (dllName funcName : Bytes) : Prop :=
  ∀ d, ds.find? (fun d ↦ SameName d.dll dllName) = some d →
    if d.original then .name funcName ∈ d.imports ∨ ¬Imported ds dllName funcName
    else (Misses mem funcName 0 ∧ ¬Imported ds dllName funcName) ∨
      ∃ n, HitsAt mem funcName 0 n ∧ IsSlot ds dllName funcName (d.slot n)

/-! ## The loops -/

theorem namesEqual_of_stringAt {mem : Memory} {a : ℤ} {s : Bytes} (h : mem.StringAt a s)
    {funcName : Bytes} (hfunc : 0 ∉ funcName) :
    namesEqual mem a funcName = .ok (s = funcName) := by
  induction funcName generalizing a s with
  | nil =>
      cases s with
      | nil => rw [namesEqual, h.nil]; rfl
      | cons c s =>
          obtain ⟨hc, hbyte⟩ := h.head
          rw [namesEqual, hbyte]
          change Except.ok (decide (c = 0)) = _
          simp [hc]
  | cons b bs ih =>
      have hb : b ≠ 0 := fun h ↦ hfunc (h ▸ List.mem_cons_self)
      cases s with
      | nil =>
          have hstop : ¬((0 : UInt8) ≠ 0 ∧ 0 = b) := fun hc ↦ hc.1 rfl
          rw [namesEqual, h.nil]
          change (if (0 : UInt8) ≠ 0 ∧ 0 = b then namesEqual mem (a + 1) bs
            else .ok ((0 : UInt8) = b)) = _
          rw [if_neg hstop]
          simp [hb.symm]
      | cons c s =>
          obtain ⟨hc, hbyte⟩ := h.head
          rw [namesEqual, hbyte]
          change (if c ≠ 0 ∧ c = b then _ else _) = _
          by_cases hcb : c = b
          · rw [if_pos ⟨hc, hcb⟩, ih h.tail fun hmem ↦ hfunc (List.mem_cons_of_mem b hmem)]
            simp [hcb]
          · rw [if_neg (fun h ↦ hcb h.2)]
            simp [hcb]

section

variable {image : ModuleImage} {funcName : Bytes} {replacement : UInt64}

theorem patchThunks_passed {a iat : ℤ} (h : Passed image.memory funcName a) (rounds : ℕ) :
    patchThunks image funcName replacement (rounds + 1) a iat =
      patchThunks image funcName replacement rounds (a + 8) (iat + 8) := by
  obtain ⟨w, hread, hne, hpass⟩ := h
  rw [patchThunks, hread]
  change (if w = 0 then _ else _) = _
  rw [if_neg hne]
  rcases hpass with hordinal | ⟨hordinal, hname⟩
  · rw [if_pos hordinal]
  · rw [hordinal, if_neg Bool.false_ne_true, hname]
    rfl

theorem patchThunks_ended {a : ℤ} (h : image.memory.u64At a = .ok 0) (rounds : ℕ) (iat : ℤ) :
    patchThunks image funcName replacement (rounds + 1) a iat = .ok (0, []) := by
  rw [patchThunks, h]
  rfl

theorem patchThunks_hit {a iat : ℤ} (h : Hit image.memory funcName a)
    (hprotect : ∀ slot, image.virtualProtect slot = true) (rounds : ℕ) :
    patchThunks image funcName replacement (rounds + 1) a iat = (do
      let original ← image.memory.u64At iat
      .ok (original, [(iat, replacement)])) := by
  obtain ⟨w, hread, hne, hordinal, hname⟩ := h
  rw [patchThunks, hread]
  change (if w = 0 then _ else _) = _
  rw [if_neg hne, hordinal, if_neg Bool.false_ne_true, hname]
  change (do
    let original ← image.memory.u64At iat
    if image.virtualProtect iat then .ok (original, [(iat, replacement)])
    else .ok (original, [])) = _
  simp only [hprotect iat, if_true]

/-- Thunks that are passed over, one after the other. -/
theorem patchThunks_passes {a iat : ℤ} {n : ℕ}
    (h : ∀ k : ℕ, k < n → Passed image.memory funcName (a + 8 * k)) (rounds : ℕ) :
    patchThunks image funcName replacement (rounds + n) a iat =
      patchThunks image funcName replacement rounds (a + 8 * n) (iat + 8 * n) := by
  induction n generalizing rounds with
  | zero => simp
  | succ n ih =>
      have hrest := ih (fun k hk ↦ h k (hk.trans n.lt_succ_self)) (rounds + 1)
      have hlast : patchThunks image funcName replacement (rounds + 1) (a + 8 * n) (iat + 8 * n) =
          patchThunks image funcName replacement rounds (a + 8 * n + 8) (iat + 8 * n + 8) :=
        patchThunks_passed (h n n.lt_succ_self) rounds
      have ha : a + 8 * ((n + 1 : ℕ) : ℤ) = a + 8 * n + 8 := by
        push_cast
        ring
      have hiat : iat + 8 * ((n + 1 : ℕ) : ℤ) = iat + 8 * n + 8 := by
        push_cast
        ring
      rw [ha, hiat, ← hlast, ← hrest]
      congr 1
      omega

theorem Misses.of_passed {a : ℤ} {mem : Memory} (h : Passed mem funcName a)
    (hrest : Misses mem funcName (a + 8)) : Misses mem funcName a := by
  obtain ⟨n, hpassed, hended⟩ := hrest
  refine ⟨n + 1, fun k hk ↦ ?_, ?_⟩
  · cases k with
    | zero => simpa using h
    | succ k =>
        have hk' := hpassed k (Nat.lt_of_succ_lt_succ hk)
        rwa [Nat.cast_add_one, mul_add, mul_one, add_comm (8 * (k : ℤ)), ← add_assoc]
  · rwa [Nat.cast_add_one, mul_add, mul_one, add_comm (8 * (n : ℤ)), ← add_assoc]

theorem HitsAt.of_passed {a : ℤ} {mem : Memory} {n : ℕ} (h : Passed mem funcName a)
    (hrest : HitsAt mem funcName (a + 8) n) : HitsAt mem funcName a (n + 1) := by
  obtain ⟨hpassed, hhit⟩ := hrest
  refine ⟨fun k hk ↦ ?_, ?_⟩
  · cases k with
    | zero => simpa using h
    | succ k =>
        have hk' := hpassed k (Nat.lt_of_succ_lt_succ hk)
        rwa [Nat.cast_add_one, mul_add, mul_one, add_comm (8 * (k : ℤ)), ← add_assoc]
  · rwa [Nat.cast_add_one, mul_add, mul_one, add_comm (8 * (n : ℤ)), ← add_assoc]

/-- What a readable thunk is to the loop. -/
theorem thunk_cases {mem : Memory} {a : ℤ} {w : UInt64} (hread : mem.u64At a = .ok w)
    (hne : w ≠ 0) :
    Passed mem funcName a ∨ Hit mem funcName a ∨
      snapByOrdinal w = false ∧ ∃ e, namesEqual mem (w.toNat + 2) funcName = .error e := by
  cases hordinal : snapByOrdinal w with
  | true => exact Or.inl ⟨w, hread, hne, Or.inl hordinal⟩
  | false =>
      cases hname : namesEqual mem (w.toNat + 2) funcName with
      | error e => exact Or.inr (Or.inr ⟨rfl, e, rfl⟩)
      | ok equal =>
          cases equal with
          | true => exact Or.inr (Or.inl ⟨w, hread, hne, hordinal, hname⟩)
          | false => exact Or.inl ⟨w, hread, hne, Or.inr ⟨hordinal, hname⟩⟩

/-- What the loop has found when it returns. -/
theorem patchThunks_result (hprotect : ∀ slot, image.virtualProtect slot = true) {rounds : ℕ}
    {a iat : ℤ} {patch : Patch}
    (h : patchThunks image funcName replacement rounds a iat = .ok patch) :
    (Misses image.memory funcName a ∧ patch = (0, [])) ∨
      ∃ n, HitsAt image.memory funcName a n ∧ patch.2 = [(iat + 8 * n, replacement)] ∧
        image.memory.u64At (iat + 8 * n) = .ok patch.1 := by
  induction rounds generalizing a iat with
  | zero => cases h
  | succ rounds ih =>
      cases hread : image.memory.u64At a with
      | error e =>
          rw [patchThunks, hread] at h
          cases h
      | ok w =>
          by_cases hzero : w = 0
          · subst hzero
            rw [patchThunks_ended hread] at h
            exact Or.inl ⟨⟨0, by simp, by simpa using hread⟩, (Except.ok.inj h).symm⟩
          · rcases @thunk_cases funcName _ _ _ hread hzero with hpassed | hhit | hfault
            · rw [patchThunks_passed hpassed] at h
              rcases ih h with ⟨hmisses, hpatch⟩ | ⟨n, hhits, hstore, hvalue⟩
              · exact Or.inl ⟨hmisses.of_passed hpassed, hpatch⟩
              · have hslot : iat + 8 + 8 * (n : ℤ) = iat + 8 * ((n + 1 : ℕ) : ℤ) := by
                  push_cast
                  ring
                rw [hslot] at hstore hvalue
                exact Or.inr ⟨n + 1, hhits.of_passed hpassed, hstore, hvalue⟩
            · rw [patchThunks_hit hhit hprotect] at h
              cases hslot : image.memory.u64At iat with
              | error e =>
                  rw [hslot] at h
                  cases h
              | ok original =>
                  rw [hslot] at h
                  obtain rfl := Except.ok.inj h
                  exact Or.inr ⟨0, ⟨by simp, by simpa using hhit⟩, by simp, by simpa using hslot⟩
            · obtain ⟨hordinal, e, hname⟩ := hfault
              rw [patchThunks, hread] at h
              change (if w = 0 then _ else _) = _ at h
              rw [if_neg hzero, hordinal, if_neg Bool.false_ne_true, hname] at h
              cases h

theorem patchThunks_of_misses {a : ℤ} (h : Misses image.memory funcName a) :
    ∃ enough, ∀ rounds, enough ≤ rounds → ∀ iat,
      patchThunks image funcName replacement rounds a iat = .ok (0, []) := by
  obtain ⟨n, hpassed, hended⟩ := h
  refine ⟨n + 1, fun rounds hrounds iat ↦ ?_⟩
  obtain ⟨more, rfl⟩ := Nat.exists_eq_add_of_le hrounds
  have hcount : n + 1 + more = more + 1 + n := by omega
  rw [hcount, patchThunks_passes hpassed, patchThunks_ended hended]

theorem patchThunks_of_hitsAt (hprotect : ∀ slot, image.virtualProtect slot = true) {a : ℤ}
    {n : ℕ} (h : HitsAt image.memory funcName a n) {iat : ℤ} {original : UInt64}
    (hslot : image.memory.u64At (iat + 8 * n) = .ok original) :
    ∃ enough, ∀ rounds, enough ≤ rounds →
      patchThunks image funcName replacement rounds a iat =
        .ok (original, [(iat + 8 * n, replacement)]) := by
  obtain ⟨hpassed, hhit⟩ := h
  refine ⟨n + 1, fun rounds hrounds ↦ ?_⟩
  obtain ⟨more, rfl⟩ := Nat.exists_eq_add_of_le hrounds
  have hcount : n + 1 + more = more + 1 + n := by omega
  rw [hcount, patchThunks_passes hpassed, patchThunks_hit hhit hprotect, hslot]
  rfl

end

/-! ## Tables that are well formed -/

theorem RefAt.hit {mem : Memory} {a : ℤ} {funcName : Bytes} (hfunc : 0 ∉ funcName)
    (h : RefAt mem a (.name funcName)) : Hit mem funcName a := by
  obtain ⟨w, hread, hne, hordinal, hname⟩ := h
  refine ⟨w, hread, hne, hordinal, ?_⟩
  rw [namesEqual_of_stringAt hname hfunc, decide_eq_true rfl]

theorem RefAt.passed {mem : Memory} {a : ℤ} {r : ImportRef} {funcName : Bytes}
    (hfunc : 0 ∉ funcName) (h : RefAt mem a r) (hne : r ≠ .name funcName) :
    Passed mem funcName a := by
  cases r with
  | ordinal n =>
      obtain ⟨w, hread, hordinal, -⟩ := h
      refine ⟨w, hread, ?_, Or.inl hordinal⟩
      rintro rfl
      exact absurd hordinal (by decide)
  | name s =>
      obtain ⟨w, hread, hne', hordinal, hname⟩ := h
      have hs : s ≠ funcName := fun heq ↦ hne (congrArg ImportRef.name heq)
      refine ⟨w, hread, hne', Or.inr ⟨hordinal, ?_⟩⟩
      rw [namesEqual_of_stringAt hname hfunc, decide_eq_false hs]

theorem TableAt.misses {mem : Memory} {a : ℤ} {refs : List ImportRef} (h : TableAt mem a refs)
    {funcName : Bytes} (hfunc : 0 ∉ funcName) (hnone : .name funcName ∉ refs) :
    Misses mem funcName a := by
  refine ⟨refs.length, fun k hk ↦ ?_, h.ended⟩
  have hget := List.getElem?_eq_getElem hk
  refine (h.entry k _ hget).passed hfunc fun heq ↦ hnone ?_
  rw [← heq]
  exact List.getElem_mem hk

theorem TableAt.hits {mem : Memory} {a : ℤ} {refs : List ImportRef} (h : TableAt mem a refs)
    {funcName : Bytes} (hfunc : 0 ∉ funcName) (hmem : .name funcName ∈ refs) :
    ∃ n, refs[n]? = some (.name funcName) ∧ HitsAt mem funcName a n := by
  have hex : ∃ n : ℕ, refs[n]? = some (.name funcName) := List.getElem?_of_mem hmem
  obtain ⟨hfound, hfirst⟩ := And.intro (Nat.find_spec hex) fun k ↦ Nat.find_min hex (m := k)
  refine ⟨Nat.find hex, hfound, fun k hk ↦ ?_, (h.entry _ _ hfound).hit hfunc⟩
  obtain ⟨hlt, -⟩ := List.getElem?_eq_some_iff.mp hfound
  have hget := List.getElem?_eq_getElem (hk.trans hlt)
  refine (h.entry k _ hget).passed hfunc fun heq ↦ hfirst k hk ?_
  rw [hget, heq]

/-! ## Descriptors -/

section

variable {image : ModuleImage} {dllName funcName : Bytes} {replacement : UInt64}

theorem patchDescriptors_eq
    (hcmp : ∀ a s, image.memory.StringAt a s → (image.lstrcmpi a dllName = 0 ↔ SameName s dllName))
    {ds : List ImportDescriptor} {a : ℤ} (h : DescriptorsAt image.memory a ds) (rounds left : ℕ)
    (hleft : ds.length < left) :
    patchDescriptors image dllName funcName replacement rounds left a =
      match ds.find? fun d ↦ SameName d.dll dllName with
      | none => .ok (0, [])
      | some d => patchThunks image funcName replacement rounds d.originalFirstThunk.toNat
          d.firstThunk.toNat := by
  induction ds generalizing a left with
  | nil =>
      obtain ⟨left, rfl⟩ := Nat.exists_eq_succ_of_ne_zero (Nat.ne_of_gt hleft)
      have hname : image.memory.u32At (a + 12) = .ok 0 := h
      rw [patchDescriptors, hname]
      rfl
  | cons d ds ih =>
      obtain ⟨left, rfl⟩ : ∃ n, left = n + 1 := Nat.exists_eq_succ_of_ne_zero (by omega)
      obtain ⟨hd, hds⟩ := h
      have hrest := ih hds left (Nat.lt_of_succ_lt_succ hleft)
      have hsame := hcmp _ _ hd.dll
      rw [patchDescriptors, hd.name]
      change (if d.name = 0 then _ else _) = _
      rw [if_neg hd.name_ne]
      by_cases hname : SameName d.dll dllName
      · have hfind : ((d :: ds).find? fun d ↦ SameName d.dll dllName) = some d :=
          List.find?_cons_of_pos (by simpa using hname)
        rw [if_neg (not_not.mpr (hsame.mpr hname)), hd.originalFirstThunk, hd.firstThunk, hfind]
        rfl
      · have hfind : ((d :: ds).find? fun d ↦ SameName d.dll dllName) =
            ds.find? fun d ↦ SameName d.dll dllName :=
          List.find?_cons_of_neg (by simpa using hname)
        rw [if_pos (mt hsame.mp hname), hrest, hfind]

theorem patchIat_eq
    (hcmp : ∀ a s, image.memory.StringAt a s → (image.lstrcmpi a dllName = 0 ↔ SameName s dllName))
    {ds : List ImportDescriptor} (h : DirectoryAt image.memory ds) (rounds : ℕ)
    (hrounds : ds.length < rounds) :
    patchIat image dllName funcName replacement rounds =
      match ds.find? fun d ↦ SameName d.dll dllName with
      | none => .ok (0, [])
      | some d => patchThunks image funcName replacement rounds d.originalFirstThunk.toNat
          d.firstThunk.toNat := by
  obtain ⟨lfanew, importDir, hlfanew, hdir, hds⟩ := h
  rw [patchIat, hlfanew]
  change (do
    let importDir ← image.memory.u32At (lfanew.toInt32.toInt + 144)
    if importDir = 0 then .ok (0, [])
    else patchDescriptors image dllName funcName replacement rounds rounds importDir.toNat) = _
  rw [hdir]
  change (if importDir = 0 then _ else _) = _
  by_cases hzero : importDir = 0
  · rw [if_pos hzero] at hds ⊢
    rw [hds]
    rfl
  · rw [if_neg hzero] at hds ⊢
    exact patchDescriptors_eq hcmp hds rounds rounds hrounds

end

end Wallpiper.Loader
