import Wallpiper.Loader.ImportTable

/-!
# Resolving the loader's own imports

The loader imports nothing by itself.  It looks for `KERNEL32.DLL` among the modules
of the process and for two functions in its export directory, and has them give the
address of every other function.  The modules are a circular list in memory, and an
export directory is three tables.
-/

namespace Wallpiper.Loader

open Foundations Foundations.CText

/-! ## The module list -/

/-- The loop of `wide_name_ieq_ascii` where so many units of the name are left. -/
def wideNameIeqAscii (mem : Memory) : ℤ → ℕ → Bytes → Except MemoryFault Bool
  | _, left, [] => .ok (left = 0)
  | w, left, b :: bs =>
      if left = 0 then .ok false
      else do
        let c ← mem.u16At w
        let c := if 97 ≤ c ∧ c ≤ 122 then c - 32 else c
        if c ≠ b.toUInt16 then .ok false else wideNameIeqAscii mem (w + 2) (left - 1) bs

def kernel32Name : Bytes := bytesOf "KERNEL32.DLL"

/-- The loop over the nodes.  The value returned is 0 for `NULL`. -/
def findKernel32From (mem : Memory) (listHead : ℤ) : ℕ → ℤ → Except MemoryFault UInt64
  | 0, _ => .error .outOfRounds
  | rounds + 1, node =>
      if node = listHead then .ok 0
      else do
        let entry := node - 16
        let buffer ← mem.u64At (entry + 96)
        let found ←
          if buffer = 0 then .ok false
          else do
            let length ← mem.u16At (entry + 88)
            wideNameIeqAscii mem buffer.toNat (length.toNat / 2) kernel32Name
        if found then mem.u64At (entry + 48)
        else do
          let next ← mem.u64At node
          findKernel32From mem listHead rounds next.toNat

def win32BootstrapFindKernel32 (mem : Memory) (peb : ℤ) (rounds : ℕ) :
    Except MemoryFault UInt64 := do
  let ldr ← mem.u64At (peb + 24)
  let listHead : ℤ := ldr.toNat + 32
  let node ← mem.u64At listHead
  findKernel32From mem listHead rounds node.toNat

/-! ## The export directory -/

/-- The loop over the names; `i` is the one that is looked at. -/
def findExportFrom (mem : Memory) (base names ordinals functions : ℤ) (name : Bytes) :
    ℕ → ℕ → Except MemoryFault (Option ℤ)
  | 0, _ => .ok none
  | left + 1, i => do
      let rva ← mem.u32At (names + 4 * i)
      let equal ← namesEqual mem (base + rva.toNat) name
      if equal then do
        let ord ← mem.u16At (ordinals + 2 * i)
        let function ← mem.u32At (functions + 4 * ord.toNat)
        .ok (some (base + function.toNat))
      else findExportFrom mem base names ordinals functions name left (i + 1)

/-- The address of the export directory is at 136 in the headers. -/
def win32BootstrapFindExport (mem : Memory) (moduleBase : UInt64) (name : Bytes) :
    Except MemoryFault (Option ℤ) :=
  if moduleBase = 0 then .ok none
  else do
    let base : ℤ := moduleBase.toNat
    let lfanew ← mem.u32At (base + 60)
    let expDir ← mem.u32At (base + lfanew.toInt32.toInt + 136)
    if expDir = 0 then .ok none
    else do
      let exp := base + expDir.toNat
      let names ← mem.u32At (exp + 32)
      let ordinals ← mem.u32At (exp + 36)
      let functions ← mem.u32At (exp + 28)
      let numberOfNames ← mem.u32At (exp + 24)
      findExportFrom mem base (base + names.toNat) (base + ordinals.toNat)
        (base + functions.toNat) name numberOfNames.toNat 0

/-! ## The imports -/

/-- What a call of a function at some address gives, for `LoadLibraryA` and for
`GetProcAddress`. -/
structure RawCalls where
  loadLibraryA : ℤ → Bytes → UInt64
  getProcAddress : ℤ → UInt64 → Bytes → UInt64

structure ImportEntry where
  dll : Bytes
  name : Bytes

/-- A slot is left as it is, which is `NULL`, where one of the calls fails. -/
def resolveImport (calls : RawCalls) (rawLla rawGpa : ℤ) (entry : ImportEntry) : UInt64 :=
  let module := calls.loadLibraryA rawLla entry.dll
  if module = 0 then 0 else calls.getProcAddress rawGpa module entry.name

/-- The slots of the table. -/
def win32ResolveAll (mem : Memory) (peb : ℤ) (calls : RawCalls) (table : List ImportEntry)
    (rounds : ℕ) : Except MemoryFault (List UInt64) := do
  let kernel32Base ← win32BootstrapFindKernel32 mem peb rounds
  let rawGpa ← win32BootstrapFindExport mem kernel32Base (bytesOf "GetProcAddress")
  let rawLla ← win32BootstrapFindExport mem kernel32Base (bytesOf "LoadLibraryA")
  match rawGpa, rawLla with
  | some rawGpa, some rawLla => .ok (table.map (resolveImport calls rawLla rawGpa))
  | _, _ => .ok (table.map fun _ ↦ 0)

/-! ## What is in memory -/

structure LoadedModule where
  /-- nothing where the entry has no buffer -/
  name : Option (List UInt16)
  base : UInt64

structure EntryAt (mem : Memory) (entry : ℤ) (m : LoadedModule) : Prop where
  base : mem.u64At (entry + 48) = .ok m.base
  name : match m.name with
    | none => mem.u64At (entry + 96) = .ok 0
    | some units => ∃ buffer length, mem.u64At (entry + 96) = .ok buffer ∧ buffer ≠ 0 ∧
        mem.u16At (entry + 88) = .ok length ∧ length.toNat = 2 * units.length ∧
        mem.UnitsAt buffer.toNat units

/-- The nodes from one on, up to the head. -/
def NodesAt (mem : Memory) (listHead : ℤ) : ℤ → List LoadedModule → Prop
  | node, [] => node = listHead
  | node, m :: ms => node ≠ listHead ∧ EntryAt mem (node - 16) m ∧
      ∃ next, mem.u64At node = .ok next ∧ NodesAt mem listHead next.toNat ms

def ModulesAt (mem : Memory) (peb : ℤ) (ms : List LoadedModule) : Prop :=
  ∃ ldr first, mem.u64At (peb + 24) = .ok ldr ∧ mem.u64At (ldr.toNat + 32) = .ok first ∧
    NodesAt mem (ldr.toNat + 32) first.toNat ms

structure Export where
  name : Bytes
  rva : UInt32

/-- Where the three tables are. -/
structure ExportTables where
  names : UInt32
  ordinals : UInt32
  functions : UInt32

/-- The directory at `exp` and its tables. -/
structure ExportTablesAt (mem : Memory) (base exp : ℤ) (exports : List Export)
    (t : ExportTables) : Prop where
  names : mem.u32At (exp + 32) = .ok t.names
  ordinals : mem.u32At (exp + 36) = .ok t.ordinals
  functions : mem.u32At (exp + 28) = .ok t.functions
  count : ∃ n, mem.u32At (exp + 24) = .ok n ∧ n.toNat = exports.length
  entry : ∀ (i : ℕ) (e : Export), exports[i]? = some e → ∃ rva ord,
    mem.u32At (base + t.names.toNat + 4 * i) = .ok rva ∧ mem.StringAt (base + rva.toNat) e.name ∧
      mem.u16At (base + t.ordinals.toNat + 2 * i) = .ok ord ∧
      mem.u32At (base + t.functions.toNat + 4 * ord.toNat) = .ok e.rva

def ExportsAt (mem : Memory) (base : ℤ) (exports : List Export) : Prop :=
  ∃ lfanew expDir, mem.u32At (base + 60) = .ok lfanew ∧
    mem.u32At (base + lfanew.toInt32.toInt + 136) = .ok expDir ∧
      if expDir = 0 then exports = []
      else ∃ t, ExportTablesAt mem base (base + expDir.toNat) exports t

/-! ## What is found -/

def upperUnit (u : UInt16) : UInt16 := if 97 ≤ u ∧ u ≤ 122 then u - 32 else u

def LoadedModule.isKernel32 (m : LoadedModule) : Bool :=
  m.name.any fun units ↦ units.map upperUnit = kernel32Name.map UInt8.toUInt16

def exportAddress (base : UInt64) (exports : List Export) (name : Bytes) : Option ℤ :=
  (exports.find? fun e ↦ e.name = name).map fun e ↦ base.toNat + e.rva.toNat

variable {mem : Memory}

theorem wideNameIeqAscii_unitsAt {w : ℤ} {units : List UInt16} (h : mem.UnitsAt w units)
    (ascii : Bytes) :
    wideNameIeqAscii mem w units.length ascii =
      .ok (units.map upperUnit = ascii.map UInt8.toUInt16) := by
  induction ascii generalizing w units with
  | nil =>
      cases units with
      | nil => rfl
      | cons u units => rfl
  | cons b bs ih =>
      cases units with
      | nil => rfl
      | cons u units =>
          rw [wideNameIeqAscii, if_neg (by simp), h.head]
          change (if upperUnit u ≠ b.toUInt16 then Except.ok false
            else wideNameIeqAscii mem (w + 2) units.length bs) = _
          rw [ih h.tail]
          by_cases hu : upperUnit u = b.toUInt16
          · simp [hu]
          · simp [hu]

/-- One node that is not the head. -/
theorem findKernel32From_node {listHead node : ℤ} (hne : node ≠ listHead) {m : LoadedModule}
    (h : EntryAt mem (node - 16) m) {next : UInt64} (hnext : mem.u64At node = .ok next)
    (rounds : ℕ) :
    findKernel32From mem listHead (rounds + 1) node =
      if m.isKernel32 then .ok m.base else findKernel32From mem listHead rounds next.toNat := by
  rw [findKernel32From, if_neg hne]
  obtain ⟨hbase, hname⟩ := h
  obtain ⟨name, base⟩ := m
  cases name with
  | none =>
      simp only at hname
      simp only [hname, hnext, LoadedModule.isKernel32]
      rfl
  | some units =>
      obtain ⟨buffer, length, hbuffer, hne, hlength, hsize, hunits⟩ := hname
      have hunits' := wideNameIeqAscii_unitsAt hunits kernel32Name
      have hhalf : length.toNat / 2 = units.length := by omega
      simp only [hbuffer, hlength, hbase, hnext, LoadedModule.isKernel32, Option.any_some]
      change (do
        let found ← if buffer = 0 then Except.ok false
          else wideNameIeqAscii mem buffer.toNat (length.toNat / 2) kernel32Name
        if found then Except.ok base
          else findKernel32From mem listHead rounds next.toNat) = _
      rw [if_neg hne, hhalf, hunits']
      rfl

theorem findKernel32From_nodesAt {listHead node : ℤ} {ms : List LoadedModule}
    (h : NodesAt mem listHead node ms) {rounds : ℕ} (hrounds : ms.length < rounds) :
    findKernel32From mem listHead rounds node =
      .ok (((ms.find? LoadedModule.isKernel32).map (·.base)).getD 0) := by
  induction ms generalizing node rounds with
  | nil =>
      obtain ⟨rounds, rfl⟩ := Nat.exists_eq_succ_of_ne_zero (Nat.ne_of_gt hrounds)
      have hnode : node = listHead := h
      rw [findKernel32From, if_pos hnode]
      rfl
  | cons m ms ih =>
      obtain ⟨rounds, rfl⟩ : ∃ k, rounds = k + 1 := Nat.exists_eq_succ_of_ne_zero (by omega)
      obtain ⟨hne, hentry, next, hnext, hrest⟩ := h
      rw [findKernel32From_node hne hentry hnext, List.find?_cons]
      cases hm : m.isKernel32 with
      | true => rfl
      | false => exact ih hrest (Nat.lt_of_succ_lt_succ hrounds)

/-- The module that is found is the first of the name in the list. -/
theorem win32BootstrapFindKernel32_modulesAt {peb : ℤ} {ms : List LoadedModule}
    (h : ModulesAt mem peb ms) {rounds : ℕ} (hrounds : ms.length < rounds) :
    win32BootstrapFindKernel32 mem peb rounds =
      .ok (((ms.find? LoadedModule.isKernel32).map (·.base)).getD 0) := by
  obtain ⟨ldr, first, hldr, hfirst, hnodes⟩ := h
  rw [win32BootstrapFindKernel32, hldr]
  change (do
    let node ← mem.u64At (ldr.toNat + 32)
    findKernel32From mem (ldr.toNat + 32) rounds node.toNat) = _
  rw [hfirst]
  exact findKernel32From_nodesAt hnodes hrounds

theorem findExportFrom_tablesAt {base exp : ℤ} {exports : List Export} {t : ExportTables}
    (h : ExportTablesAt mem base exp exports t) {name : Bytes} (hname : 0 ∉ name) (left i : ℕ)
    (hleft : i + left = exports.length) :
    findExportFrom mem base (base + t.names.toNat) (base + t.ordinals.toNat)
        (base + t.functions.toNat) name left i =
      .ok (((exports.drop i).find? fun e ↦ e.name = name).map fun e ↦ base + e.rva.toNat) := by
  induction left generalizing i with
  | zero =>
      rw [findExportFrom, List.drop_of_length_le (by omega)]
      rfl
  | succ left ih =>
      have hi : i < exports.length := by omega
      obtain ⟨rva, ord, hrva, hstring, hord, hfunction⟩ :=
        h.entry i _ (List.getElem?_eq_getElem hi)
      rw [findExportFrom, hrva, List.drop_eq_getElem_cons hi, List.find?_cons]
      change (do
        let equal ← namesEqual mem (base + rva.toNat) name
        if equal then _ else _) = _
      rw [namesEqual_of_stringAt hstring hname]
      change (if decide (exports[i].name = name) = true then _ else _) = _
      cases hequal : decide (exports[i].name = name) with
      | true =>
          rw [if_pos rfl, hord]
          change (do
            let function ← mem.u32At (base + t.functions.toNat + 4 * ord.toNat)
            Except.ok (some (base + (function.toNat : ℤ)))) = _
          rw [hfunction]
          rfl
      | false => exact ih (i + 1) (by omega)

/-- The function that is found is the first of the name in the directory. -/
theorem win32BootstrapFindExport_exportsAt {base : UInt64} (hbase : base ≠ 0)
    {exports : List Export} (h : ExportsAt mem base.toNat exports) {name : Bytes}
    (hname : 0 ∉ name) :
    win32BootstrapFindExport mem base name = .ok (exportAddress base exports name) := by
  obtain ⟨lfanew, expDir, hlfanew, hexpDir, htables⟩ := h
  rw [win32BootstrapFindExport, if_neg hbase]
  simp only [hlfanew]
  change (do
    let expDir ← mem.u32At ((base.toNat : ℤ) + lfanew.toInt32.toInt + 136)
    if expDir = 0 then _ else _) = _
  rw [hexpDir]
  change (if expDir = 0 then _ else _) = _
  split at htables
  · rename_i hzero
    rw [if_pos hzero, htables]
    rfl
  · rename_i hzero
    obtain ⟨t, htables⟩ := htables
    obtain ⟨n, hcount, hn⟩ := htables.count
    rw [if_neg hzero]
    simp only [htables.names, htables.ordinals, htables.functions, hcount]
    have hloop := findExportFrom_tablesAt htables hname n.toNat 0 (by omega)
    rw [List.drop_zero] at hloop
    exact hloop

/-- The two functions of `KERNEL32.DLL`, if the process has them: `LoadLibraryA`
and `GetProcAddress`. -/
def kernel32Calls (ms : List LoadedModule) (exports : List Export) : Option (ℤ × ℤ) := do
  let m ← ms.find? LoadedModule.isKernel32
  let rawGpa ← exportAddress m.base exports (bytesOf "GetProcAddress")
  let rawLla ← exportAddress m.base exports (bytesOf "LoadLibraryA")
  return (rawLla, rawGpa)

/-- In every process whose modules are listed as the system lists them the search
ends and reads nothing that is not mapped.  Every slot gets what the functions of
the first `KERNEL32.DLL` in the list give for it, under its exact names, or none
gets anything. -/
theorem win32_imports_resolved {peb : ℤ} {ms : List LoadedModule} (hmodules : ModulesAt mem peb ms)
    {exports : List Export}
    (hexports : ∀ m, ms.find? LoadedModule.isKernel32 = some m →
      m.base ≠ 0 ∧ ExportsAt mem m.base.toNat exports)
    (calls : RawCalls) (table : List ImportEntry) :
    ∃ enough, ∀ rounds, enough ≤ rounds → win32ResolveAll mem peb calls table rounds =
      .ok (match kernel32Calls ms exports with
        | some (rawLla, rawGpa) => table.map (resolveImport calls rawLla rawGpa)
        | none => table.map fun _ ↦ 0) := by
  refine ⟨ms.length + 1, fun rounds hrounds ↦ ?_⟩
  rw [win32ResolveAll, win32BootstrapFindKernel32_modulesAt hmodules hrounds]
  cases hfind : ms.find? LoadedModule.isKernel32 with
  | none =>
      rw [kernel32Calls, hfind]
      rfl
  | some m =>
      obtain ⟨hbase, htables⟩ := hexports m hfind
      have hgpa := win32BootstrapFindExport_exportsAt hbase htables
        (by decide +kernel : 0 ∉ bytesOf "GetProcAddress")
      have hlla := win32BootstrapFindExport_exportsAt hbase htables
        (by decide +kernel : 0 ∉ bytesOf "LoadLibraryA")
      change (do
        let rawGpa ← win32BootstrapFindExport mem m.base (bytesOf "GetProcAddress")
        let rawLla ← win32BootstrapFindExport mem m.base (bytesOf "LoadLibraryA")
        match rawGpa, rawLla with
        | some rawGpa, some rawLla => .ok (table.map (resolveImport calls rawLla rawGpa))
        | _, _ => .ok (table.map fun _ ↦ 0)) = _
      have hcalls : kernel32Calls ms exports = (do
          let rawGpa ← exportAddress m.base exports (bytesOf "GetProcAddress")
          let rawLla ← exportAddress m.base exports (bytesOf "LoadLibraryA")
          return (rawLla, rawGpa)) := by
        rw [kernel32Calls, hfind]
        rfl
      rw [hgpa, hlla, hcalls]
      cases exportAddress m.base exports (bytesOf "GetProcAddress") with
      | none => rfl
      | some rawGpa =>
          cases exportAddress m.base exports (bytesOf "LoadLibraryA") with
          | none => rfl
          | some rawLla => rfl

/-! ## A process -/

def textCells (a : ℤ) (s : Bytes) : List (ℤ × UInt8) := s.zipIdx.map fun p ↦ (a + p.2, p.1)

/-- A module without a name and one with two exports. -/
def smallProcess : Memory :=
  Memory.sparse 1024 ([(24, 64), (96, 128), (128, 16), (129, 1), (160, 5), (272, 96), (305, 2),
    (344, 24), (352, 144), (353, 1), (572, 64), (713, 1), (792, 2), (796, 64), (797, 1), (800, 80),
    (801, 1), (804, 96), (805, 1), (832, 208), (833, 7), (836, 232), (837, 3), (848, 104),
    (849, 1), (852, 124), (853, 1), (864, 1)] ++
    textCells 400 ((bytesOf "Kernel32.dll").flatMap fun c ↦ [c, 0]) ++
    textCells 872 (bytesOf "GetProcAddress") ++ textCells 892 (bytesOf "LoadLibraryA"))

def smallModules : List LoadedModule :=
  [⟨none, 5⟩, ⟨some ((bytesOf "Kernel32.dll").map UInt8.toUInt16), 512⟩]

def smallExports : List Export :=
  [⟨bytesOf "GetProcAddress", 1000⟩, ⟨bytesOf "LoadLibraryA", 2000⟩]

theorem modulesAt_smallProcess : ModulesAt smallProcess 0 smallModules := by
  have hfirst : EntryAt smallProcess (128 - 16) ⟨none, 5⟩ :=
    ⟨by decide +kernel, by decide +kernel⟩
  have hsecond : EntryAt smallProcess (272 - 16)
      ⟨some ((bytesOf "Kernel32.dll").map UInt8.toUInt16), 512⟩ := by
    refine ⟨by decide +kernel, 400, 24, by decide +kernel, by decide, by decide +kernel,
      by decide +kernel, ?_⟩
    unfold Memory.UnitsAt
    decide +kernel
  exact ⟨64, 128, by decide +kernel, by decide +kernel, by decide, hfirst, 272, by decide +kernel,
    by decide, hsecond, 96, by decide +kernel, rfl⟩

theorem stringAt_of_bytes {a : ℤ} {s : Bytes} (hnonul : 0 ∉ s)
    (hbytes : ∀ i < s.length, mem (a + i) = s[i]?) (hend : mem (a + s.length) = some 0) :
    mem.StringAt a s :=
  ⟨hnonul, fun i hi ↦ (hbytes i hi).trans (List.getElem?_eq_getElem hi), hend⟩

theorem exportsAt_smallProcess : ExportsAt smallProcess 512 smallExports := by
  have hgpa : smallProcess.StringAt 872 (bytesOf "GetProcAddress") :=
    stringAt_of_bytes (by decide +kernel) (by decide +kernel) (by decide +kernel)
  have hlla : smallProcess.StringAt 892 (bytesOf "LoadLibraryA") :=
    stringAt_of_bytes (by decide +kernel) (by decide +kernel) (by decide +kernel)
  have htables : ExportTablesAt smallProcess 512 768 smallExports ⟨336, 352, 320⟩ := by
    refine ⟨by decide +kernel, by decide +kernel, by decide +kernel,
      ⟨2, by decide +kernel, by decide⟩, fun i e he ↦ ?_⟩
    match i with
    | 0 =>
        obtain rfl := Option.some.inj he
        exact ⟨360, 1, by decide +kernel, hgpa, by decide +kernel, by decide +kernel⟩
    | 1 =>
        obtain rfl := Option.some.inj he
        exact ⟨380, 0, by decide +kernel, hlla, by decide +kernel, by decide +kernel⟩
    | i + 2 => cases he
  refine ⟨64, 256, by decide +kernel, by decide +kernel, ?_⟩
  rw [if_neg (by decide)]
  exact ⟨_, htables⟩

/-- One library can be loaded, and it has one of two functions. -/
def smallCalls : RawCalls where
  loadLibraryA a dll := if a = 2512 ∧ dll = bytesOf "USER32.dll" then 7 else 0
  getProcAddress a module name :=
    if a = 1512 ∧ module = 7 ∧ name = bytesOf "IsWindow" then 9 else 0

theorem win32_imports_resolved_smallProcess : ∃ enough, ∀ rounds, enough ≤ rounds →
    win32ResolveAll smallProcess 0 smallCalls
      [⟨bytesOf "USER32.dll", bytesOf "IsWindow"⟩, ⟨bytesOf "USER32.dll", bytesOf "GetMenu"⟩,
        ⟨bytesOf "GDI32.dll", bytesOf "GetDC"⟩] rounds = .ok [9, 0, 0] := by
  have hexports : ∀ m, smallModules.find? LoadedModule.isKernel32 = some m →
      m.base ≠ 0 ∧ ExportsAt smallProcess m.base.toNat smallExports := by
    intro m hm
    have hfind : (smallModules.find? LoadedModule.isKernel32).map (·.base) = some 512 := by
      decide +kernel
    rw [hm, Option.map_some, Option.some.injEq] at hfind
    rw [hfind]
    exact ⟨by decide, exportsAt_smallProcess⟩
  obtain ⟨enough, h⟩ := win32_imports_resolved modulesAt_smallProcess hexports smallCalls
    [⟨bytesOf "USER32.dll", bytesOf "IsWindow"⟩, ⟨bytesOf "USER32.dll", bytesOf "GetMenu"⟩,
      ⟨bytesOf "GDI32.dll", bytesOf "GetDC"⟩]
  have hcalls : kernel32Calls smallModules smallExports = some (2512, 1512) := by decide +kernel
  refine ⟨enough, fun rounds hrounds ↦ ?_⟩
  rw [h rounds hrounds, hcalls]
  decide +kernel

end Wallpiper.Loader
