import Mathlib.Data.List.DropRight
import Wallpiper.Foundations.LittleEndian
import Wallpiper.Foundations.CText
import Wallpiper.Loader.TriggerFiles

/-!
# Changes of a directory

The watcher of the trigger files is told of changes in a directory by a buffer of
records.  A record gives the distance to the next one, what was done, and the name
of a file as so many bytes of code units without a terminator.
-/

namespace Wallpiper.Loader

open Foundations Foundations.CText

/-! ## Configuration -/

/-- A terminated string of code units in an array of the given size. -/
structure WideText (capacity : ℕ) where
  units : List UInt16
  no_nul : 0 ∉ units
  length_lt : units.length < capacity

/-- `GetEnvironmentVariableW` gives the length of a value that fits. -/
def getEnvPath (value : Option {units : List UInt16 // 0 ∉ units}) (outLen : ℕ) :
    Option (WideText outLen) :=
  value.bind fun v ↦
    if h : 0 < v.val.length ∧ v.val.length < outLen then some ⟨v.val, v.property, h.2⟩ else none

def isSeparator (u : UInt16) : Bool := u = 92 || u = 47

/-- What is behind the last separator. -/
def basenameW (path : List UInt16) : List UInt16 := path.rtakeWhile fun u ↦ !isSeparator u

/-- The configured paths. -/
structure TriggerConfig where
  path : TriggerKind → Option (WideText 260)

def TriggerConfig.fname (cfg : TriggerConfig) (kind : TriggerKind) : Option (List UInt16) :=
  (cfg.path kind).map fun path ↦ basenameW path.units

def loadTriggerConfig (env : TriggerKind → Option {units : List UInt16 // 0 ∉ units}) :
    Option TriggerConfig :=
  let cfg : TriggerConfig := ⟨fun kind ↦ getEnvPath (env kind) 260⟩
  if (cfg.path .command).isSome || (cfg.path .click).isSome then some cfg else none

/-- What is before the last separator. -/
def directoryW (path : List UInt16) : Option (List UInt16) :=
  let front := path.rdropWhile fun u ↦ !isSeparator u
  if front = [] then none else some front.dropLast

/-- The directory of the command file is watched, if there is one. -/
def resolveWatchDirectory (cfg : TriggerConfig) : Option (List UInt16) :=
  match cfg.path .command with
  | some path => directoryW path.units
  | none => (cfg.path .click).bind fun path ↦ directoryW path.units

/-- Directory and name make up the path. -/
theorem directoryW_basenameW {path dir : List UInt16} (h : directoryW path = some dir) :
    ∃ u, isSeparator u = true ∧ path = dir ++ u :: basenameW path := by
  simp only [directoryW] at h
  split at h
  · cases h
  · rename_i hne
    obtain rfl := Option.some.inj h
    have hlast := List.rdropWhile_last_not (fun u ↦ !isSeparator u) path hne
    refine ⟨(path.rdropWhile fun u ↦ !isSeparator u).getLast hne, by simpa using hlast, ?_⟩
    have hjoin := @List.rdropWhile_append_rtakeWhile _ (fun u ↦ !isSeparator u) path
    conv_lhs => rw [← hjoin, ← List.dropLast_append_getLast hne]
    simp [basenameW]

theorem basenameW_suffix (path : List UInt16) : basenameW path <:+ path :=
  List.rtakeWhile_suffix _ _

/-! ## The buffer -/

def fileActionAdded : UInt32 := 1

def fileActionModified : UInt32 := 3

def fileActionRenamedNewName : UInt32 := 5

def isWrite (action : UInt32) : Bool :=
  action = fileActionAdded || action = fileActionModified || action = fileActionRenamedNewName

def u16le (u : UInt16) : Bytes := [u.toUInt8, (u >>> 8).toUInt8]

@[simp] theorem length_u16le (u : UInt16) : (u16le u).length = 2 := rfl

/-- The code units that bytes are copied to. -/
def unitsOf : Bytes → List UInt16
  | b₀ :: b₁ :: rest => (b₀.toUInt16 ||| b₁.toUInt16 <<< 8) :: unitsOf rest
  | _ => []

theorem unitsOf_flatMap_u16le (units : List UInt16) : unitsOf (units.flatMap u16le) = units := by
  induction units with
  | nil => rfl
  | cons u units ih =>
      rw [List.flatMap_cons, u16le, List.cons_append, List.cons_append, List.nil_append,
        unitsOf, ih]
      congr 1
      have hlt := u.toNat_lt
      apply UInt16.toNat_inj.mp
      have hlow : u.toUInt8.toUInt16.toNat = u.toNat % 256 := by simp
      have hhigh : ((u >>> 8).toUInt8.toUInt16 <<< 8).toNat = (u.toNat / 256) <<< 8 := by
        simp only [UInt16.toNat_shiftLeft, UInt8.toNat_toUInt16, UInt16.toNat_toUInt8,
          UInt16.toNat_shiftRight, UInt16.reduceToNat, Nat.shiftRight_eq_div_pow, Nat.shiftLeft_eq,
          Nat.reduceMod, Nat.reducePow]
        omega
      rw [UInt16.toNat_or, hlow, hhigh, Nat.or_comm,
        ← Nat.shiftLeft_add_eq_or_of_lt (Nat.mod_lt _ (by decide)), Nat.shiftLeft_eq]
      omega

theorem length_flatMap_u16le (units : List UInt16) :
    (units.flatMap u16le).length = 2 * units.length := by
  simp [Nat.mul_comm]

section Scan

-- the system's comparison without regard to case, zero for equal strings
variable (lstrcmpiW : List UInt16 → List UInt16 → Int)

/-- Whether a record of this action and name is one of the given file. -/
def TriggerConfig.concerns (cfg : TriggerConfig) (kind : TriggerKind) (action : UInt32)
    (name : List UInt16) : Bool :=
  isWrite action && (cfg.fname kind).any fun fname ↦ lstrcmpiW name fname = 0

/-- The loop of `scan_notify_buffer`; nothing if it reads beyond the buffer or
makes more turns than the buffer has offsets. -/
def scanNotifyFrom (cfg : TriggerConfig) (buf : Bytes) :
    ℕ → UInt32 → Bool → Bool → Option (Bool × Bool)
  | 0, _, _, _ => none
  | turns + 1, offset, matchedCommand, matchedClick =>
      let info := offset.toNat
      let nextEntryOffset := u32leAt buf info
      let action := u32leAt buf (info + 4)
      let fileNameLength := (u32leAt buf (info + 8)).toNat / 2
      let len := if fileNameLength ≥ 260 then 259 else fileNameLength
      if buf.length < info + 12 + 2 * len then none
      else
        let namebuf := (unitsOf ((buf.drop (info + 12)).take (2 * len))).takeWhile (· ≠ 0)
        let matchedCommand := matchedCommand || cfg.concerns lstrcmpiW .command action namebuf
        let matchedClick := matchedClick || cfg.concerns lstrcmpiW .click action namebuf
        if nextEntryOffset = 0 then some (matchedCommand, matchedClick)
        else scanNotifyFrom cfg buf turns (offset + nextEntryOffset) matchedCommand matchedClick

/-- The two flags, for the command file and for the click file. -/
def scanNotifyBuffer (cfg : TriggerConfig) (buf : Bytes) : Option (Bool × Bool) :=
  scanNotifyFrom lstrcmpiW cfg buf buf.length 0 false false

end Scan

/-! ## The records -/

/-- What is recorded of a change, and the bytes up to the next record. -/
structure FileNotify where
  action : UInt32
  name : List UInt16
  padding : Bytes

namespace FileNotify

def size (r : FileNotify) : ℕ := 12 + 2 * r.name.length + r.padding.length

def bytes (r : FileNotify) (next : UInt32) : Bytes :=
  u32le next ++ u32le r.action ++ u32le (UInt32.ofNat (2 * r.name.length)) ++
    r.name.flatMap u16le ++ r.padding

@[simp] theorem length_bytes (r : FileNotify) (next : UInt32) : (r.bytes next).length = r.size := by
  simp [bytes, size, Nat.mul_comm]
  omega

/-- The name as it is compared. -/
def shown (r : FileNotify) : List UInt16 := (r.name.take 259).takeWhile (· ≠ 0)

end FileNotify

/-- The records one behind the other; the last has no next one. -/
def notifyBytes : List FileNotify → Bytes
  | [] => []
  | [r] => r.bytes 0
  | r :: s :: rs => r.bytes (UInt32.ofNat r.size) ++ notifyBytes (s :: rs)

theorem length_notifyBytes (rs : List FileNotify) :
    (notifyBytes rs).length = (rs.map FileNotify.size).sum := by
  induction rs with
  | nil => rfl
  | cons r rs ih =>
      cases rs with
      | nil => simp [notifyBytes]
      | cons s rs =>
          rw [notifyBytes, List.length_append, ih, r.length_bytes, List.map_cons (l := s :: rs),
            List.sum_cons]

theorem length_le_notifyBytes (rs : List FileNotify) : rs.length ≤ (notifyBytes rs).length := by
  rw [length_notifyBytes]
  induction rs with
  | nil => rfl
  | cons r rs ih =>
      rw [List.length_cons, List.map_cons, List.sum_cons, FileNotify.size]
      omega

/-- The fields that the loop finds at the start of a record. -/
theorem fields_at (front : Bytes) (r : FileNotify) (next : UInt32) (rest : Bytes) :
    u32leAt (front ++ (r.bytes next ++ rest)) front.length = next ∧
      u32leAt (front ++ (r.bytes next ++ rest)) (front.length + 4) = r.action ∧
      u32leAt (front ++ (r.bytes next ++ rest)) (front.length + 8) =
        UInt32.ofNat (2 * r.name.length) ∧
      (front ++ (r.bytes next ++ rest)).drop (front.length + 12) =
        r.name.flatMap u16le ++ (r.padding ++ rest) := by
  refine ⟨?_, ?_, ?_, ?_⟩
  · have hsplit : front ++ (r.bytes next ++ rest) = front ++ (u32le next ++
        (u32le r.action ++ u32le (UInt32.ofNat (2 * r.name.length)) ++ r.name.flatMap u16le ++
          r.padding ++ rest)) := by
      simp [FileNotify.bytes]
    rw [hsplit]
    exact u32leAt_append rfl _ _
  · have hsplit : front ++ (r.bytes next ++ rest) = (front ++ u32le next) ++ (u32le r.action ++
        (u32le (UInt32.ofNat (2 * r.name.length)) ++ r.name.flatMap u16le ++ r.padding ++
          rest)) := by
      simp [FileNotify.bytes]
    rw [hsplit]
    exact u32leAt_append (by simp) _ _
  · have hsplit : front ++ (r.bytes next ++ rest) =
        (front ++ (u32le next ++ u32le r.action)) ++
          (u32le (UInt32.ofNat (2 * r.name.length)) ++
            (r.name.flatMap u16le ++ r.padding ++ rest)) := by
      simp [FileNotify.bytes]
    rw [hsplit]
    exact u32leAt_append (by simp) _ _
  · have hsplit : front ++ (r.bytes next ++ rest) =
        (front ++ (u32le next ++ u32le r.action ++ u32le (UInt32.ofNat (2 * r.name.length)))) ++
          (r.name.flatMap u16le ++ (r.padding ++ rest)) := by
      simp [FileNotify.bytes]
    rw [hsplit]
    exact List.drop_left' (by simp)

/-- The name that is copied is cut to the array. -/
theorem shown_at (r : FileNotify) (rest : Bytes) {len : ℕ}
    (hlen : len = if r.name.length ≥ 260 then 259 else r.name.length) :
    (unitsOf ((r.name.flatMap u16le ++ rest).take (2 * len))).takeWhile (· ≠ 0) = r.shown := by
  have hle : len ≤ r.name.length := by
    split at hlen <;> omega
  have htake : r.name.take 259 = r.name.take len := by
    split at hlen
    · rw [hlen]
    · rw [hlen, List.take_length, List.take_of_length_le (by omega)]
  have hcut : (r.name.flatMap u16le ++ rest).take (2 * len) = (r.name.take len).flatMap u16le := by
    conv_lhs => rw [← List.take_append_drop len r.name, List.flatMap_append, List.append_assoc]
    exact List.take_left' (by rw [length_flatMap_u16le, List.length_take, Nat.min_eq_left hle])
  rw [FileNotify.shown, htake, hcut, unitsOf_flatMap_u16le]

section Scan

variable {lstrcmpiW : List UInt16 → List UInt16 → Int} {cfg : TriggerConfig}

theorem toNat_u32_ofNat {n : ℕ} (h : n < 2 ^ 32) : (UInt32.ofNat n).toNat = n :=
  UInt32.toNat_ofNat_of_lt' h

/-- Whether one of the records is one of the given file. -/
def anyConcerns (lstrcmpiW : List UInt16 → List UInt16 → Int) (cfg : TriggerConfig)
    (kind : TriggerKind) (rs : List FileNotify) : Bool :=
  rs.any fun r ↦ cfg.concerns lstrcmpiW kind r.action r.shown

/-- One turn of the loop, at the start of a record. -/
theorem scanNotifyFrom_record (front : Bytes) (r : FileNotify) (next : UInt32) (rest : Bytes)
    (hsize : (front ++ r.bytes next).length < 2 ^ 32) (turns : ℕ) (command click : Bool) :
    scanNotifyFrom lstrcmpiW cfg (front ++ (r.bytes next ++ rest)) (turns + 1)
        (UInt32.ofNat front.length) command click =
      if next = 0 then
        some (command || cfg.concerns lstrcmpiW .command r.action r.shown,
          click || cfg.concerns lstrcmpiW .click r.action r.shown)
      else
        scanNotifyFrom lstrcmpiW cfg (front ++ (r.bytes next ++ rest)) turns
          (UInt32.ofNat front.length + next)
          (command || cfg.concerns lstrcmpiW .command r.action r.shown)
          (click || cfg.concerns lstrcmpiW .click r.action r.shown) := by
  rw [List.length_append, r.length_bytes, FileNotify.size] at hsize
  have hinfo : (UInt32.ofNat front.length).toNat = front.length :=
    toNat_u32_ofNat (by omega)
  have hname : (UInt32.ofNat (2 * r.name.length)).toNat / 2 = r.name.length := by
    rw [toNat_u32_ofNat (by omega)]
    omega
  obtain ⟨hnext, haction, hlength, hdrop⟩ := fields_at front r next rest
  rw [scanNotifyFrom]
  simp only [hinfo, hnext, haction, hlength, hname, hdrop, shown_at r (r.padding ++ rest) rfl]
  rw [if_neg]
  rw [List.length_append, List.length_append, r.length_bytes, FileNotify.size]
  split <;> omega

theorem scanNotifyFrom_records (front stale : Bytes) {rs : List FileNotify} (hne : rs ≠ [])
    (hsize : (front ++ notifyBytes rs).length < 2 ^ 32) {turns : ℕ} (hturns : rs.length ≤ turns)
    (command click : Bool) :
    scanNotifyFrom lstrcmpiW cfg (front ++ (notifyBytes rs ++ stale)) turns
        (UInt32.ofNat front.length) command click =
      some (command || anyConcerns lstrcmpiW cfg .command rs,
        click || anyConcerns lstrcmpiW cfg .click rs) := by
  induction rs generalizing front turns command click with
  | nil => exact absurd rfl hne
  | cons r rs ih =>
      obtain ⟨turns, rfl⟩ := Nat.exists_eq_add_of_le' (Nat.le_trans (by simp) hturns : 1 ≤ turns)
      cases rs with
      | nil =>
          rw [notifyBytes, scanNotifyFrom_record front r 0 stale hsize, if_pos rfl]
          simp [anyConcerns]
      | cons s rs =>
          have hlength := hsize
          rw [notifyBytes, ← List.append_assoc, List.length_append, List.length_append,
            r.length_bytes] at hlength
          have hsizeNat : (UInt32.ofNat r.size).toNat = r.size :=
            toNat_u32_ofNat (by omega)
          have hnext : UInt32.ofNat r.size ≠ 0 := by
            intro h
            have hzero := congrArg UInt32.toNat h
            rw [hsizeNat, FileNotify.size] at hzero
            change _ = 0 at hzero
            omega
          have hoffset : UInt32.ofNat front.length + UInt32.ofNat r.size =
              UInt32.ofNat (front ++ r.bytes (UInt32.ofNat r.size)).length := by
            rw [← UInt32.ofNat_add, List.length_append, r.length_bytes]
          have hrest := ih (front ++ r.bytes (UInt32.ofNat r.size)) (by simp)
            (by rwa [List.append_assoc, ← notifyBytes]) (Nat.le_of_succ_le_succ hturns)
            (command || cfg.concerns lstrcmpiW .command r.action r.shown)
            (click || cfg.concerns lstrcmpiW .click r.action r.shown)
          rw [notifyBytes, List.append_assoc (r.bytes _),
            scanNotifyFrom_record front r _ _ (by rw [List.length_append, r.length_bytes]; omega),
            if_neg hnext, hoffset, ← List.append_assoc, hrest]
          simp only [anyConcerns, List.any_cons, Bool.or_assoc]

/-- Over any records that fit the buffer, whatever is behind them, the loop ends,
reads nothing beyond the buffer, and sets each flag precisely if one of the
records is a write to a file of that name. -/
theorem scanNotifyBuffer_records {rs : List FileNotify} (hne : rs ≠ []) {stale : Bytes}
    (hsize : (notifyBytes rs ++ stale).length = 4096) :
    scanNotifyBuffer lstrcmpiW cfg (notifyBytes rs ++ stale) =
      some (anyConcerns lstrcmpiW cfg .command rs, anyConcerns lstrcmpiW cfg .click rs) := by
  have hlength := length_le_notifyBytes rs
  rw [List.length_append] at hsize
  have h := @scanNotifyFrom_records lstrcmpiW cfg [] stale rs hne
    (by rw [List.nil_append]; omega) (notifyBytes rs ++ stale).length
    (by rw [List.length_append]; omega) false false
  simp only [List.nil_append, Bool.false_or] at h
  exact h

end Scan

end Wallpiper.Loader
