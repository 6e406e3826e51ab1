import Mathlib.Logic.Function.Basic
import Wallpiper.Foundations.BoundedMaps
import Wallpiper.Foundations.CText
import Wallpiper.Foundations.Ledgers
import Wallpiper.Foundations.Runs

/-!
# Devices of the Vulkan layer

The layer keeps data for each device that it has created for the application
and finds it by the dispatch key that the device shares with its queues.  The
driver below creates and destroys the devices themselves.
-/

namespace Wallpiper.Capture.Devices

open Foundations Foundations.CText

def wpMaxDevices : ℕ := 4

def wpMaxQueues : ℕ := 16

/-- A handle and the key that it and its queues are dispatched by. -/
structure VkDevice where
  handle : ℕ
  dispatchKey : ℕ
  deriving DecidableEq, Repr

structure WpDeviceData where
  dispatchKey : ℕ
  device : ℕ
  queueFamilies : List (ℕ × UInt32)
  deriving DecidableEq, Repr

def requiredDeviceExtensions : List Bytes :=
  [bytesOf "VK_EXT_image_drm_format_modifier", bytesOf "VK_KHR_image_format_list",
    bytesOf "VK_KHR_external_semaphore", bytesOf "VK_KHR_external_semaphore_fd"]

/-- The extensions that the driver is asked for. -/
def enabledExtensions (isTarget allocated : Bool) (requested : List Bytes) : List Bytes :=
  if isTarget && allocated then
    requested ++ requiredDeviceExtensions.filter fun e ↦ !requested.contains e
  else requested

/-! ## The table -/

def wpDeviceDataCreate (table : List WpDeviceData) (device : VkDevice) (allocated : Bool) :
    Option (List WpDeviceData) :=
  if allocated = true ∧ table.length < wpMaxDevices then
    some (table ++ [⟨device.dispatchKey, device.handle, []⟩])
  else none

def wpDeviceDataFind (table : List WpDeviceData) (dispatchKey : ℕ) : Option WpDeviceData :=
  table.find? fun data ↦ data.dispatchKey == dispatchKey

def wpDeviceDataRemove (table : List WpDeviceData) (dispatchKey : ℕ) : List WpDeviceData :=
  match table.findIdx? fun data ↦ data.dispatchKey == dispatchKey with
  | some i => removeSwap table i
  | none => table

def wpQueueFamilyFor (data : WpDeviceData) (queue : ℕ) : Option UInt32 :=
  valueOf data.queueFamilies queue

def wpQueueFamilySet (data : WpDeviceData) (queue : ℕ) (family : UInt32) : WpDeviceData :=
  { data with queueFamilies := storeValue wpMaxQueues data.queueFamilies queue family }

/-! ## The layer between the application and the driver -/

/-- A device that the driver was asked for, and whether the table of extension
names could be allocated. -/
structure DeviceRequest where
  namesAllocated : Bool
  requested : List Bytes
  enabled : List Bytes
  deriving DecidableEq, Repr

/-- `owned` are the devices that the application has, `leaked` those that the
driver has created although the application was told otherwise, and `handed`
the queues that the driver has handed out for a device, the oldest first. -/
structure DeviceLayer where
  table : List WpDeviceData
  driver : Ledger ℕ
  owned : List VkDevice
  leaked : List VkDevice
  handed : ℕ → List (ℕ × UInt32)
  asked : List DeviceRequest
  nullDereferences : ℕ

def DeviceLayer.initial : DeviceLayer := ⟨[], ⟨[], 0⟩, [], [], fun _ ↦ [], [], 0⟩

inductive DeviceLabel where
  /-- the driver's device, and whether the two allocations of the layer succeed -/
  | createDevice (requested : List Bytes) (created : Option VkDevice)
      (namesAllocated dataAllocated : Bool)
  | destroyDevice (device : VkDevice)
  | getDeviceQueue (device : VkDevice) (queue : ℕ) (family : UInt32)
  /-- a swapchain call or a present, which is passed on -/
  | passOn (device : VkDevice)
  deriving DecidableEq, Repr

/-- The driver's devices differ, and the application uses its own. -/
def DeviceAdmissible (s : DeviceLayer) : DeviceLabel → Prop
  | .createDevice _ created _ _ => ∀ d ∈ created, ∀ e ∈ s.owned ++ s.leaked,
      e.handle ≠ d.handle ∧ e.dispatchKey ≠ d.dispatchKey
  | .destroyDevice device => device ∈ s.owned
  | .getDeviceQueue device _ _ => device ∈ s.owned
  | .passOn device => device ∈ s.owned

instance (s : DeviceLayer) (l : DeviceLabel) : Decidable (DeviceAdmissible s l) := by
  cases l <;> unfold DeviceAdmissible <;> infer_instance

def wpCreateDevice (isTarget : Bool) (s : DeviceLayer) (requested : List Bytes)
    (created : Option VkDevice) (namesAllocated dataAllocated : Bool) : DeviceLayer :=
  let s :=
    { s with
      asked := s.asked ++
        [⟨namesAllocated, requested, enabledExtensions isTarget namesAllocated requested⟩] }
  match created with
  | none => s
  | some device =>
      let s :=
        { s with
          driver := s.driver.apply (.create device.handle)
          handed := Function.update s.handed device.handle [] }
      match wpDeviceDataCreate s.table device dataAllocated with
      | some table => { s with table := table, owned := device :: s.owned }
      | none => { s with leaked := device :: s.leaked }

def wpDestroyDevice (s : DeviceLayer) (device : VkDevice) : DeviceLayer :=
  let s :=
    { s with
      driver :=
        if (wpDeviceDataFind s.table device.dispatchKey).isSome then
          s.driver.apply (.destroy device.handle)
        else s.driver
      owned := s.owned.erase device }
  { s with table := wpDeviceDataRemove s.table device.dispatchKey }

/-- The data is looked up and used without a check. -/
def withData (s : DeviceLayer) (device : VkDevice) (f : WpDeviceData → WpDeviceData) :
    DeviceLayer :=
  match s.table.findIdx? fun data ↦ data.dispatchKey == device.dispatchKey with
  | none => { s with nullDereferences := s.nullDereferences + 1 }
  | some i =>
      { s with
        table := s.table.modify i f
        driver := s.driver.apply (.use device.handle) }

def wpGetDeviceQueue (isTarget : Bool) (s : DeviceLayer) (device : VkDevice) (queue : ℕ)
    (family : UInt32) : DeviceLayer :=
  { withData s device fun data ↦ if isTarget then wpQueueFamilySet data queue family else data with
    handed := Function.update s.handed device.handle
      (s.handed device.handle ++ [(queue, family)]) }

def deviceStep (isTarget : Bool) (s : DeviceLayer) (l : DeviceLabel) : Option DeviceLayer :=
  if DeviceAdmissible s l then
    some <|
      match l with
      | .createDevice requested created namesAllocated dataAllocated =>
          wpCreateDevice isTarget s requested created namesAllocated dataAllocated
      | .destroyDevice device => wpDestroyDevice s device
      | .getDeviceQueue device queue family => wpGetDeviceQueue isTarget s device queue family
      | .passOn device => withData s device id
  else none

/-! ## The invariant -/

/-- The device that an entry is about. -/
def WpDeviceData.vkDevice (data : WpDeviceData) : VkDevice := ⟨data.device, data.dispatchKey⟩

def DeviceLayer.known (s : DeviceLayer) : List VkDevice := s.owned ++ s.leaked

/-- What an entry keeps of the queues that were handed out: the families stored
last in the target process, and nothing in any other. -/
def QueuesKept (isTarget : Bool) (handed families : List (ℕ × UInt32)) : Prop :=
  if isTarget then StoresLast wpMaxQueues handed families else families = []

theorem queuesKept_nil (isTarget : Bool) : QueuesKept isTarget [] [] := by
  cases isTarget
  · rfl
  · exact StoresLast.nil wpMaxQueues

structure DevicesSound (isTarget : Bool) (s : DeviceLayer) : Prop where
  dereferences : s.nullDereferences = 0
  driver : s.driver.Accounts (s.known.map VkDevice.handle)
  handles : (s.known.map VkDevice.handle).Nodup
  keys : (s.known.map VkDevice.dispatchKey).Nodup
  table : (s.table.map WpDeviceData.vkDevice).Perm s.owned
  capacity : s.table.length ≤ wpMaxDevices
  queues : ∀ data ∈ s.table, QueuesKept isTarget (s.handed data.device) data.queueFamilies

variable {isTarget : Bool}

theorem devicesSound_initial : DevicesSound isTarget .initial where
  dereferences := rfl
  driver := ⟨rfl, .refl _⟩
  handles := List.nodup_nil
  keys := List.nodup_nil
  table := .refl _
  capacity := Nat.zero_le _
  queues := fun _ h ↦ absurd h List.not_mem_nil

theorem ne_of_nodup_map {β : Type*} {f : WpDeviceData → β} {front back : List WpDeviceData}
    {data : WpDeviceData} (h : ((front ++ data :: back).map f).Nodup) :
    ∀ e ∈ front ++ back, f e ≠ f data := by
  intro e he heq
  have hmiddle : ((data :: (front ++ back)).map f).Nodup :=
    (List.perm_middle.map f).nodup_iff.mp h
  exact (List.nodup_cons.mp hmiddle).1 (heq ▸ List.mem_map_of_mem he)

/-- The entry of an owned device, found by its key. -/
theorem DevicesSound.entry {s : DeviceLayer} (h : DevicesSound isTarget s) {device : VkDevice}
    (hdevice : device ∈ s.owned) : ∃ front data back, s.table = front ++ data :: back ∧
      data.vkDevice = device ∧ wpDeviceDataFind s.table device.dispatchKey = some data ∧
      (s.table.findIdx? fun e ↦ e.dispatchKey == device.dispatchKey) = some front.length ∧
      ∀ e ∈ front ++ back, e.device ≠ device.handle := by
  obtain ⟨data, hdata, rfl⟩ := List.mem_map.mp (h.table.mem_iff.mpr hdevice)
  obtain ⟨front, back, htable⟩ := List.append_of_mem hdata
  have hkeys : (s.table.map WpDeviceData.dispatchKey).Nodup := by
    have hperm := h.table.map VkDevice.dispatchKey
    rw [List.map_map] at hperm
    refine hperm.nodup_iff.mpr (h.keys.sublist ?_)
    exact (List.sublist_append_left s.owned s.leaked).map _
  have hhandles : (s.table.map WpDeviceData.device).Nodup := by
    have hperm := h.table.map VkDevice.handle
    rw [List.map_map] at hperm
    refine hperm.nodup_iff.mpr (h.handles.sublist ?_)
    exact (List.sublist_append_left s.owned s.leaked).map _
  have hfront : ∀ e ∈ front, (e.dispatchKey == data.dispatchKey) = false := fun e he ↦
    beq_eq_false_iff_ne.mpr (ne_of_nodup_map (htable ▸ hkeys) e (List.mem_append_left _ he))
  have hself : (data.dispatchKey == data.dispatchKey) = true := beq_self_eq_true _
  refine ⟨front, data, back, htable, rfl, ?_, ?_, ne_of_nodup_map (htable ▸ hhandles)⟩
  · have hnone : (front.find? fun e ↦ e.dispatchKey == data.dispatchKey) = none :=
      List.find?_eq_none.mpr fun e he ↦ by simpa using hfront e he
    rw [wpDeviceDataFind, htable, List.find?_append]
    change ((front.find? fun e ↦ e.dispatchKey == data.dispatchKey).or _) = _
    rw [hnone, Option.none_or]
    exact List.find?_cons_of_pos hself
  · rw [htable, List.findIdx?_append]
    change ((front.findIdx? fun e ↦ e.dispatchKey == data.dispatchKey).or _) = _
    rw [List.findIdx?_eq_none_iff.mpr hfront, Option.none_or, List.findIdx?_cons]
    change Option.map _ (if (data.dispatchKey == data.dispatchKey) = true then _ else _) = _
    rw [if_pos hself]
    simp

theorem modify_middle (front back : List WpDeviceData) (data : WpDeviceData)
    (f : WpDeviceData → WpDeviceData) :
    (front ++ data :: back).modify front.length f = front ++ f data :: back := by
  induction front with
  | nil => rfl
  | cons e front ih => exact congrArg (e :: ·) ih

/-! ## One call -/

theorem DevicesSound.withData {s : DeviceLayer} (h : DevicesSound isTarget s) {device : VkDevice}
    (hdevice : device ∈ s.owned) {f : WpDeviceData → WpDeviceData}
    (hf : ∀ data, (f data).vkDevice = data.vkDevice) {handed : List (ℕ × UInt32)}
    (hqueues : ∀ data, QueuesKept isTarget (s.handed device.handle) data.queueFamilies →
      QueuesKept isTarget handed (f data).queueFamilies) :
    DevicesSound isTarget { withData s device f with
      handed := Function.update s.handed device.handle handed } := by
  obtain ⟨front, data, back, htable, rfl, -, hindex, hothers⟩ := h.entry hdevice
  have hwith : Devices.withData s data.vkDevice f =
      { s with
        table := front ++ f data :: back
        driver := s.driver.apply (.use data.vkDevice.handle) } := by
    rw [Devices.withData, hindex]
    simp only [htable, modify_middle]
  have hsame : (f data).device = data.device := congrArg VkDevice.handle (hf data)
  have hknown : data.vkDevice.handle ∈ s.known.map VkDevice.handle :=
    List.mem_map_of_mem (List.mem_append_left _ hdevice)
  rw [hwith]
  exact {
    dereferences := h.dereferences
    driver := Moves.use hknown s.driver [] (fun _ hk ↦ absurd hk (by simp)) h.driver
    handles := h.handles
    keys := h.keys
    table := by
      have hmap : (front ++ f data :: back).map WpDeviceData.vkDevice =
          s.table.map WpDeviceData.vkDevice := by
        simp [htable, hf]
      exact (List.Perm.of_eq hmap).trans h.table
    capacity := by
      have hlength : (front ++ f data :: back).length = s.table.length := by simp [htable]
      exact hlength.trans_le h.capacity
    queues := by
      intro e he
      rcases List.mem_cons.mp (List.perm_middle.mem_iff.mp he) with rfl | he
      · have hhanded : Function.update s.handed data.vkDevice.handle handed (f data).device =
            handed := by
          rw [hsame]
          exact Function.update_self _ _ _
        change QueuesKept _ (Function.update s.handed data.vkDevice.handle handed _) _
        rw [hhanded]
        exact hqueues data (h.queues data (by simp [htable]))
      · have hhanded : Function.update s.handed data.vkDevice.handle handed e.device =
            s.handed e.device := Function.update_of_ne (hothers e he) _ _
        change QueuesKept _ (Function.update s.handed data.vkDevice.handle handed _) _
        rw [hhanded]
        apply h.queues e
        rw [htable]
        exact List.perm_middle.mem_iff.mpr (List.mem_cons_of_mem _ he) }

theorem DevicesSound.passOn {s : DeviceLayer} (h : DevicesSound isTarget s) {device : VkDevice}
    (hdevice : device ∈ s.owned) : DevicesSound isTarget (Devices.withData s device id) := by
  have hhanded : (Devices.withData s device id).handed = s.handed := by
    unfold Devices.withData
    split <;> rfl
  have hsound := h.withData hdevice (fun _ ↦ rfl) (f := id) fun _ hqueues ↦ hqueues
  rw [Function.update_eq_self, ← hhanded] at hsound
  exact hsound

theorem DevicesSound.getDeviceQueue {s : DeviceLayer} (h : DevicesSound isTarget s)
    {device : VkDevice} (hdevice : device ∈ s.owned) (queue : ℕ) (family : UInt32) :
    DevicesSound isTarget (wpGetDeviceQueue isTarget s device queue family) := by
  refine h.withData hdevice (fun data ↦ ?_) fun data hqueues ↦ ?_
  · cases isTarget <;> rfl
  · cases isTarget with
    | false => exact hqueues
    | true => exact StoresLast.store hqueues queue family

theorem DevicesSound.destroyDevice {s : DeviceLayer} (h : DevicesSound isTarget s)
    {device : VkDevice} (hdevice : device ∈ s.owned) :
    DevicesSound isTarget (wpDestroyDevice s device) := by
  obtain ⟨front, data, back, htable, rfl, hfind, hindex, hothers⟩ := h.entry hdevice
  have hentry : s.table[front.length]? = some data := by simp [htable]
  have hremoved := perm_removeSwap hentry
  have hdestroy : wpDestroyDevice s data.vkDevice =
      { s with
        table := removeSwap s.table front.length
        driver := s.driver.apply (.destroy data.vkDevice.handle)
        owned := s.owned.erase data.vkDevice } := by
    rw [wpDestroyDevice, hfind, wpDeviceDataRemove, hindex]
    rfl
  have hknown : s.known.Perm (data.vkDevice :: (s.owned.erase data.vkDevice ++ s.leaked)) :=
    (List.perm_cons_erase hdevice).append_right s.leaked
  have hrest : (s.owned.erase data.vkDevice ++ s.leaked).Sublist s.known :=
    List.erase_sublist.append_right s.leaked
  rw [hdestroy]
  exact {
    dereferences := h.dereferences
    driver := Moves.destroy data.vkDevice.handle _ s.driver []
      (fun _ hk ↦ absurd hk (by simp)) (h.driver.perm (hknown.map VkDevice.handle))
    handles := h.handles.sublist (hrest.map _)
    keys := h.keys.sublist (hrest.map _)
    table := by
      have hmap := (hremoved.map WpDeviceData.vkDevice).symm.trans h.table
      exact List.Perm.cons_inv (hmap.trans (List.perm_cons_erase hdevice))
    capacity := by
      have hlength := hremoved.length_eq
      rw [List.length_cons] at hlength
      exact (Nat.le_succ _).trans (hlength.symm.trans_le h.capacity)
    queues := fun e he ↦ h.queues e (hremoved.mem_iff.mpr (List.mem_cons_of_mem _ he)) }

/-- The driver has another device, which the table holds or not. -/
theorem DevicesSound.newDevice {s : DeviceLayer} (h : DevicesSound isTarget s) {device : VkDevice}
    (hnew : ∀ e ∈ s.known, e.handle ≠ device.handle ∧ e.dispatchKey ≠ device.dispatchKey)
    {table : List WpDeviceData} {owned leaked : List VkDevice}
    (hknown : (owned ++ leaked).Perm (device :: s.known))
    (htable : (table.map WpDeviceData.vkDevice).Perm owned)
    (hcapacity : table.length ≤ wpMaxDevices)
    (hentries : ∀ e ∈ table, e ∈ s.table ∨ e.queueFamilies = [] ∧ e.device = device.handle)
    (asked : List DeviceRequest) :
    DevicesSound isTarget
      { s with
        asked := asked, driver := s.driver.apply (.create device.handle), table := table
        handed := Function.update s.handed device.handle []
        owned := owned, leaked := leaked } := by
  have hhandle : device.handle ∉ s.known.map VkDevice.handle := by
    intro hmem
    obtain ⟨e, he, heq⟩ := List.mem_map.mp hmem
    exact (hnew e he).1 heq
  have hkey : device.dispatchKey ∉ s.known.map VkDevice.dispatchKey := by
    intro hmem
    obtain ⟨e, he, heq⟩ := List.mem_map.mp hmem
    exact (hnew e he).2 heq
  exact {
    dereferences := h.dereferences
    driver := (Moves.create hhandle s.driver [] (fun _ _ ↦ List.not_mem_nil) h.driver).perm
      (hknown.map VkDevice.handle).symm
    handles := (hknown.map VkDevice.handle).nodup_iff.mpr (List.nodup_cons.mpr ⟨hhandle, h.handles⟩)
    keys := (hknown.map VkDevice.dispatchKey).nodup_iff.mpr (List.nodup_cons.mpr ⟨hkey, h.keys⟩)
    table := htable
    capacity := hcapacity
    queues := by
      intro e he
      change QueuesKept _ (Function.update s.handed device.handle [] e.device) _
      rcases hentries e he with hold | ⟨hempty, hself⟩
      · have hne : e.device ≠ device.handle := by
          intro heq
          have hmem : e.vkDevice ∈ s.known :=
            List.mem_append_left _ (h.table.mem_iff.mp (List.mem_map_of_mem hold))
          exact (hnew _ hmem).1 heq
        rw [Function.update_of_ne hne]
        exact h.queues e hold
      · rw [hself, Function.update_self, hempty]
        exact queuesKept_nil isTarget }

theorem DevicesSound.createDevice {s : DeviceLayer} (h : DevicesSound isTarget s)
    (requested : List Bytes) {created : Option VkDevice}
    (hnew : ∀ d ∈ created, ∀ e ∈ s.known, e.handle ≠ d.handle ∧ e.dispatchKey ≠ d.dispatchKey)
    (namesAllocated dataAllocated : Bool) :
    DevicesSound isTarget
      (wpCreateDevice isTarget s requested created namesAllocated dataAllocated) := by
  cases created with
  | none => exact ⟨h.dereferences, h.driver, h.handles, h.keys, h.table, h.capacity, h.queues⟩
  | some device =>
      have hdevice := hnew device rfl
      unfold wpCreateDevice wpDeviceDataCreate
      by_cases hroom : dataAllocated = true ∧ s.table.length < wpMaxDevices
      · simp only [if_pos hroom]
        apply h.newDevice hdevice (.refl _)
        · rw [List.map_append]
          exact (List.perm_append_singleton _ _).trans (h.table.cons _)
        · rw [List.length_append, List.length_singleton]
          exact hroom.2
        · intro e he
          rcases List.mem_append.mp he with hold | hself
          · exact .inl hold
          · rw [List.mem_singleton.mp hself]
            exact .inr ⟨rfl, rfl⟩
      · simp only [if_neg hroom]
        exact h.newDevice hdevice List.perm_middle h.table h.capacity (fun _ he ↦ .inl he) _

theorem devicesSound_step {s t : DeviceLayer} {l : DeviceLabel} (h : DevicesSound isTarget s)
    (hstep : deviceStep isTarget s l = some t) : DevicesSound isTarget t := by
  unfold deviceStep at hstep
  split at hstep
  · rename_i hadmissible
    obtain rfl := Option.some.inj hstep
    cases l with
    | createDevice requested created namesAllocated dataAllocated =>
        exact h.createDevice requested hadmissible namesAllocated dataAllocated
    | destroyDevice device => exact h.destroyDevice hadmissible
    | getDeviceQueue device queue family =>
        exact h.getDeviceQueue hadmissible queue family
    | passOn device => exact h.passOn hadmissible
  · exact absurd hstep (by simp)

/-! ## What the driver is asked for -/

/-- In the target process, when there is room for the names, the missing
required extensions come after the requested ones, each once; otherwise the
request goes on as it is. -/
structure AskedFor (isTarget : Bool) (request : DeviceRequest) : Prop where
  merged : isTarget = true → request.namesAllocated = true → ∃ added,
    request.enabled = request.requested ++ added ∧ added.Nodup ∧
      ∀ e, e ∈ added ↔ e ∈ requiredDeviceExtensions ∧ e ∉ request.requested
  asItIs : isTarget = false ∨ request.namesAllocated = false →
    request.enabled = request.requested

theorem askedFor_enabledExtensions (isTarget allocated : Bool) (requested : List Bytes) :
    AskedFor isTarget
      ⟨allocated, requested, enabledExtensions isTarget allocated requested⟩ := by
  have hnodup : requiredDeviceExtensions.Nodup := by decide +kernel
  constructor
  · rintro rfl rfl
    exact ⟨_, rfl, hnodup.filter _, fun e ↦ by simp⟩
  · rintro (rfl | rfl)
    · rfl
    · cases isTarget <;> rfl

def AskedSound (isTarget : Bool) (s : DeviceLayer) : Prop :=
  ∀ request ∈ s.asked, AskedFor isTarget request

theorem askedSound_step {s t : DeviceLayer} {l : DeviceLabel} (h : AskedSound isTarget s)
    (hstep : deviceStep isTarget s l = some t) : AskedSound isTarget t := by
  have hwith (device : VkDevice) (f : WpDeviceData → WpDeviceData) :
      (withData s device f).asked = s.asked := by
    unfold withData
    split <;> rfl
  unfold deviceStep at hstep
  split at hstep
  · obtain rfl := Option.some.inj hstep
    cases l with
    | createDevice requested created namesAllocated dataAllocated =>
        have hasked : (wpCreateDevice isTarget s requested created namesAllocated
            dataAllocated).asked =
              s.asked ++
                [⟨namesAllocated, requested,
                  enabledExtensions isTarget namesAllocated requested⟩] := by
          unfold wpCreateDevice
          simp only
          split
          · rfl
          · split <;> rfl
        intro request hmem
        rw [hasked] at hmem
        rcases List.mem_append.mp hmem with hold | hnew
        · exact h request hold
        · rw [List.mem_singleton.mp hnew]
          exact askedFor_enabledExtensions isTarget namesAllocated requested
    | destroyDevice device => exact h
    | getDeviceQueue device queue family => exact fun p hp ↦ h p (hwith device _ ▸ hp)
    | passOn device => exact fun p hp ↦ h p (hwith device id ▸ hp)
  · exact absurd hstep (by simp)

/-! ## Runs -/

/-- What the layer knows of a device: its own entry, and of its queues nothing
but the family handed out last, in the target process all of that for up to
sixteen queues, and in any other none of it. -/
structure KnownTo (isTarget : Bool) (s : DeviceLayer) (device : VkDevice) : Prop where
  entry : ∃ data, wpDeviceDataFind s.table device.dispatchKey = some data ∧
    data.device = device.handle ∧
    (∀ queue family, wpQueueFamilyFor data queue = some family →
      lastValue (s.handed device.handle) queue = some family) ∧
    (isTarget = false → ∀ queue, wpQueueFamilyFor data queue = none) ∧
    (isTarget = true →
      ((s.handed device.handle).map Prod.fst).dedup.length ≤ wpMaxQueues →
        ∀ queue, wpQueueFamilyFor data queue = lastValue (s.handed device.handle) queue)

/-- The driver never sees a dead device, the layer finds its data for every
device of the application and for no other key, and the driver is asked for
the requested extensions in their order and then, in the target process, for
those that are missing. -/
structure DevicesServed (isTarget : Bool) (s : DeviceLayer) : Prop where
  dereferences : s.nullDereferences = 0
  driver : s.driver.Accounts ((s.owned ++ s.leaked).map VkDevice.handle)
  known : ∀ device ∈ s.owned, KnownTo isTarget s device
  unknown : ∀ key, (∀ device ∈ s.owned, device.dispatchKey ≠ key) →
    wpDeviceDataFind s.table key = none
  few : s.owned.length ≤ wpMaxDevices
  asked : AskedSound isTarget s

theorem DevicesSound.served {s : DeviceLayer} (h : DevicesSound isTarget s)
    (hasked : AskedSound isTarget s) : DevicesServed isTarget s where
  asked := hasked
  dereferences := h.dereferences
  driver := h.driver
  known := by
    intro device hdevice
    obtain ⟨front, data, back, htable, rfl, hfind, -, -⟩ := h.entry hdevice
    have hqueues := h.queues data (by simp [htable])
    cases isTarget with
    | false =>
        have hempty : data.queueFamilies = [] := hqueues
        have hnone : ∀ queue, wpQueueFamilyFor data queue = none := by
          intro queue
          rw [wpQueueFamilyFor, hempty]
          rfl
        refine ⟨data, hfind, rfl, fun queue family hfamily ↦ ?_, fun _ ↦ hnone,
          fun h ↦ absurd h (by simp)⟩
        exact absurd (hfamily.symm.trans (hnone queue)) (by simp)
    | true =>
        have hstored : StoresLast wpMaxQueues (s.handed data.device) data.queueFamilies := hqueues
        refine ⟨data, hfind, rfl, fun queue family hfamily ↦ ?_, fun h ↦ absurd h (by simp),
          fun _ ↦ hstored.valueOf_eq⟩
        exact hstored.last queue family ((valueOf_eq_some_iff hstored.nodup).mp hfamily)
  unknown := by
    intro key hkey
    refine List.find?_eq_none.mpr fun data hdata ↦ ?_
    have hne : data.dispatchKey ≠ key :=
      hkey data.vkDevice (h.table.mem_iff.mp (List.mem_map_of_mem hdata))
    simpa using hne
  few := by
    rw [← h.table.length_eq, List.length_map]
    exact h.capacity

/-- Over every run of device calls. -/
theorem devices_served (isTarget : Bool) (ls : List DeviceLabel) {s : DeviceLayer}
    (h : exec (deviceStep isTarget) .initial ls = some s) : DevicesServed isTarget s :=
  (exec_invariant (fun _ _ _ ↦ devicesSound_step) devicesSound_initial h).served
    (exec_invariant (I := AskedSound isTarget) (fun _ _ _ ↦ askedSound_step)
      (fun _ hp ↦ absurd hp List.not_mem_nil) h)

/-- Two devices with a queue each; the first is destroyed. -/
def twoDevices : List DeviceLabel :=
  [.createDevice [bytesOf "VK_KHR_swapchain"] (some ⟨1, 10⟩) true true,
    .createDevice [bytesOf "VK_KHR_external_semaphore"] (some ⟨2, 20⟩) true true,
    .getDeviceQueue ⟨1, 10⟩ 11 0, .getDeviceQueue ⟨2, 20⟩ 21 1, .passOn ⟨1, 10⟩,
    .destroyDevice ⟨1, 10⟩, .getDeviceQueue ⟨2, 20⟩ 21 2]

theorem devices_served_twoDevices :
    ∃ s, exec (deviceStep true) .initial twoDevices = some s ∧ DevicesServed true s :=
  ⟨_, rfl, devices_served true twoDevices rfl⟩

end Wallpiper.Capture.Devices
