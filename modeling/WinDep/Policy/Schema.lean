/-
# The schema of an inventory

The inventory is documented as a schema. The one that is collected fits it where
the system and its processor are known and the session has an architecture;
nothing else that a probe fails to find breaks it.
-/

import WinDep.Data.JsonSchema
import WinDep.Deploy.Inventory

namespace WinDep.Policy

open Json JsonSchema Deploy

/-! ## The schema -/

def agentSchema : JsonSchema := record [] [("version", string),
  ("bootMethod", words ["usb", "network", "unknown"]), ("peArch", string)]

def systemSchema : JsonSchema := record ["manufacturer", "model", "serial"] [
  ("manufacturer", string), ("model", string), ("sku", nullable .string),
  ("family", nullable .string), ("serial", string), ("uuid", nullable .string),
  ("assetTag", nullable .string), ("chassisType", string), ("isVirtual", kinds [.boolean])]

def firmwareSchema : JsonSchema := record ["firmwareType", "biosVersion"] [
  ("firmwareType", words ["UEFI", "BIOS", "unknown"]), ("biosVendor", nullable .string),
  ("biosVersion", string), ("biosReleaseDate", nullable .string),
  ("smbiosVersion", nullable .string), ("secureBoot", words ["on", "off", "unknown"])]

def securitySchema : JsonSchema := record [] [("tpmPresent", kinds [.boolean]),
  ("tpmVersion", nullable .string), ("tpmEnabled", nullable .boolean),
  ("tpmActivated", nullable .boolean)]

def cpuSchema : JsonSchema := record [] [("name", string), ("manufacturer", nullable .string),
  ("cores", kinds [.integer]), ("logicalProcessors", kinds [.integer]), ("architecture", string),
  ("maxClockMHz", nullable .integer)]

def moduleSchema : JsonSchema := record [] [("sizeGB", kinds [.number]),
  ("speedMHz", nullable .integer), ("manufacturer", nullable .string),
  ("partNumber", nullable .string)]

def memorySchema : JsonSchema := record ["totalGB"] [("totalGB", kinds [.number]),
  ("moduleCount", kinds [.integer]), ("modules", listOf moduleSchema)]

def diskSchema : JsonSchema := record ["index", "sizeGB"] [("index", kinds [.integer]),
  ("model", nullable .string), ("sizeGB", kinds [.number]),
  ("mediaType", words ["SSD", "HDD", "NVMe", "SCM", "removable", "unknown"]),
  ("bus", nullable .string), ("serial", nullable .string)]

def storageSchema : JsonSchema := record ["disks"] [("disks", listOf diskSchema)]

def adapterSchema : JsonSchema := record [] [("name", nullable .string), ("make", nullable .string),
  ("model", nullable .string), ("mac", nullable .string), ("type", nullable .string)]

def networkSchema : JsonSchema := record [] [("adapters", listOf adapterSchema)]

def gpuSchema : JsonSchema := record [] [("name", string), ("make", nullable .string),
  ("model", nullable .string), ("driverVersion", nullable .string)]

/-- `inventory.schema.json` -/
def inventorySchema : JsonSchema := record
  ["schemaVersion", "collectedAt", "system", "firmware", "security", "cpu", "memory", "storage",
    "network"]
  [("schemaVersion", words ["1.0"]), ("collectedAt", string), ("agent", agentSchema),
    ("system", systemSchema), ("firmware", firmwareSchema), ("security", securitySchema),
    ("cpu", cpuSchema), ("memory", memorySchema), ("storage", storageSchema),
    ("network", networkSchema), ("gpu", listOf gpuSchema)]

/-! ## What is collected -/

variable {ps : PowerShell} {toInt : String → Option ℤ} {le : String → String → Bool} {m : Machine}
  {bootMethod : String} {o : Option String} {v : Json}

@[simp] theorem string_optional : string (Deploy.optional o) = o.isSome := by
  cases o <;> rfl

@[simp] theorem nullable_optional : nullable .string (Deploy.optional o) = true := by
  cases o <;> rfl

@[simp] theorem nullable_trimmedIf : nullable .string (trimmedIf o) = true := by
  unfold trimmedIf
  split_ifs <;> rfl

@[simp] theorem number_roundGB (bytes digits : ℕ) :
    kinds [.number] (roundGB bytes digits) = true := rfl

@[simp] theorem integer_int (n : ℤ) : kinds [.integer] (int n) = true := by
  simp [kinds, Kind.admits, int, Number.isInteger_ofInt]

@[simp] theorem nullable_integer_int (n : ℤ) : nullable .integer (int n) = true := by
  have h := integer_int n
  simp only [kinds, List.any_cons, List.any_nil, Bool.or_false] at h
  simp [nullable, kinds, h]

theorem systemSchema_systemObject :
    systemSchema (systemObject ps m) = m.computerSystem.isSome := by
  simp [systemSchema, systemObject, record, List.lookup_cons, Machine.manufacturer, Machine.model]

theorem firmwareSchema_firmwareObject : firmwareSchema (firmwareObject m) = true := by
  have htype : m.firmwareType ∈ ["UEFI", "BIOS", "unknown"] := by
    unfold Machine.firmwareType
    split <;> simp
  have hboot : m.secureBoot ∈ ["on", "off", "unknown"] := by
    unfold Machine.secureBoot
    split
    · simp
    · simp
    · split <;> simp
  simp [firmwareSchema, firmwareObject, record, List.lookup_cons, htype, hboot]

theorem securitySchema_securityObject : securitySchema (securityObject m) = true := by
  cases htpm : m.tpm <;> simp [securitySchema, securityObject, record, List.lookup_cons, htpm]

theorem cpuSchema_cpuObject : cpuSchema (cpuObject m) = m.processor.isSome := by
  cases hcpu : m.processor <;> simp [cpuSchema, cpuObject, record, List.lookup_cons, hcpu]

theorem memorySchema_memoryObject : memorySchema (memoryObject m) = true := by
  have hmodule (d : PhysicalMemory) : moduleSchema (moduleObject d) = true := by
    by_cases hspeed : d.speed = 0 <;>
      simp [moduleSchema, moduleObject, record, List.lookup_cons, hspeed]
  simp [memorySchema, memoryObject, record, List.lookup_cons, listOf_arr, hmodule]

/-- Both listings of the disks fit the schema. -/
theorem diskSchema_diskObjects : ∀ d ∈ diskObjects ps toInt le m, diskSchema d = true := by
  have hmedia (n : ℕ) : mediaMap n ∈ ["SSD", "HDD", "NVMe", "SCM", "removable", "unknown"] := by
    unfold mediaMap
    split <;> simp
  have hphysical (d : PhysicalDisk) (i : ℤ) : diskSchema (physicalDiskObject d i) = true := by
    by_cases hbus : d.busType = 17
    · simp [diskSchema, physicalDiskObject, record, List.lookup_cons, hbus]
    · simpa [diskSchema, physicalDiskObject, record, List.lookup_cons, hbus] using
        hmedia d.mediaType
  have hdrive (d : DiskDrive) : diskSchema (diskDriveObject ps d) = true := by
    simp only [diskSchema, diskDriveObject, record, List.lookup_cons]
    split_ifs <;> simp
  intro d hd
  unfold diskObjects at hd
  split at hd
  · obtain ⟨drive, -, rfl⟩ := List.mem_map.mp hd
    exact hdrive drive
  · unfold physicalDiskObjects at hd
    dsimp only at hd
    split_ifs at hd
    · obtain ⟨disk, -, rfl⟩ := List.mem_map.mp hd
      exact hphysical disk _
    · cases hd

theorem adapterSchema_adapterObjects : ∀ n ∈ adapterObjects m, adapterSchema n = true := by
  intro v hv
  obtain ⟨n, -, rfl⟩ := List.mem_map.mp hv
  simp [adapterSchema, record, List.lookup_cons]

theorem gpuSchema_gpuObjects : ∀ g ∈ gpuObjects m, gpuSchema g = true := by
  intro v hv
  obtain ⟨g, -, rfl⟩ := List.mem_map.mp hv
  simp [gpuSchema, record, List.lookup_cons]

/-- **What is collected fits the schema** exactly if the system and its processor are found, the
session has an architecture, and the way it was booted is one of the words for it. -/
theorem inventorySchema_collected_iff (ps : PowerShell) (toInt : String → Option ℤ)
    (le : String → String → Bool) (m : Machine) (bootMethod : String) :
    inventorySchema (getInventoryOf ps toInt le m bootMethod) = true ↔
      m.computerSystem.isSome = true ∧ m.processor.isSome = true ∧
        m.processorArchitecture.isSome = true ∧ bootMethod ∈ ["usb", "network", "unknown"] := by
  have hagent : agentSchema (.obj [("version", .str "1.0"), ("bootMethod", .str bootMethod),
      ("peArch", Deploy.optional m.processorArchitecture)]) =
        (decide (bootMethod ∈ ["usb", "network", "unknown"]) &&
          m.processorArchitecture.isSome) := by
    simp [agentSchema, record, List.lookup_cons]
  have hstorage : storageSchema (.obj [("disks", .arr (diskObjects ps toInt le m))]) = true := by
    simpa [storageSchema, record, List.lookup_cons, listOf_arr] using diskSchema_diskObjects
  have hnetwork : networkSchema (.obj [("adapters", .arr (adapterObjects m))]) = true := by
    simpa [networkSchema, record, List.lookup_cons, listOf_arr] using
      adapterSchema_adapterObjects
  have hgpu : listOf gpuSchema (.arr (gpuObjects m)) = true :=
    listOf_arr.mpr gpuSchema_gpuObjects
  have hmembers : inventorySchema (getInventoryOf ps toInt le m bootMethod) =
      (agentSchema (.obj [("version", .str "1.0"), ("bootMethod", .str bootMethod),
          ("peArch", Deploy.optional m.processorArchitecture)]) &&
        (systemSchema (systemObject ps m) && cpuSchema (cpuObject m))) := by
    simp [inventorySchema, getInventoryOf, record, List.lookup_cons,
      firmwareSchema_firmwareObject, securitySchema_securityObject, memorySchema_memoryObject,
      hstorage, hnetwork, hgpu]
  rw [hmembers, hagent, systemSchema_systemObject, cpuSchema_cpuObject]
  simp only [Bool.and_eq_true, decide_eq_true_eq]
  tauto

end WinDep.Policy
