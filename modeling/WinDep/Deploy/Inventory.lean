/-
# The inventory of a machine

`Get-Inventory` asks the machine and the registry about its hardware. Every probe
may find nothing, and what is not found is null, a word for unknown, or left out.
The object it makes is the document that the policy judges.
-/

import WinDep.Data.Regex
import WinDep.Deploy.Window

namespace WinDep.Deploy

open Json

/-! ## What the probes find -/

/-- `Win32_BIOS` -/
structure Bios where
  serialNumber : Option String
  manufacturer : Option String
  smbiosBiosVersion : Option String
  smbiosMajorVersion : Option ℕ
  smbiosMinorVersion : Option ℕ
  /-- in the round-trip format -/
  releaseDate : Option String

/-- `Win32_ComputerSystem` -/
structure ComputerSystem where
  manufacturer : Option String
  model : Option String
  systemFamily : Option String
  totalPhysicalMemory : ℕ

/-- `Win32_ComputerSystemProduct` -/
structure ComputerSystemProduct where
  identifyingNumber : Option String
  version : Option String
  uuid : Option String

/-- `Win32_SystemEnclosure` -/
structure SystemEnclosure where
  chassisTypes : List ℕ
  smbiosAssetTag : Option String

/-- `Win32_Tpm` -/
structure Tpm where
  isEnabled : Bool
  isActivated : Bool
  specVersion : Option String

/-- `Win32_Processor` -/
structure Processor where
  name : Option String
  manufacturer : Option String
  architecture : ℕ
  numberOfCores : ℕ
  numberOfLogicalProcessors : ℕ
  maxClockSpeed : ℕ

/-- `Win32_PhysicalMemory` -/
structure PhysicalMemory where
  capacity : ℕ
  speed : ℕ
  manufacturer : Option String
  partNumber : Option String

/-- `MSFT_PhysicalDisk` -/
structure PhysicalDisk where
  deviceId : String
  friendlyName : Option String
  size : ℕ
  mediaType : ℕ
  busType : ℕ
  serialNumber : Option String

/-- `Win32_DiskDrive` -/
structure DiskDrive where
  index : ℕ
  model : Option String
  size : ℕ
  mediaType : Option String
  interfaceType : Option String
  serialNumber : Option String

/-- `Win32_NetworkAdapter` -/
structure NetworkAdapter where
  name : Option String
  manufacturer : Option String
  productName : Option String
  description : Option String
  macAddress : Option String
  adapterType : Option String
  physicalAdapter : Bool

/-- `Win32_VideoController` -/
structure VideoController where
  name : Option String
  adapterCompatibility : Option String
  videoProcessor : Option String
  driverVersion : Option String

/-- What every probe finds. A number that a class leaves open reads as zero, and the counts fit an
`[int]`. -/
structure Machine where
  bios : Option Bios
  computerSystem : Option ComputerSystem
  product : Option ComputerSystemProduct
  enclosure : Option SystemEnclosure
  /-- `PEFirmwareType` in the registry -/
  peFirmwareType : Option ℤ
  /-- `Confirm-SecureBootUEFI`, which may fail -/
  confirmSecureBoot : Option Bool
  /-- `UEFISecureBootEnabled` in the registry -/
  uefiSecureBootEnabled : Option ℤ
  tpm : Option Tpm
  processor : Option Processor
  memory : List PhysicalMemory
  /-- the query may fail -/
  physicalDisks : Option (List PhysicalDisk)
  diskDrives : List DiskDrive
  adapters : List NetworkAdapter
  videoControllers : List VideoController
  /-- in the round-trip format -/
  utcNow : String
  processorArchitecture : Option String

/-! ## Values -/

/-- `"$(s)".Trim()` -/
def trimmed (s : Option String) : String := Window.trimString (s.getD "")

/-- `if ($s) { "$($s)".Trim() } else { $null }` -/
def trimmedIf (s : Option String) : Json :=
  if s.getD "" = "" then .null else .str (trimmed s)

/-- `[math]::Round($bytes/1GB, digits)` -/
def roundGB (bytes digits : ℕ) : Json :=
  .num (.ofDecimal (roundHalfEven (bytes * 10 ^ digits) (2 ^ 30)) digits)

def int (n : ℤ) : Json := .num (.ofInt n)

/-- The name of a chassis type. -/
def getChassisTypeName : ℕ → String
  | 3 => "Desktop"
  | 4 => "Low Profile Desktop"
  | 5 => "Pizza Box"
  | 6 => "Mini Tower"
  | 7 => "Tower"
  | 8 => "Portable"
  | 9 => "Laptop"
  | 10 => "Notebook"
  | 11 => "Handheld"
  | 12 => "Docking Station"
  | 13 => "All-in-One"
  | 14 => "Sub Notebook"
  | 15 => "Space-Saving"
  | 18 => "Expansion Chassis"
  | 21 => "Peripheral"
  | 23 => "Rack Mount"
  | 24 => "Sealed-Case PC"
  | 30 => "Tablet"
  | 31 => "Convertible"
  | 32 => "Detachable"
  | _ => "Unknown"

def archMap : ℕ → String
  | 0 => "x86"
  | 1 => "MIPS"
  | 2 => "Alpha"
  | 3 => "PowerPC"
  | 5 => "ARM"
  | 6 => "ia64"
  | 9 => "x64"
  | 12 => "ARM64"
  | _ => "unknown"

def mediaMap : ℕ → String
  | 3 => "HDD"
  | 4 => "SSD"
  | 5 => "SCM"
  | _ => "unknown"

def busMap : ℕ → Option String
  | 1 => some "SCSI"
  | 2 => some "ATAPI"
  | 3 => some "ATA"
  | 4 => some "1394"
  | 5 => some "SSA"
  | 6 => some "FibreChannel"
  | 7 => some "USB"
  | 8 => some "RAID"
  | 9 => some "iSCSI"
  | 10 => some "SAS"
  | 11 => some "SATA"
  | 12 => some "SD"
  | 13 => some "MMC"
  | 17 => some "NVMe"
  | 18 => some "SCM"
  | _ => none

section

variable (ps : PowerShell)

/-- Characters that are the same to `-match`. -/
def sameLetter (c d : Char) : Bool := ps.lower c == ps.lower d

/-- The words of a pattern, one of which is to be found. -/
def anyWord : List String → Regex
  | [] => .one fun _ => false
  | w :: ws => .alt (.word (sameLetter ps) w.toList) (anyWord ws)

def isMatch (r : Regex) (s : String) : Bool := (r.search true s.toList).isSome

/-- `^(0+|To be filled.*|Default string|System Serial Number|None)$` -/
def placeholder : Regex :=
  .seq .atStart (.seq (.alt (.seq (.one (· == '0')) (.many (· == '0')))
    (.alt (.seq (.word (sameLetter ps) "To be filled".toList) (.many (· != '\n')))
      (anyWord ps ["Default string", "System Serial Number", "None"]))) .atEnd)

namespace Machine

variable (m : Machine)

def manufacturer : Option String := m.computerSystem.map fun cs => trimmed cs.manufacturer

def model : Option String := m.computerSystem.map fun cs => trimmed cs.model

/-- The serial number of the firmware, or that of the product where it says nothing. -/
def serial : String :=
  let bios := (m.bios.bind Bios.serialNumber).getD ""
  let serial := if bios = "" then "" else Window.trimString bios
  let serial :=
    if serial = "" || isMatch (placeholder ps) serial then
      (m.product.map fun p => trimmed p.identifyingNumber).getD serial
    else serial
  if serial = "" then "UNKNOWN" else serial

def isVirtual : Bool :=
  let manufacturer := m.manufacturer.getD ""
  let model := m.model.getD ""
  isMatch (anyWord ps ["VMware", "VirtualBox", "innotek", "QEMU", "Xen", "Parallels",
      "Microsoft Corporation"]) manufacturer &&
    isMatch (anyWord ps ["Virtual", "VMware", "VirtualBox", "KVM", "Hyper-V"]) model ||
  isMatch (anyWord ps ["Virtual Machine"]) model

def chassis : String :=
  if m.isVirtual ps then "Virtual"
  else getChassisTypeName ((m.enclosure.map fun e => e.chassisTypes.headD 0).getD 0)

def firmwareType : String :=
  match m.peFirmwareType with
  | some 2 => "UEFI"
  | some 1 => "BIOS"
  | _ => "unknown"

/-- The registry is read where the cmdlet fails. -/
def secureBoot : String :=
  match m.confirmSecureBoot with
  | some true => "on"
  | some false => "off"
  | none =>
    match m.uefiSecureBootEnabled with
    | some 1 => "on"
    | some 0 => "off"
    | _ => "unknown"

def biosVersion : String :=
  if (m.bios.bind Bios.smbiosBiosVersion).getD "" = "" then "unknown"
  else trimmed (m.bios.bind Bios.smbiosBiosVersion)

/-- The first of the versions of the specification, which are separated by commas. -/
def tpmVersion : Option String :=
  (m.tpm.bind Tpm.specVersion).bind fun s =>
    if s = "" then none
    else some (Window.trimString (String.ofList (s.toList.takeWhile (· != ','))))

/-- The memory that the system reports, or that of the modules. -/
def memoryBytes : ℕ :=
  let reported := (m.computerSystem.map ComputerSystem.totalPhysicalMemory).getD 0
  if reported ≠ 0 then reported else (m.memory.map PhysicalMemory.capacity).sum

end Machine

variable (toInt : String → Option ℤ) (le : String → String → Bool)

/-! ## The object -/

def moduleObject (m : PhysicalMemory) : Json := .obj [
  ("sizeGB", roundGB m.capacity 1), ("speedMHz", if m.speed = 0 then .null else int m.speed),
  ("manufacturer", trimmedIf m.manufacturer), ("partNumber", trimmedIf m.partNumber)]

def physicalDiskObject (d : PhysicalDisk) (index : ℤ) : Json := .obj [
  ("index", int index), ("model", .str (trimmed d.friendlyName)), ("sizeGB", roundGB d.size 0),
  ("mediaType", .str (if d.busType = 17 then "NVMe" else mediaMap d.mediaType)),
  ("bus", optional (busMap d.busType)), ("serial", trimmedIf d.serialNumber)]

def diskDriveObject (d : DiskDrive) : Json := .obj [
  ("index", int d.index), ("model", .str (trimmed d.model)), ("sizeGB", roundGB d.size 0),
  ("mediaType", .str (if isMatch (anyWord ps ["Removable"]) (d.mediaType.getD "") then "removable"
    else "unknown")),
  ("bus", optional d.interfaceType), ("serial", trimmedIf d.serialNumber)]

/-- The disks of the storage provider, none if one of them has no number for an id. -/
def physicalDiskObjects (m : Machine) : List Json :=
  let ds := (m.physicalDisks.getD []).mergeSort fun d e => le d.deviceId e.deviceId
  if ds.all fun d => (toInt d.deviceId).isSome then
    ds.map fun d => physicalDiskObject d ((toInt d.deviceId).getD 0)
  else []

/-- The disks of the storage provider, or the disk drives where it has none. -/
def diskObjects (m : Machine) : List Json :=
  match physicalDiskObjects toInt le m with
  | [] => (m.diskDrives.mergeSort fun d e => d.index ≤ e.index).map (diskDriveObject ps)
  | ds => ds

/-- A physical adapter with an address. -/
def adapterObjects (m : Machine) : List Json :=
  (m.adapters.filter fun n => n.physicalAdapter && n.macAddress.getD "" != "").map fun n => .obj [
    ("name", .str (trimmed n.name)), ("make", trimmedIf n.manufacturer),
    ("model", .str (if n.productName.getD "" ≠ "" then trimmed n.productName
      else if n.description.getD "" ≠ "" then trimmed n.description else trimmed n.name)),
    ("mac", optional n.macAddress), ("type", optional n.adapterType)]

def gpuObjects (m : Machine) : List Json :=
  m.videoControllers.map fun g => .obj [
    ("name", .str (trimmed g.name)), ("make", trimmedIf g.adapterCompatibility),
    ("model", .str (if g.videoProcessor.getD "" ≠ "" then trimmed g.videoProcessor
      else trimmed g.name)),
    ("driverVersion", optional g.driverVersion)]

def systemObject (m : Machine) : Json := .obj [
  ("manufacturer", optional m.manufacturer), ("model", optional m.model),
  ("sku", optional (m.product.bind ComputerSystemProduct.version)),
  ("family", optional (m.computerSystem.bind ComputerSystem.systemFamily)),
  ("serial", .str (m.serial ps)), ("uuid", optional (m.product.bind ComputerSystemProduct.uuid)),
  ("assetTag", trimmedIf (m.enclosure.bind SystemEnclosure.smbiosAssetTag)),
  ("chassisType", .str (m.chassis ps)), ("isVirtual", .bool (m.isVirtual ps))]

def firmwareObject (m : Machine) : Json := .obj [
  ("firmwareType", .str m.firmwareType),
  ("biosVendor", optional (m.bios.map fun b => trimmed b.manufacturer)),
  ("biosVersion", .str m.biosVersion), ("biosReleaseDate", optional (m.bios.bind Bios.releaseDate)),
  ("smbiosVersion", optional (m.bios.map fun b =>
    ((b.smbiosMajorVersion.map toString).getD "") ++ "." ++
      ((b.smbiosMinorVersion.map toString).getD ""))),
  ("secureBoot", .str m.secureBoot)]

def securityObject (m : Machine) : Json := .obj [
  ("tpmPresent", .bool m.tpm.isSome), ("tpmVersion", optional m.tpmVersion),
  ("tpmEnabled", (m.tpm.map fun t => Json.bool t.isEnabled).getD .null),
  ("tpmActivated", (m.tpm.map fun t => Json.bool t.isActivated).getD .null)]

def cpuObject (m : Machine) : Json := .obj [
  ("name", optional (m.processor.map fun p => trimmed p.name)),
  ("manufacturer", optional (m.processor.map fun p => trimmed p.manufacturer)),
  ("cores", int ((m.processor.map Processor.numberOfCores).getD 0)),
  ("logicalProcessors", int ((m.processor.map Processor.numberOfLogicalProcessors).getD 0)),
  ("architecture", .str ((m.processor.map fun p => archMap p.architecture).getD "unknown")),
  ("maxClockMHz", (m.processor.map fun p => int p.maxClockSpeed).getD .null)]

def memoryObject (m : Machine) : Json := .obj [
  ("totalGB", roundGB m.memoryBytes 1), ("moduleCount", int m.memory.length),
  ("modules", .arr (m.memory.map moduleObject))]

def getInventoryOf (m : Machine) (bootMethod : String) : Json := .obj [
  ("schemaVersion", .str "1.0"), ("collectedAt", .str m.utcNow),
  ("agent", .obj [("version", .str "1.0"), ("bootMethod", .str bootMethod),
    ("peArch", optional m.processorArchitecture)]),
  ("system", systemObject ps m), ("firmware", firmwareObject m), ("security", securityObject m),
  ("cpu", cpuObject m), ("memory", memoryObject m),
  ("storage", .obj [("disks", .arr (diskObjects ps toInt le m))]),
  ("network", .obj [("adapters", .arr (adapterObjects m))]), ("gpu", .arr (gpuObjects m))]

end

end WinDep.Deploy
