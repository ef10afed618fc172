import HeteroCluster.ComputeDriver
import HeteroCluster.HardwareInventory
import HeteroCluster.JsonText
import HeteroCluster.KeyedRecords
import Mathlib.Data.List.Sort

namespace HeteroCluster.ComputeInventory

open GoStrings FailFast JsonText KeyedRecords
open ComputeDriver (DeviceKind LocalDevice)
open HardwareInventory (GPU OpenTPU Cell normalizeGPU)

/-- A directory `cpuN` of sysfs: what its files contain, if they can be read, and
the numbers of the `nodeN` links in it. -/
structure CPUDir where
  cpu : Nat
  online : Option String
  packageID : Option String
  coreID : Option String
  nodes : List Nat

/-- A directory `nodeN` of sysfs. -/
structure NodeDir where
  node : Nat
  meminfo : Option String

/-- The part of sysfs that is read. The kernel numbers the directories, so
their names are known by their numbers. -/
structure Sysfs where
  cpus : List CPUDir
  nodes : List NodeDir
  numaNode : String → Option String
  cpus_nodup : (cpus.map CPUDir.cpu).Nodup
  nodes_nodup : (nodes.map NodeDir.node).Nodup

structure OpenTPUProfile where
  name : String
  matrixSize : Int
  numa : Int
  slots : Int
  cpuCores : Int
  memory : String
  sharedMemory : String

structure OpenTPUConfig where
  version : Int
  profiles : List OpenTPUProfile

/-- The rows of CSV text. The reader refuses a row that has not as many fields as
the first one. -/
structure Table where
  rows : List (List String)
  sameFields : ∀ row ∈ rows, row.length = (rows.headD []).length

/-- How a run of `nvidia-smi` ends: there is no such program, it fails, or its
output is read as CSV. -/
inductive Query where
  | missing
  | failed (message : String)
  | output (table : Except String Table)

/-- What discovery looks at. `quantity` is the value of a Kubernetes quantity. -/
structure Host where
  nodeName : String
  sysfs : Sysfs
  annotations : StringMap
  quantity : String → Option Int
  quantity_lt : ∀ raw v, quantity raw = some v → v < 2 ^ 63
  unmarshalOpenTPU : String → Option OpenTPUConfig
  nvidiaSMI : Query
  dxg : Bool

/-- The order in which a loop meets the keys of a map. -/
structure RangeOrder (α : Type) where
  order : List α → List α
  perm : ∀ l, (order l).Perm l

def RangeOrder.same (α : Type) : RangeOrder α := ⟨id, fun l => List.Perm.refl l⟩

abbrev Devices := Records String LocalDevice

section Files

def readInt (content : Option String) : Option Int := content.bind (fun text => atoi (trimSpace text))

def onlineCPU (online : Option String) : Bool :=
  match online with
  | none => true
  | some text => trimSpace text != "0"

def cpuNUMA (nodes : List Nat) : Int :=
  match nodes with
  | [node] => node
  | _ => 0

def memTotalFields (line : String) : Option String :=
  match fieldsFunc isSpace line with
  | _ :: _ :: label :: value :: _ => if label = "MemTotal:" then some value else none
  | _ => none

def nodeMemoryBytes (meminfo : Option String) : Except String Int :=
  match meminfo with
  | none => .error "cannot be opened"
  | some text =>
    match (split text '\n').findSome? memTotalFields with
    | none => .error "MemTotal not found"
    | some value =>
      match atoi value with
      | none => .error ("parsing " ++ quote value)
      | some kib => .ok (wrapInt64 (kib * 1024))

def quantityBytes (host : Host) (raw fallback : String) : Except String Int :=
  match host.quantity (if raw = "" then fallback else raw) with
  | none => .error "must be a positive Kubernetes quantity"
  | some value => if value ≤ 0 then .error "must be a positive Kubernetes quantity" else .ok value

def positiveInt (raw : String) (fallback : Int) : Except String Int :=
  if raw = "" then .ok fallback
  else
    match atoi raw with
    | none => .error "must be a non-negative integer"
    | some value => if value < 0 then .error "must be a non-negative integer" else .ok value

def normalize (value : String) : String :=
  String.intercalate "_" (fieldsFunc isPunctuation (toLower value))

end Files

def bareDevice (name : String) (kind : DeviceKind) (numa : Int) : LocalDevice where
  name := name
  kind := kind
  numa := numa
  cpu := 0
  socket := 0
  core := 0
  unitBytes := 0
  uuid := ""
  model := ""
  vramMiB := 0
  pci := ""
  path := ""
  profile := ""
  matrixSize := 0
  cpuCores := 0
  memoryBytes := 0
  sharedMemory := 0

section CPU

structure CoreKey where
  numa : Int
  socket : Int
  core : Int
  deriving DecidableEq

abbrev Cores := Records CoreKey Int

def addCPU (cores : Cores) (dir : CPUDir) : Except String Cores :=
  if onlineCPU dir.online = false then .ok cores
  else
    match readInt dir.packageID, readInt dir.coreID with
    | some socket, some core =>
      let k : CoreKey := ⟨cpuNUMA dir.nodes, socket, core⟩
      match cores.lookup k with
      | none => .ok (cores.insert k dir.cpu)
      | some old => if (dir.cpu : Int) < old then .ok (cores.insert k dir.cpu) else .ok cores
    | _, _ => .error ("read topology for CPU " ++ toString dir.cpu)

def cpuName (socket core : Int) : String := "cpu-s" ++ toString socket ++ "-c" ++ toString core

def cpuDevice (k : CoreKey) (cpu : Int) : LocalDevice :=
  { bareDevice (cpuName k.socket k.core) .cpu k.numa with
    cpu := cpu, socket := k.socket, core := k.core }

/-- The orders of the loops of `discoverCPU` over its two maps. -/
structure CPUOrders where
  cores : RangeOrder (Sigma fun _ : CoreKey => Int)
  nodes : RangeOrder Int

def CPUOrders.same : CPUOrders := ⟨.same _, .same Int⟩

/-- The slice of a NUMA node, filled in the order of the first loop and then sorted. -/
def coresOf (order : CPUOrders) (cores : Cores) (numa : Int) : List LocalDevice :=
  (((order.cores.order cores.entries).filter (fun e => e.1.numa = numa)).map
    (fun e => cpuDevice e.1 e.2)).insertionSort (fun a b => a.cpu ≤ b.cpu)

def offeredCores (order : CPUOrders) (cores : Cores) (reserve : Int) (numa : Int) :
    List LocalDevice :=
  if (coresOf order cores numa).length ≤ reserve then []
  else (coresOf order cores numa).drop reserve.toNat

def discoverCPU (order : CPUOrders) (sys : Sysfs) (reserve : Int) (devices : Devices) :
    Except String Devices := do
  refuse (sys.cpus = []) "discover CPUs: no CPU topology found"
  let cores ← sys.cpus.foldlM addCPU ∅
  let nodes := order.nodes.order (cores.keys.map CoreKey.numa).dedup
  return storeAll LocalDevice.name (nodes.flatMap (offeredCores order cores reserve)) devices

end CPU

section Memory

def memoryName (node slot : Nat) : String :=
  "memory-n" ++ toString node ++ "-" ++ String.leftpad 5 '0' (toString slot)

def memoryDevice (unit : Int) (node slot : Nat) : LocalDevice :=
  { bareDevice (memoryName node slot) .memory node with unitBytes := unit }

def memoryCount (unit reserve total : Int) : Nat := ((wrapInt64 (total - reserve)).tdiv unit).toNat

def memoryDevices (unit reserve total : Int) (node : Nat) : List LocalDevice :=
  (List.range (memoryCount unit reserve total)).map (memoryDevice unit node)

def addMemory (unit reserve : Int) (devices : Devices) (dir : NodeDir) : Except String Devices := do
  let total ← (nodeMemoryBytes dir.meminfo).mapError
    (fun e => "read NUMA node " ++ toString dir.node ++ " memory: " ++ e)
  return storeAll LocalDevice.name (memoryDevices unit reserve total dir.node) devices

def discoverMemory (sys : Sysfs) (unit reserve : Int) (devices : Devices) :
    Except String Devices := do
  refuse (sys.nodes = []) "discover NUMA memory: no node topology found"
  sys.nodes.foldlM (addMemory unit reserve) devices

end Memory

section OpenTPU

def openTPUName (name : String) (numa : Int) (slot : Nat) : String :=
  "opentpu-" ++ name ++ "-n" ++ toString numa ++ "-" ++ String.leftpad 3 '0' (toString slot)

def openTPUDevice (profile : OpenTPUProfile) (memory shared : Int) (slot : Nat) : LocalDevice :=
  { bareDevice (openTPUName (normalize profile.name) profile.numa slot) .openTPU profile.numa with
    profile := "opentpu_" ++ trimPrefix (normalize profile.name) "opentpu_"
    matrixSize := profile.matrixSize, cpuCores := profile.cpuCores
    memoryBytes := memory, sharedMemory := shared }

def addSlot (profile : OpenTPUProfile) (memory shared : Int) (devices : Devices) (slot : Nat) :
    Except String Devices := do
  let device := openTPUDevice profile memory shared slot
  refuse (device.name ∈ devices) ("duplicate OpenTPU device " ++ quote device.name)
  return store LocalDevice.name devices device

def addProfile (host : Host) (devices : Devices) (profile : OpenTPUProfile) :
    Except String Devices := do
  let named (problem : String) := "OpenTPU profile " ++ quote profile.name ++ problem
  let memory ← (quantityBytes host profile.memory "").mapError (fun e => named (" memory: " ++ e))
  let shared ← (quantityBytes host profile.sharedMemory "").mapError
    (fun e => named (" shared memory: " ++ e))
  let name := normalize profile.name
  refuse (name = "" ∨ profile.name ≠ name ∨ profile.slots < 1 ∨ profile.cpuCores < 1 ∨
      (profile.matrixSize ≠ 8 ∧ profile.matrixSize ≠ 16))
    (named " has invalid name, slot count, footprint, or matrix size")
  (List.range profile.slots.toNat).foldlM (addSlot profile memory shared) devices

def openTPUProfiles (host : Host) (raw : String) : Except String (List OpenTPUProfile) :=
  if trimSpace raw = "" then .ok []
  else
    match host.unmarshalOpenTPU raw with
    | none => .error "parse OpenTPU profiles: version 1 JSON is required"
    | some config => do
      refuse (config.version ≠ 1) "parse OpenTPU profiles: version 1 JSON is required"
      return config.profiles

def discoverOpenTPU (host : Host) (raw : String) (devices : Devices) : Except String Devices := do
  (← openTPUProfiles host raw).foldlM (addProfile host) devices

end OpenTPU

section NVIDIA

structure GPURow where
  index : Int
  uuid : String
  name : String
  vram : Int
  pci : String

def quoteRow (parts : List String) : String :=
  "[" ++ String.intercalate " " (parts.map quote) ++ "]"

def parseGPU (parts : List String) : Except String GPURow :=
  match parts with
  | [index, uuid, name, vram, bus] =>
    match atoi (trimSpace index), atoi (trimSpace vram) with
    | some index', some vram' =>
      if trimSpace uuid = "" then
        .error ("invalid nvidia-smi row " ++ quoteRow (parts.map trimSpace))
      else .ok ⟨index', trimSpace uuid, trimSpace name, vram', toLower (trimSpace bus)⟩
    | _, _ => .error ("invalid nvidia-smi row " ++ quoteRow (parts.map trimSpace))
  | _ => .error ("unexpected nvidia-smi row " ++ quoteRow parts)

def numaNodes (devices : Devices) : List Int :=
  (((values devices).filter (fun d => d.kind = .cpu ∨ d.kind = .memory)).map
    LocalDevice.numa).dedup.insertionSort (· ≤ ·)

def gpuNUMA (sys : Sysfs) (pci : String) : Option Int :=
  match readInt (sys.numaNode pci) with
  | none => none
  | some numa => if numa < 0 then none else some numa

def gpuName (uuid : String) : String := "gpu-" ++ toLower uuid

def gpuDevice (dxg : Bool) (row : GPURow) (numa : Int) : LocalDevice :=
  { bareDevice (gpuName row.uuid) .gpu numa with
    uuid := row.uuid, model := normalizeGPU row.name, vramMiB := row.vram, pci := row.pci
    path := if dxg then "/dev/dxg" else "/dev/nvidia" ++ toString row.index }

def addGPU (host : Host) (numaCount : Nat) (devices : Devices) (row : GPURow) : Devices :=
  match gpuNUMA host.sysfs row.pci with
  | some numa => store LocalDevice.name devices (gpuDevice host.dxg row numa)
  | none =>
    if numaCount ≠ 1 then devices
    else store LocalDevice.name devices (gpuDevice host.dxg row ((numaNodes devices).headD 0))

/-- The loop over the rows. What stands before a bad row stays. -/
def addGPUs (host : Host) (numaCount : Nat) :
    Devices → List (List String) → Devices × Option String
  | devices, [] => (devices, none)
  | devices, parts :: rest =>
    match parseGPU parts with
    | .error e => (devices, some e)
    | .ok row => addGPUs host numaCount (addGPU host numaCount devices row) rest

def discoverNVIDIA (host : Host) (devices : Devices) : Devices × Option String :=
  match host.nvidiaSMI with
  | .missing => (devices, none)
  | .failed e => (devices, some e)
  | .output (.error e) => (devices, some ("parse nvidia-smi output: " ++ e))
  | .output (.ok table) => addGPUs host (numaNodes devices).length devices table.rows

end NVIDIA

section Discovery

structure Settings where
  memoryUnit : Int
  reservedMemory : Int
  reservedCores : Int

def annotationOf (host : Host) (name : String) : String :=
  get host.annotations ("orchestration.gputpu.io/" ++ name)

def settings (host : Host) : Except String Settings := do
  let unit ← (quantityBytes host (annotationOf host "memory-unit") "1Gi").mapError
    ("memory unit: " ++ ·)
  let memory ← (quantityBytes host (annotationOf host "reserved-memory-per-numa") "1Gi").mapError
    ("reserved memory: " ++ ·)
  let cores ← (positiveInt (annotationOf host "reserved-cores-per-numa") 1).mapError
    ("reserved cores: " ++ ·)
  return ⟨unit, memory, cores⟩

def discoverLocal (order : CPUOrders) (host : Host) : Except String Devices := do
  let s ← settings host
  let devices ← discoverCPU order host.sysfs s.reservedCores ∅
  let devices ← discoverMemory host.sysfs s.memoryUnit s.reservedMemory devices
  discoverOpenTPU host (annotationOf host "opentpu-profiles") devices

/-- A failure to list the GPUs is only logged. -/
def discoverInventory (order : CPUOrders) (host : Host) :
    Except String ComputeDriver.Inventory := do
  let devices ← discoverLocal order host
  return ⟨host.nodeName, (discoverNVIDIA host devices).1⟩

end Discovery

section Summary

structure Tables where
  cells : Records Int Cell
  profiles : Records Int (Records String OpenTPU)

def newCell (numa : Int) : Cell := ⟨numa, 0, 0, 0, [], []⟩

def Tables.cell (t : Tables) (numa : Int) : Cell := (t.cells.lookup numa).getD (newCell numa)

def Tables.profilesOf (t : Tables) (numa : Int) : Records String OpenTPU :=
  (t.profiles.lookup numa).getD ∅

def gpuOf (device : LocalDevice) : GPU := ⟨device.uuid, device.model, device.pci⟩

def newProfile (device : LocalDevice) : OpenTPU :=
  ⟨device.profile, 0, device.matrixSize, device.cpuCores, device.memoryBytes, device.sharedMemory⟩

def sameFootprint (profile : OpenTPU) (device : LocalDevice) : Bool :=
  profile.matrixSize == device.matrixSize && profile.cpuCores == device.cpuCores &&
    profile.memoryBytes == device.memoryBytes && profile.sharedMemory == device.sharedMemory

def addToCell (t : Tables) (device : LocalDevice) : Except String Tables :=
  let cell := t.cell device.numa
  let put (cell : Cell) := t.cells.insert device.numa cell
  match device.kind with
  | .cpu => .ok { t with cells := put { cell with cpus := cell.cpus + 1 } }
  | .memory =>
    if cell.memoryUnitBytes ≠ 0 ∧ cell.memoryUnitBytes ≠ device.unitBytes then
      .error ("NUMA node " ++ toString device.numa ++ " has mixed memory units")
    else
      .ok { t with cells := put { cell with
        memoryUnitBytes := device.unitBytes, memoryUnits := cell.memoryUnits + 1 } }
  | .gpu => .ok { t with cells := put { cell with gpus := cell.gpus ++ [gpuOf device] } }
  | .openTPU =>
    let profile := ((t.profilesOf device.numa).lookup device.profile).getD (newProfile device)
    if sameFootprint profile device = false then
      .error ("OpenTPU profile " ++ quote device.profile ++ " has inconsistent footprints")
    else
      let profile := { profile with count := profile.count + 1 }
      let profiles := (t.profilesOf device.numa).insert device.profile profile
      .ok ⟨put cell, t.profiles.insert device.numa profiles⟩

def finishCell (t : Tables) (numa : Int) : Cell :=
  let cell := t.cell numa
  let names := (t.profilesOf numa).keys.insertionSort (· ≤ ·)
  { cell with
    gpus := cell.gpus.insertionSort (fun a b => a.uuid ≤ b.uuid)
    openTPU := names.filterMap (t.profilesOf numa).lookup }

def finishCells (t : Tables) : List Cell :=
  (t.cells.keys.insertionSort (· ≤ ·)).map (finishCell t)

def gpuText (gpu : GPU) : String :=
  jsonObject [("uuid", jsonString gpu.uuid), ("model", jsonString gpu.model),
    ("pci", jsonString gpu.pci)]

def openTPUText (profile : OpenTPU) : String :=
  jsonObject [("profile", jsonString profile.profile), ("count", toString profile.count),
    ("matrixSize", toString profile.matrixSize), ("cpuCores", toString profile.cpuCores),
    ("memoryBytes", toString profile.memoryBytes),
    ("sharedMemoryBytes", toString profile.sharedMemory)]

def cellText (cell : Cell) : String :=
  jsonObject ([("numaNode", toString cell.numa), ("cpus", toString cell.cpus),
      ("memoryUnits", toString cell.memoryUnits),
      ("memoryUnitBytes", toString cell.memoryUnitBytes)] ++
    omitEmpty [] "gpus" cell.gpus (fun gpus => jsonSlice (gpus.map gpuText)) ++
    omitEmpty [] "openTPU" cell.openTPU (fun profiles => jsonSlice (profiles.map openTPUText)))

def cellsText (cells : List Cell) : String := jsonSlice (cells.map cellText)

def inventoryText (inventory : HardwareInventory.Inventory) : String :=
  jsonObject [("version", toString inventory.version), ("bootID", jsonString inventory.bootID),
    ("cells", cellsText inventory.cells)]

/-- `sha256` is the hash in hexadecimal digits. -/
def summary (sha256 : String → String) (order : RangeOrder LocalDevice)
    (inv : ComputeDriver.Inventory) (bootID : String) :
    Except String (HardwareInventory.Inventory × String × String) := do
  refuse (bootID = "") "Kubernetes bootID is empty"
  let t ← (order.order (values inv.devices)).foldlM addToCell ⟨∅, ∅⟩
  let result : HardwareInventory.Inventory := ⟨1, bootID, finishCells t⟩
  return (result, inventoryText result, sha256 (cellsText result.cells))

end Summary

end HeteroCluster.ComputeInventory
