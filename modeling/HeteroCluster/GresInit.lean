import HeteroCluster.KeyedRecords
import HeteroCluster.WorkerPods

namespace HeteroCluster.GresInit

open FailFast GoStrings HardwareInventory KeyedRecords RecoveryVerifier WorkerDemand WorkerPods

structure Attribute where
  stringValue : Option String
  intValue : Option Int

structure Device where
  name : String
  attributes : AList (fun _ : String => Attribute)

def stringAttr (device : Device) (name : String) : Option String :=
  (device.attributes.lookup (driverName ++ "/" ++ name)).bind Attribute.stringValue

def intAttr (device : Device) (name : String) : Option Int :=
  (device.attributes.lookup (driverName ++ "/" ++ name)).bind Attribute.intValue

/-- What the program finds on its host: the lines of `/proc/self/status`, the
files of devices, the output of `nvidia-smi` when a device is checked, and its
own environment. -/
structure Host where
  status : Except String (List String)
  stat : String → Option String
  nvidiaSmi : Device → Except String String
  podIP : String
  workerPool : String

section Validate

def statusValue (key line : String) : Option String :=
  match cut line ':' with
  | (name, value, true) => if name = key then some (trimSpace value) else none
  | _ => none

def lastValue (key : String) (lines : List String) : String :=
  ((lines.filterMap (statusValue key)).getLast?).getD ""

def allowedSets (host : Host) : Except String (String × String) := do
  let lines ← host.status
  let cpus := lastValue "Cpus_allowed_list" lines
  let mems := lastValue "Mems_allowed_list" lines
  refuse (cpus = "" ∨ mems = "") "process cgroup CPU or memory set is missing"
  return (cpus, mems)

def sameGPU (uuid model line : String) : Bool :=
  match cut line ',' with
  | (id, name, true) => trimSpace id == uuid && normalizeGPU name == model
  | _ => false

def validateGPU (host : Host) (device : Device) : Except String Unit :=
  match stringAttr device "uuid", stringAttr device "model", stringAttr device "path" with
  | some uuid, some model, some path =>
    match host.stat path with
    | some e => .error ("GPU " ++ quote uuid ++ " path " ++ quote path ++ ": " ++ e)
    | none => do
      let output ← (host.nvidiaSmi device).mapError ("inspect NVIDIA devices: " ++ ·)
      refuse (¬ (split (trimSpace output) '\n').any (sameGPU uuid model))
        ("GPU UUID/model " ++ uuid ++ "/" ++ model ++ " is not present")
  | _, _, _ => .error ("GPU " ++ quote device.name ++ " has incomplete identity")

/-- What the loop over the devices has found. The NUMA node is -1 at first. -/
structure Found where
  cpus : List Int
  numa : Int
  gres : Counts

def Found.addGRES (found : Found) (name : String) : Found :=
  { found with gres := found.gres.insert name (count found.gres name + 1) }

def addKind (host : Host) (found : Found) (device : Device) (kind : String) : Except String Found :=
  if kind = "cpu" then
    match intAttr device "logicalCPU" with
    | none => .error ("CPU device " ++ quote device.name ++ " lacks logical CPU")
    | some cpu => .ok { found with cpus := found.cpus ++ [cpu] }
  else if kind = "memory" then .ok found
  else if kind = "gpu" then
    match stringAttr device "model" with
    | none => .error ("GPU " ++ quote device.name ++ " lacks model")
    | some model => do
      validateGPU host device
      return found.addGRES ("gpu:" ++ model)
  else if kind = "opentpu" then
    match stringAttr device "profile" with
    | none => .error ("OpenTPU " ++ quote device.name ++ " lacks profile")
    | some profile => .ok (found.addGRES ("tpu:" ++ profile))
  else .error ("unknown allocated device kind " ++ quote kind)

def addDevice (host : Host) (found : Found) (device : Device) : Except String Found :=
  match stringAttr device "kind", intAttr device "numaNode" with
  | some kind, some cell => do
    refuse (found.numa ≠ -1 ∧ found.numa ≠ cell) "allocated devices span NUMA nodes"
    addKind host { found with numa := cell } device kind
  | _, _ => .error ("device " ++ quote device.name ++ " lacks kind or NUMA identity")

/-- A map as `fmt` prints it. -/
def countsText (m : Counts) : String :=
  "map[" ++ String.intercalate " " ((m.keys.mergeSort (· ≤ ·)).map
    (fun key => key ++ ":" ++ toString (count m key))) ++ "]"

/-- The set of CPUs is written as the `cpuset` package prints it. -/
def validate (cpuset : List Int → String) (host : Host) (devices : List Device) (wanted : ShapeJSON) :
    Except String Unit := do
  let found ← devices.foldlM (addDevice host) ⟨[], -1, ∅⟩
  refuse ((found.cpus.length : Int) ≠ wanted.cpus) ("allocated " ++ toString found.cpus.length ++
    " CPUs, expected " ++ toString wanted.cpus)
  refuse (mapsEqual found.gres wanted.gres = false) ("allocated GRES " ++ countsText found.gres ++
    ", expected " ++ countsText wanted.gres)
  let (cpus, mems) ← allowedSets host
  refuse (cpus ≠ cpuset found.cpus) ("NRI CPU set " ++ quote cpus ++
    " does not match allocation " ++ quote (cpuset found.cpus))
  refuse (mems ≠ toString found.numa) ("NRI memory set " ++ quote mems ++
    " does not match NUMA node " ++ toString found.numa)

end Validate

section Render

structure DynamicNode where
  cpus : Int
  realMemory : Int
  nodeAddr : String
  feature : String
  weight : Nat
  gres : List (String × String × Int)

def gresText (g : String × String × Int) : String := g.1 ++ ":" ++ g.2.1 ++ ":" ++ toString g.2.2

def DynamicNode.text (node : DynamicNode) : String :=
  "CPUs=" ++ toString node.cpus ++ " RealMemory=" ++ toString node.realMemory ++
    " Sockets=1 CoresPerSocket=" ++ toString node.cpus ++ " ThreadsPerCore=1 NodeAddr=" ++
    node.nodeAddr ++ " Feature=" ++ node.feature ++ " Weight=" ++ toString node.weight ++
    if node.gres = [] then ""
    else " Gres=" ++ String.intercalate "," ((node.gres.map gresText).mergeSort (· ≤ ·))

def realMemory (wanted : ShapeJSON) : Int :=
  max (wrapInt64 (wanted.memoryBytes - wanted.sharedMemoryBytes) / 2 ^ 20) 1

def gresSummary (wanted : ShapeJSON) : List (String × String × Int) :=
  wanted.gres.entries.map (fun e => ((cut e.1 ':').1, (cut e.1 ':').2.1, e.2))

def dynamicNode (host : Host) (wanted : ShapeJSON) : DynamicNode where
  cpus := wanted.cpus
  realMemory := realMemory wanted
  nodeAddr := host.podIP
  feature := "pool_" ++ replaceAll host.workerPool "-" "_"
  weight := if wanted.gres.entries.length > 0 then 2 else 1
  gres := gresSummary wanted

/-- The lines of `gres.conf`, the OpenTPU devices and their matrix size. -/
structure Accelerators where
  gres : List String
  openTPU : List String
  matrixSize : Int

def addAccelerator (cores : String) (found : Accelerators) (device : Device) :
    Except String Accelerators :=
  let kind := (stringAttr device "kind").getD ""
  if kind = "gpu" then
    .ok { found with gres := found.gres ++ ["Name=gpu Type=" ++ (stringAttr device "model").getD "" ++
      " File=" ++ (stringAttr device "path").getD "" ++ " Cores=" ++ cores] }
  else if kind = "opentpu" then
    match intAttr device "matrixSize" with
    | none => .error "OpenTPU allocation has missing or mixed matrix sizes"
    | some matrix => do
      refuse (found.matrixSize ≠ 0 ∧ found.matrixSize ≠ matrix)
        "OpenTPU allocation has missing or mixed matrix sizes"
      return { gres := found.gres ++ ["Name=tpu Type=" ++ (stringAttr device "profile").getD "" ++
          " Count=1 Flags=CountOnly"], openTPU := found.openTPU ++ [device.name], matrixSize := matrix }
  else .ok found

/-- What `renderAndCheck` derives before it writes files and runs slurmd, which is
told about the node by the line `dynamic`. -/
structure Rendered where
  node : DynamicNode
  dynamic : String
  gresConfig : String
  openTPU : String
  matrixSize : Int

def render (host : Host) (devices : List Device) (wanted : ShapeJSON) : Except String Rendered := do
  let cores := if wanted.cpus > 1 then "0-" ++ toString (wanted.cpus - 1) else "0"
  let found ← devices.foldlM (addAccelerator cores) ⟨[], [], 0⟩
  return { node := dynamicNode host wanted
           dynamic := (dynamicNode host wanted).text
           gresConfig := String.intercalate "\n" (found.gres.mergeSort (· ≤ ·)) ++ "\n"
           openTPU := String.intercalate "," (found.openTPU.mergeSort (· ≤ ·))
           matrixSize := found.matrixSize }

end Render

end HeteroCluster.GresInit
