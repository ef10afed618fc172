import HeteroCluster.CallProgram
import HeteroCluster.FailFast
import HeteroCluster.GoStrings
import Mathlib.Data.List.AList
import Mathlib.Data.String.Basic

namespace HeteroCluster.DevicePlugin

open CallProgram FailFast GoStrings

structure PreparedClaim where
  version : Int
  uid : String
  nameSpace : String
  name : String
  hash : String
  inventory : String
  devices : List String
  cpus : List Int
  numa : Int
  deriving DecidableEq

structure DeviceRequestAllocationResult where
  request : String
  driver : String
  pool : String
  device : String
  deriving DecidableEq

/-- A claim as the API server returns it. Its UID is given by the API server
and makes a file name. -/
structure ResourceClaim where
  uid : String
  nameSpace : String
  name : String
  allocation : Option (List DeviceRequestAllocationResult)
  uid_ne : uid ≠ ""
  uid_plain : '/' ∉ uid.toList

structure Device where
  requests : List String
  poolName : String
  deviceName : String
  cdiDeviceIDs : List String
  deriving DecidableEq

/-- What a driver gives the plugin. A driver's own preparation sets the CPUs
and the NUMA node of a record. -/
structure Config where
  version : Int
  driverName : String
  poolName : String
  hasDevice : String → Bool
  inventoryHash : List String → String
  prepare : Option (List String → PreparedClaim → Except String PreparedClaim)
  claimDevices : List DeviceRequestAllocationResult → List Device
  prepare_keeps : ∀ f ∈ prepare, ∀ names record record', f names record = .ok record' →
    record' = { record with cpus := record'.cpus, numa := record'.numa }

/-- The JSON of the record files, which is read back as it was written, and
the hash of a list of allocation results. -/
structure Format where
  Data : Type
  encode : PreparedClaim → Data
  decode : Data → Option PreparedClaim
  decode_encode : ∀ record, decode (encode record) = some record
  jsonHash : List DeviceRequestAllocationResult → String

structure Plugin where
  dir : String
  config : Config
  format : Format

abbrev Prepared := AList (fun _ : String => PreparedClaim)

abbrev Disk (p : Plugin) := AList (fun _ : String => p.format.Data)

variable (p : Plugin)

def Plugin.path (uid : String) : String := p.dir ++ "/" ++ uid ++ ".json"

def Plugin.inventoryHash (names : List String) : String :=
  p.config.inventoryHash (names.mergeSort (· ≤ ·))

def resultKey (a : DeviceRequestAllocationResult) : String :=
  a.request ++ "\x00" ++ a.pool ++ "\x00" ++ a.device

def Plugin.allocationHash (results : List DeviceRequestAllocationResult) : String :=
  p.format.jsonHash (results.mergeSort (fun a b => resultKey a ≤ resultKey b))

section New

abbrev Held := AList (fun _ : String => String)

def holdDevice (uid : String) (held : Held) (name : String) : Except String Held := do
  refuse (¬ p.config.hasDevice name)
    ("prepared device " ++ quote name ++ " is absent from current inventory")
  let owner := (held.lookup name).getD uid
  refuse (owner ≠ uid) ("prepared device " ++ quote name ++ " is held by claims " ++ quote owner ++
    " and " ++ quote uid)
  return held.insert name uid

def loadRecord (state : Held × Prepared) (file : Sigma fun _ : String => p.format.Data) :
    Except String (Held × Prepared) :=
  match p.format.decode file.2 with
  | none => .error ("invalid prepared state " ++ quote file.1)
  | some record => do
    refuse (record.version ≠ p.config.version ∨ record.uid = "")
      ("invalid prepared state " ++ quote file.1)
    let held ← record.devices.foldlM (holdDevice p record.uid) state.1
    refuse (p.inventoryHash record.devices ≠ record.inventory)
      ("prepared claim " ++ quote record.uid ++ " inventory changed")
    return (held, state.2.insert record.uid record)

/-- `New`: the prepared claims are those of the record files. -/
def newPlugin (d : Disk p) : Except String Prepared := do
  let state ← d.entries.foldlM (loadRecord p) (∅, ∅)
  return state.2

end New

section Prepare

def admitDevice (prepared : Prepared) (uid : String) (devices : List String)
    (allocation : DeviceRequestAllocationResult) : Except String (List String) := do
  refuse (allocation.driver ≠ p.config.driverName ∨ allocation.pool ≠ p.config.poolName)
    ("allocation " ++ allocation.pool ++ "/" ++ allocation.device ++
      " belongs to another driver or node")
  refuse (¬ p.config.hasDevice allocation.device)
    ("allocated device " ++ quote allocation.device ++ " is absent")
  refuse (allocation.device ∈ devices)
    ("device " ++ quote allocation.device ++ " is allocated twice")
  refuse (prepared.entries.any (fun other => other.1 ≠ uid ∧ allocation.device ∈ other.2.devices))
    ("device " ++ quote allocation.device ++ " is already prepared for another claim")
  return devices ++ [allocation.device]

def driverPrepare (record : PreparedClaim) : Except String PreparedClaim :=
  match p.config.prepare with
  | none => .ok record
  | some f => f record.devices record

def claimRecord (claim : ResourceClaim) (results : List DeviceRequestAllocationResult)
    (devices : List String) : PreparedClaim where
  version := p.config.version
  uid := claim.uid
  nameSpace := claim.nameSpace
  name := claim.name
  hash := p.allocationHash results
  inventory := ""
  devices := devices.mergeSort (· ≤ ·)
  cpus := []
  numa := 0

def newRecord (prepared : Prepared) (claim : ResourceClaim)
    (results : List DeviceRequestAllocationResult) : Except String PreparedClaim := do
  let devices ← results.foldlM (admitDevice p prepared claim.uid) []
  let record ← driverPrepare p (claimRecord p claim results devices)
  return { record with inventory := p.inventoryHash record.devices }

def keepRecord (old : PreparedClaim) (claim : ResourceClaim)
    (results : List DeviceRequestAllocationResult) : Except String PreparedClaim := do
  refuse (old.hash ≠ p.allocationHash results ∨ old.inventory ≠ p.inventoryHash old.devices ∨
    old.nameSpace ≠ claim.nameSpace ∨ old.name ≠ claim.name)
    "claim allocation changed after preparation"
  return old

def recordFor (prepared : Prepared) (claim : ResourceClaim)
    (results : List DeviceRequestAllocationResult) : Except String PreparedClaim :=
  match prepared.lookup claim.uid with
  | some old => keepRecord p old claim results
  | none => newRecord p prepared claim results

def prepare (prepared : Prepared) (claim : ResourceClaim) :
    Except String (PreparedClaim × List Device) := do
  let results := claim.allocation.getD []
  refuse (results = []) "claim has no allocated devices"
  let record ← recordFor p prepared claim results
  return (record, p.config.claimDevices results)

end Prepare

/-- What the plugin asks of the file system and of the API server. Ranging
over a map takes its entries in some order. -/
inductive PluginCall (Data : Type) where
  | atomicJSON (path : String) (data : Data)
  | remove (path : String)
  | getClaim (nameSpace name : String)
  | order (entries : List (Sigma fun _ : String => PreparedClaim))

inductive RemoveReply where
  | removed
  | notExist
  | failed (message : String)

inductive ClaimReply where
  | notFound
  | failed (message : String)
  | found (claim : ResourceClaim)

abbrev PluginReply (Data : Type) : PluginCall Data → Type
  | .atomicJSON _ _ => Option String
  | .remove _ => RemoveReply
  | .getClaim _ _ => ClaimReply
  | .order entries => { order : List (Sigma fun _ : String => PreparedClaim) // order.Perm entries }

abbrev Run := Program (PluginReply p.format.Data)
abbrev PluginEvent := Event (PluginReply p.format.Data)
abbrev PluginLog := Log (PluginReply p.format.Data)

abbrev ask (c : PluginCall p.format.Data) : Run p (PluginReply p.format.Data c) := Program.perform c

structure PrepareResult where
  err : Option String
  devices : List Device

def prepareClaim (prepared : Prepared) (claim : ResourceClaim) : Run p (PrepareResult × Prepared) :=
  match prepare p prepared claim with
  | .error err => return (⟨some err, []⟩, prepared)
  | .ok (record, devices) => do
    match ← ask p (.atomicJSON (p.path claim.uid) (p.format.encode record)) with
    | some err => return (⟨some err, devices⟩, prepared)
    | none => return (⟨none, devices⟩, prepared.insert claim.uid record)

abbrev PrepareResults := AList (fun _ : String => PrepareResult)

/-- The loop of `PrepareResourceClaims`. -/
def prepareClaims : List ResourceClaim → PrepareResults → Prepared →
    Run p (PrepareResults × Prepared)
  | [], results, prepared => return (results, prepared)
  | claim :: claims, results, prepared => do
    let r ← prepareClaim p prepared claim
    prepareClaims claims (results.insert claim.uid r.1) r.2

def prepareResourceClaims (prepared : Prepared) (claims : List ResourceClaim) :
    Run p (PrepareResults × Prepared) :=
  prepareClaims p claims ∅ prepared

abbrev UnprepareResults := AList (fun _ : String => Option String)

def unprepareClaims : List String → UnprepareResults → Prepared →
    Run p (UnprepareResults × Prepared)
  | [], results, prepared => return (results, prepared)
  | uid :: uids, results, prepared => do
    match ← ask p (.remove (p.path uid)) with
    | .failed err => unprepareClaims uids (results.insert uid (some err)) prepared
    | _ => unprepareClaims uids (results.insert uid none) (prepared.erase uid)

def unprepareResourceClaims (prepared : Prepared) (uids : List String) :
    Run p (UnprepareResults × Prepared) :=
  unprepareClaims p uids ∅ prepared

/-- The claim of a record is gone, or another one has taken its name. -/
def gone (uid : String) : ClaimReply → Bool
  | .notFound => true
  | .failed _ => false
  | .found claim => claim.uid != uid

def recoverError (record : PreparedClaim) : ClaimReply → Option String
  | .notFound => none
  | .failed message =>
    some ("recover claim " ++ record.nameSpace ++ "/" ++ record.name ++ ": " ++ message)
  | .found claim =>
    match claim.allocation with
    | none => some ("prepared claim " ++ record.nameSpace ++ "/" ++ record.name ++
        " is no longer allocated")
    | some results =>
      if p.allocationHash results ≠ record.hash then
        some ("prepared claim " ++ record.nameSpace ++ "/" ++ record.name ++ " allocation changed")
      else none

def recoverRecords : List (Sigma fun _ : String => PreparedClaim) → Prepared →
    Run p (Option String × Prepared)
  | [], prepared => return (none, prepared)
  | entry :: entries, prepared => do
    let reply ← ask p (.getClaim entry.2.nameSpace entry.2.name)
    if gone entry.1 reply then
      match ← ask p (.remove (p.path entry.1)) with
      | .failed err => return (some err, prepared)
      | _ => recoverRecords entries (prepared.erase entry.1)
    else
      match recoverError p entry.2 reply with
      | some err => return (some err, prepared)
      | none => recoverRecords entries prepared

def recover (prepared : Prepared) : Run p (Option String × Prepared) := do
  let order ← ask p (.order prepared.entries)
  recoverRecords p order.1 prepared

inductive Operation where
  | prepare (claims : List ResourceClaim)
  | unprepare (uids : List String)
  | recover

/-- The plugin's operations, each under the lock, with the map they leave. -/
def perform (prepared : Prepared) : Operation → Run p Prepared
  | .prepare claims => do return (← prepareResourceClaims p prepared claims).2
  | .unprepare uids => do return (← unprepareResourceClaims p prepared uids).2
  | .recover => do return (← recover p prepared).2

end HeteroCluster.DevicePlugin
