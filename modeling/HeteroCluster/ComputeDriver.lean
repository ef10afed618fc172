import HeteroCluster.DevicePlugin

namespace HeteroCluster.ComputeDriver

open FailFast DevicePlugin

def driverName : String := "orchestration.gputpu.io"
def stateDir : String := "/var/lib/kubelet/plugins/orchestration.gputpu.io/state"

inductive DeviceKind where
  | cpu
  | memory
  | gpu
  | openTPU
  deriving DecidableEq

structure LocalDevice where
  name : String
  kind : DeviceKind
  numa : Int
  cpu : Int
  socket : Int
  core : Int
  unitBytes : Int
  uuid : String
  model : String
  vramMiB : Int
  pci : String
  path : String
  profile : String
  matrixSize : Int
  cpuCores : Int
  memoryBytes : Int
  sharedMemory : Int
  deriving DecidableEq

structure Inventory where
  nodeName : String
  devices : AList (fun _ : String => LocalDevice)

/-- The NUMA node and the CPUs found so far, while a claim's devices are gone
through. -/
def prepareDevice (inv : Inventory) (record : PreparedClaim) (name : String) :
    Except String PreparedClaim :=
  match inv.devices.lookup name with
  | none =>
    -- an absent device reads as the zero device, which is not a CPU
    if record.numa = -1 then .ok { record with numa := 0 }
    else if record.numa ≠ 0 then .error "allocated devices do not share one NUMA node"
    else .ok record
  | some device => do
    refuse (record.numa ≠ -1 ∧ record.numa ≠ device.numa)
      "allocated devices do not share one NUMA node"
    let numa := if record.numa = -1 then device.numa else record.numa
    let cpus := if device.kind = .cpu then record.cpus ++ [device.cpu] else record.cpus
    return { record with numa := numa, cpus := cpus }

def prepareNUMA (inv : Inventory) (names : List String) (record : PreparedClaim) :
    Except String PreparedClaim := do
  let record ← names.foldlM (prepareDevice inv) { record with numa := -1 }
  refuse (record.cpus = []) "claim has no CPU allocation"
  return { record with cpus := record.cpus.mergeSort (· ≤ ·) }

def cdiDevice (inv : Inventory) (allocation : DeviceRequestAllocationResult) : Option Device := do
  let device ← inv.devices.lookup allocation.device
  let id ← match device.kind with
    | .gpu => some (driverName ++ "/nvidia=" ++ device.uuid)
    | .openTPU => some (driverName ++ "/opentpu=" ++ device.name)
    | _ => none
  return ⟨[allocation.request], allocation.pool, allocation.device, [id]⟩

def cdiDevices (inv : Inventory) (results : List DeviceRequestAllocationResult) : List Device :=
  results.filterMap (cdiDevice inv)

def SameClaim (record record' : PreparedClaim) : Prop :=
  record' = { record with cpus := record'.cpus, numa := record'.numa }

theorem prepareDevice_same {inv : Inventory} {record record' : PreparedClaim} {name : String}
    (h : prepareDevice inv record name = .ok record') : SameClaim record record' := by
  unfold prepareDevice at h
  cases hd : inv.devices.lookup name with
  | none =>
    rw [hd] at h
    dsimp only at h
    split at h
    · cases h
      rfl
    · split at h
      · cases h
      · cases h
        rfl
  | some device =>
    rw [hd] at h
    simp only [bind_eq_ok, exists_unit, pure_eq_ok] at h
    obtain ⟨-, rfl⟩ := h
    rfl

theorem prepareNUMA_same {inv : Inventory} {names : List String} {record record' : PreparedClaim}
    (h : prepareNUMA inv names record = .ok record') : SameClaim record record' := by
  simp only [prepareNUMA, bind_eq_ok, exists_unit, pure_eq_ok] at h
  obtain ⟨found, hf, -, rfl⟩ := h
  have hsame : SameClaim record found := by
    apply foldlM_invariant (fun _ r => SameClaim record r) hf
    · rfl
    · intro done name s s' _ hs hstep
      have hs' := prepareDevice_same hstep
      unfold SameClaim at hs hs' ⊢
      rw [hs', hs]
  unfold SameClaim at hsame ⊢
  rw [hsame]

/-- The driver's configuration of the plugin. `jsonHash` is the hash of the
JSON of a list of devices; a name that is not in the inventory adds the zero
device. -/
def pluginConfig (inv : Inventory) (jsonHash : List (Option LocalDevice) → String) : Config where
  version := 2
  driverName := driverName
  poolName := inv.nodeName
  hasDevice name := (inv.devices.lookup name).isSome
  inventoryHash names := jsonHash (names.map inv.devices.lookup)
  prepare := some (prepareNUMA inv)
  claimDevices := cdiDevices inv
  prepare_keeps := by
    intro f hf names record record' h
    cases hf
    exact prepareNUMA_same h

end HeteroCluster.ComputeDriver
