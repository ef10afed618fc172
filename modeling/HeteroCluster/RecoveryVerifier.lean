import HeteroCluster.RecoveryEvacuation

namespace HeteroCluster.RecoveryVerifier

open GoStrings RecoveryIncident OperatorCalls RecoveryIsolation RecoveryEvacuation
open HardwareInventory

def driverName := "orchestration.gputpu.io"

def decodeRecoveryInventory (cfg : Config) (raw bootID : String) : Except ApiError Inventory :=
  match cfg.unmarshalInventory raw with
  | none => .error (.other "pre-fault DRA inventory is missing or invalid")
  | some inventory =>
    if inventory.version ≠ 1 ∨ inventory.bootID ≠ bootID ∨ inventory.cells = [] then
      .error (.other "pre-fault DRA inventory is missing or invalid")
    else
      match inventory.cells.find? (fun c =>
        decide (c.numa < 0 ∨ c.cpus < 1 ∨ c.memoryUnits < 1 ∨ c.memoryUnitBytes < 1)) with
      | some c => .error (.other ("pre-fault DRA inventory has invalid NUMA node " ++ toString c.numa))
      | none => .ok inventory

def verifierName (incident : String) (numa : Int) : String :=
  "hardware-verify-" ++ String.ofList ((incident.toList.take 13).filter (fun c => c != '-')) ++
    "-n" ++ toString numa

def kindNUMASelector (kind : String) (numa : Int) : String :=
  "device.driver == " ++ quote driverName ++ " && device.attributes[" ++ quote driverName ++
    "].kind == " ++ quote kind ++ " && device.attributes[" ++ quote driverName ++
    "][\"numaNode\"] == " ++ toString numa

def memoryNUMASelector (numa unit : Int) : String :=
  kindNUMASelector "memory" numa ++ " && device.attributes[" ++ quote driverName ++
    "][\"unitBytes\"] == " ++ toString unit

def openTPUNUMASelector (profile : String) (numa : Int) : String :=
  kindNUMASelector "opentpu" numa ++ " && device.attributes[" ++ quote driverName ++
    "][\"profile\"] == " ++ quote profile

/-- The footprint of a verifier: CPUs and memory, summed over the profiles. -/
def footprint (cell : Cell) : Except ApiError (Int × Int) :=
  cell.openTPU.foldlM (fun (acc : Int × Int) profile =>
    if profile.count < 1 ∨ profile.cpuCores < 1 ∨ profile.memoryBytes < 1 ∨
        (profile.matrixSize ≠ 8 ∧ profile.matrixSize ≠ 16) then
      Except.error (ApiError.other ("invalid OpenTPU verifier profile " ++ quote profile.profile))
    else Except.ok (wrapInt64 (acc.1 + profile.cpuCores), wrapInt64 (acc.2 + profile.memoryBytes)))
    (1, cell.memoryUnitBytes)

def verifierRequests (cell : Cell) (cpuCount memoryCount : Int) : List DeviceRequest :=
  [⟨"cpu", "cpu.orchestration.gputpu.io", cpuCount, kindNUMASelector "cpu" cell.numa⟩,
    ⟨"memory", "memory.orchestration.gputpu.io", memoryCount,
      memoryNUMASelector cell.numa cell.memoryUnitBytes⟩] ++
  (if cell.gpus = [] then []
    else [⟨"gpu", "nvidia.orchestration.gputpu.io", cell.gpus.length,
      kindNUMASelector "gpu" cell.numa⟩]) ++
  cell.openTPU.zipIdx.map (fun p => ⟨"opentpu-" ++ toString p.2, "opentpu.orchestration.gputpu.io", 1,
    openTPUNUMASelector p.1.profile cell.numa⟩)

/-- The claim and the Job of one cell carry the same name, labels, owner and
resources; `SetOwnerReference` adds the owner without the controller flag. -/
def verifierObjects (cfg : Config) (node : Node) (owner : String) (state : RecoveryState)
    (cell : Cell) : Except ApiError VerifierObject := do
  let (cpuCount, memoryBytes) ← footprint cell
  if cell.cpus < cpuCount then
    .error (.other ("NUMA node " ++ toString cell.numa ++ " has " ++ toString cell.cpus ++
      " CPUs but verifier footprints need " ++ toString cpuCount))
  else
    let memoryCount :=
      (wrapInt64 (wrapInt64 (memoryBytes + cell.memoryUnitBytes) - 1)).tdiv cell.memoryUnitBytes
    if cell.memoryUnits < memoryCount then
      .error (.other ("NUMA node " ++ toString cell.numa ++ " lacks memory for verifier footprints"))
    else
      .ok
        { ns := cfg.ns, name := verifierName state.incident cell.numa
          labels := [(recoveryIncidentKey, state.incident),
            ("orchestration.gputpu.io/recovery-node", node.name),
            ("orchestration.gputpu.io/verifier", "true")]
          owners := [⟨"ConfigMap", "v1", recoveryStateName node, owner, false⟩]
          requests := verifierRequests cell cpuCount memoryCount
          cpus := cpuCount, memoryBytes := wrapInt64 (memoryCount * cell.memoryUnitBytes) }

def createIgnoringExisting (reply : Except ApiError Unit) : Except ApiError Unit :=
  match reply with
  | .error .alreadyExists => .ok ()
  | reply => reply

/-- What is done for one object of a verifier: it is created if it is missing,
and has to be its own if it is there. -/
def ensureObject {α : Type} (labels : α → StringMap) (owners : α → List OwnerReference)
    (kind : String) (find : Operator (Except ApiError α)) (create : Operator (Except ApiError Unit))
    (cfg : Config) (owner incident name : String) : Operator (Except ApiError Unit) := do
  match ← find with
  | .error .notFound => return createIgnoringExisting (← create)
  | .error e => return .error e
  | .ok existing =>
    if get (labels existing) recoveryIncidentKey ≠ incident ∨
        cfg.ownership.isControlledBy (owners existing) owner = false then
      return .error (.other ("verifier " ++ kind ++ " " ++ quote name ++
        " belongs to another incident"))
    else return .ok ()

def ensureClaim (cfg : Config) (owner incident : String) (object : VerifierObject) :
    Operator (Except ApiError Unit) :=
  ensureObject ClaimObject.labels ClaimObject.owners "ResourceClaim"
    (perform (.getClaim object.ns object.name)) (perform (.createClaim object)) cfg owner incident
    object.name

def ensureJob (cfg : Config) (owner incident : String) (object : VerifierObject) :
    Operator (Except ApiError Unit) :=
  ensureObject JobObject.labels JobObject.owners "Job"
    (perform (.getJob object.ns object.name)) (perform (.createJob object)) cfg owner incident
    object.name

def ensureCells (cfg : Config) (node : Node) (owner : String) (state : RecoveryState) :
    List Cell → Operator (Except ApiError Unit)
  | [] => return .ok ()
  | cell :: rest =>
    match verifierObjects cfg node owner state cell with
    | .error e => return .error e
    | .ok object => do
      match ← ensureClaim cfg owner state.incident object with
      | .error e => return .error e
      | .ok () =>
        match ← ensureJob cfg owner state.incident object with
        | .error e => return .error e
        | .ok () => ensureCells cfg node owner state rest

def ensureVerifierResources (cfg : Config) (node : Node) (owner : String) (state : RecoveryState) :
    Operator (Except ApiError Unit) :=
  match decodeRecoveryInventory cfg state.preInventory state.preBootID with
  | .error e => return .error e
  | .ok inventory => ensureCells cfg node owner state inventory.cells

def deleteVerifierResources (cfg : Config) (incident : String) (complete : Bool) :
    List Cell → Operator (Except ApiError Bool)
  | [] => return .ok complete
  | cell :: rest => do
    let name := verifierName incident cell.numa
    match ← perform (.deleteJob cfg.ns name) with
    | .error .notFound =>
      match ← perform (.deleteClaim cfg.ns name) with
      | .error .notFound => deleteVerifierResources cfg incident complete rest
      | .error e => return .error e
      | .ok () => deleteVerifierResources cfg incident false rest
    | .error e => return .error e
    | .ok () =>
      match ← perform (.deleteClaim cfg.ns name) with
      | .error .notFound => deleteVerifierResources cfg incident false rest
      | .error e => return .error e
      | .ok () => deleteVerifierResources cfg incident false rest

def errorText : ApiError → String
  | .notFound => "not found"
  | .alreadyExists => "already exists"
  | .other message => message
  | .wrapped message cause => message ++ ": " ++ errorText cause

def startVerifiers (cfg : Config) (current : Node) (object : String) (state : RecoveryState) :
    Operator Outcome := do
  match ← ensureVerifierResources cfg current object state with
  | .error e => enterManualRepair current state ("create hardware verifiers: " ++ errorText e)
  | .ok () => moveTo current state .verifying

/-- Compare the inventory published for the new boot with the one recorded
before the fault. -/
def compareInventory (cfg : Config) (current : Node) (object : String) (state : RecoveryState)
    (since : Time) : Operator Outcome :=
  if get current.annotations inventoryBootIDKey ≠ state.newBootID ∨
      get current.annotations inventoryHashKey = "" then do
    let now ← perform .now
    if verifierTimeout ≤ now - since then
      enterManualRepair current state "DRA did not publish inventory for the new boot"
    else return (requeue, none)
  else if state.preInventoryHash = "" ∨
      get current.annotations inventoryHashKey ≠ state.preInventoryHash then
    enterManualRepair current state
      "post-reboot DRA inventory does not match the pre-fault inventory"
  else
    match state.verificationStarted with
    | some _ => startVerifiers cfg current object state
    | none => do
      let now ← perform .now
      let started := { state with verificationStarted := some (newTime now) }
      match ← saveState started with
      | .error e => return ({}, some e)
      | .ok object => startVerifiers cfg current object started

def awaitReady (cfg : Config) (current : Node) (object : String) (state : RecoveryState) :
    Operator Outcome :=
  if nodeConditionStatus current.conditions "Ready" ≠ .conditionTrue then
    match state.readySince with
    | some _ => do
      let _ ← saveState { state with readySince := none }
      return (requeue, none)
    | none => return (requeue, none)
  else
    match state.readySince with
    | none => do
      let now ← perform .now
      match ← saveState { state with readySince := some (newTime now) } with
      | .error e => return ({}, some e)
      | .ok _ => return (requeue, none)
    | some since => do
      let now ← perform .now
      if now - since < readyStabilization then return (requeue, none)
      else compareInventory cfg current object state since

def trackBoot (cfg : Config) (current : Node) (object : String) (state : RecoveryState) :
    Operator Outcome :=
  if bootID cfg current = "" ∨ bootID cfg current = state.preBootID then return (requeue, none)
  else if state.newBootID = "" then do
    let booted := { state with newBootID := bootID cfg current, readySince := none }
    match ← saveState booted with
    | .error e => return ({}, some e)
    | .ok object => awaitReady cfg current object booted
  else if state.newBootID ≠ bootID cfg current then
    enterManualRepair current state "node rebooted more than once during one incident"
  else awaitReady cfg current object state

def reconcileReboot (cfg : Config) (node : Node) (object : String) (state : RecoveryState) :
    Operator Outcome := do
  match ← perform (.getNode node.name) with
  | .error e => return (requeue, some e)
  | .ok current =>
    let now ← perform .now
    if cfg.rebootTimeout ≤ now - state.rebootRequestedAt.getD state.phaseStartedAt then
      enterManualRepair current state
        "node did not complete its reboot before the infrastructure timeout"
    else if state.phase = .rebootRequested then
      if get current.annotations rebootAckKey ≠ state.incident then return (requeue, none)
      else moveTo current state .rebooting
    else trackBoot cfg current object state

inductive VerifierScan where
  | missing
  | broken (e : ApiError)
  | failed (numa : Int)
  | finished (allSucceeded : Bool)

def scanVerifiers (cfg : Config) (incident : String) (allSucceeded : Bool) :
    List Cell → Operator VerifierScan
  | [] => return .finished allSucceeded
  | cell :: rest => do
    match ← perform (.getJob cfg.ns (verifierName incident cell.numa)) with
    | .error .notFound => return .missing
    | .error e => return .broken e
    | .ok job =>
      if job.failed ≠ 0 then return .failed cell.numa
      else scanVerifiers cfg incident (allSucceeded && job.succeeded == 1) rest

def confirmVerifiers (cfg : Config) (node : Node) (object : String) (state : RecoveryState)
    (rawStatus : ConditionStatus) (inventory : Inventory) : Operator Outcome := do
  match ← scanVerifiers cfg state.incident true inventory.cells with
  | .missing =>
    match ← ensureVerifierResources cfg node object state with
    | .error e => return ({}, some e)
    | .ok () => return (requeue, none)
  | .broken e => return ({}, some e)
  | .failed numa =>
    enterManualRepair node state ("hardware verifier for NUMA node " ++ toString numa ++ " failed")
  | .finished allSucceeded =>
    if allSucceeded = false ∨ rawStatus ≠ .conditionFalse then return (requeue, none)
    else
      match ← saveState { state with verificationPassed := true } with
      | .error e => return ({}, some e)
      | .ok _ => return (requeue, none)

def finishIncident (node : Node) : Operator Outcome := do
  match ← setHealthy node with
  | .error e => return ({}, some e)
  | .ok () =>
    match ← perform (.deleteState (recoveryStateName node)) with
    | .saved _ => return ({}, none)
    | .failed .notFound => return ({}, none)
    | .lost .notFound => return ({}, none)
    | .failed e => return ({}, some e)
    | .lost e => return ({}, some e)

def reconcileVerification (cfg : Config) (node : Node) (object : String) (state : RecoveryState)
    (rawStatus : ConditionStatus) : Operator Outcome :=
  match state.verificationStarted with
  | none => enterManualRepair node state "verification start timestamp is missing"
  | some started => do
    let now ← perform .now
    if verifierTimeout ≤ now - started then
      enterManualRepair node state "hardware verification timed out"
    else
      match decodeRecoveryInventory cfg state.preInventory state.preBootID with
      | .error e => enterManualRepair node state (errorText e)
      | .ok inventory =>
        if state.verificationPassed = false then
          confirmVerifiers cfg node object state rawStatus inventory
        else if rawStatus ≠ .conditionFalse then return (requeue, none)
        else
          match ← deleteVerifierResources cfg state.incident true inventory.cells with
          | .error e => return (requeue, some e)
          | .ok false => return (requeue, none)
          | .ok true => finishIncident node

end HeteroCluster.RecoveryVerifier
