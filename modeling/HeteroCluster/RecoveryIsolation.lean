import HeteroCluster.HardwareInventory
import HeteroCluster.OperatorCalls

namespace HeteroCluster.RecoveryIsolation

open GoStrings RecoveryIncident OperatorCalls HardwareInventory

def hardwareFaultCondition := "HardwareFaultDetected"
def hardwareDegradedCondition := "HardwareDegraded"
def hardwareDegradedTaint := "orchestration.gputpu.io/hardware-degraded"
def recoveryIncidentKey := "orchestration.gputpu.io/recovery-incident"
def recoveryPhaseKey := "orchestration.gputpu.io/recovery-phase"
def recoveryRequestKey := "orchestration.gputpu.io/recovery-request"
def rebootRequestKey := "orchestration.gputpu.io/reboot-request"
def rebootAckKey := "orchestration.gputpu.io/reboot-ack"
def inventoryKey := "orchestration.gputpu.io/inventory-v1"
def inventoryHashKey := "orchestration.gputpu.io/inventory-hash"
def inventoryBootIDKey := "orchestration.gputpu.io/inventory-boot-id"
def workerRecoveryAnnotation := "orchestration.gputpu.io/recovery-incident"
def recoveryStateVersion : Int := 1
def checkpointGrace : Int := 120 * second
def readyStabilization : Int := 30 * second
def verifierTimeout : Int := 120 * second
def recoveryRequeue : Int := 5 * second

def isLowerHex (c : Char) : Bool := ('0' ≤ c && c ≤ '9') || ('a' ≤ c && c ≤ 'f')

/-- The text of a UUID in the form `uuid.String` prints it. -/
def canonicalUUID (value : String) : Bool :=
  value.toList.length == 36 &&
    value.toList.zipIdx.all (fun p =>
      if p.2 == 8 || p.2 == 13 || p.2 == 18 || p.2 == 23 then p.1 == '-' else isLowerHex p.1)

/-- The `uuid` package. A text is parsed, and the UUID printed again. -/
structure UUIDs where
  reprint : String → Option String
  reprint_canonical : ∀ value, canonicalUUID value = true → reprint value = some value
  canonical_reprint : ∀ value printed, reprint value = some printed → canonicalUUID printed = true

def canonicalOnly : UUIDs where
  reprint value := if canonicalUUID value = true then some value else none
  reprint_canonical _ h := if_pos h
  canonical_reprint value printed h := by
    obtain ⟨hvalue, heq⟩ := Option.ite_none_right_eq_some.mp h
    rw [← Option.some.inj heq]
    exact hvalue

/-- The settings of the controller, and what it takes from other packages:
`unmarshalInventory` is the JSON decoder for the inventory annotation. -/
structure Config where
  ns : String
  rebootTimeout : Int
  bootIDAnnotation : String
  unmarshalInventory : String → Option Inventory
  uuids : UUIDs
  ownership : Ownership

structure Result where
  requeueAfter : Option Int := none
  deriving DecidableEq, Repr

abbrev Outcome := Result × Option ApiError

def requeue : Result := ⟨some recoveryRequeue⟩

def validIncident (cfg : Config) (value : String) : Bool := cfg.uuids.reprint value == some value

theorem validIncident_eq (cfg : Config) (value : String) :
    validIncident cfg value = canonicalUUID value := by
  rw [Bool.eq_iff_iff, validIncident, beq_iff_eq]
  constructor
  · exact cfg.uuids.canonical_reprint value value
  · exact cfg.uuids.reprint_canonical value

def initialState (node : Node) (now : Time) (incident : String) : RecoveryState :=
  { version := recoveryStateVersion, incident := incident, nodeName := node.name
    nodeUID := node.uid, phase := .isolated, startedAt := newTime now
    phaseStartedAt := newTime now, preBootID := node.bootID
    preInventory := get node.annotations inventoryKey
    preInventoryHash := get node.annotations inventoryHashKey }

def newRecoveryState (node : Node) : Operator (Except ApiError RecoveryState) := do
  let now ← perform .now
  match ← perform .newRandom with
  | .error e => return .error e
  | .ok incident => return .ok (initialState node now incident)

def bootID (cfg : Config) (node : Node) : String :=
  if cfg.bootIDAnnotation ≠ "" ∧ get node.annotations cfg.bootIDAnnotation ≠ "" then
    get node.annotations cfg.bootIDAnnotation
  else node.bootID

def recoveryStateName (node : Node) : String := "hardware-recovery-" ++ toLower node.uid

/-- The state and the UID of the ConfigMap that holds it, if there is one. -/
def loadState (cfg : Config) (node : Node) :
    Operator (Except ApiError (Option (String × RecoveryState))) := do
  match ← perform (.getState (recoveryStateName node)) with
  | .error .notFound => return .ok none
  | .error e => return .error e
  | .ok (object, state) =>
    if state.version ≠ recoveryStateVersion ∨ state.nodeName ≠ node.name ∨
        state.nodeUID ≠ node.uid ∨ validIncident cfg state.incident = false then
      return .error (.other "recovery state is invalid or belongs to another Node")
    else return .ok (some (object, state))

def saveState (state : RecoveryState) : Operator (Except ApiError String) := do
  match ← perform (.saveState state) with
  | .saved object => return .ok object
  | .failed e => return .error e
  | .lost e => return .error e

def nodeConditionStatus (conditions : List NodeCondition) (conditionType : String) :
    ConditionStatus :=
  match conditions.find? (fun c => c.type == conditionType) with
  | some c => c.status
  | none => .conditionUnknown

/-- The loop over the conditions: nothing when the condition already reads as
wanted, otherwise whether it was found and the updated list. -/
def updateConditions (now : Time) (status : ConditionStatus) (reason message : String) :
    List NodeCondition → Option (Bool × List NodeCondition)
  | [] => some (false, [])
  | c :: rest =>
    if c.type ≠ hardwareDegradedCondition then
      (updateConditions now status reason message rest).map (fun r => (r.1, c :: r.2))
    else if c.status = status ∧ c.reason = reason ∧ c.message = message then none
    else (updateConditions now status reason message rest).map (fun r =>
      (true, { c with status := status, reason := reason, message := message
                      lastHeartbeatTime := newTime now, lastTransitionTime := newTime now } :: r.2))

def setNodeCondition (name : String) (status : ConditionStatus) (reason message : String) :
    Operator (Except ApiError Unit) := do
  match ← perform (.getNode name) with
  | .error e => return .error e
  | .ok node =>
    let now ← perform .now
    match updateConditions now status reason message node.conditions with
    | none => return .ok ()
    | some (true, conditions) => perform (.patchNodeStatus node.name conditions)
    | some (false, conditions) =>
      perform (.patchNodeStatus node.name (conditions ++
        [⟨hardwareDegradedCondition, status, reason, message, newTime now, newTime now⟩]))

def degradedTaint : Taint := ⟨hardwareDegradedTaint, "true", "NoSchedule", none⟩

/-- Equality of taint values in Go. The time is behind a pointer that a deep
copy replaces, so only taints without one compare equal. -/
def Taint.same (a b : Taint) : Bool := a == b && a.timeAdded.isNone

def sameTaints (a b : List Taint) : Bool :=
  a.length == b.length && (a.zip b).all (fun p => Taint.same p.1 p.2)

def patchChanged (node copy : Node) : Operator (Except ApiError Node) :=
  if equal copy.annotations node.annotations && sameTaints copy.taints node.taints then
    return .ok node
  else perform (.patchNode copy)

def isolatedNode (node : Node) (state : RecoveryState) : Node :=
  let marked := set (set node.annotations recoveryIncidentKey state.incident)
    recoveryPhaseKey state.phase.name
  let annotations := if state.phase = .rebootRequested ∨ state.phase = .rebooting then
      set marked rebootRequestKey state.incident
    else marked
  let taints := if node.taints.any (fun t => Taint.same t degradedTaint) then node.taints
    else node.taints ++ [degradedTaint]
  { node with annotations := annotations, taints := taints }

def isolationReason (state : RecoveryState) : String × String :=
  if state.phase = .manualRepair then ("ManualRepair", state.terminalReason)
  else ("RecoveryInProgress", "hardware recovery incident " ++ state.incident ++ " is " ++
    state.phase.name)

/-- Taint and annotate the Node. The Node the API server returns replaces the
one the reconcile works on. -/
def ensureIsolation (node : Node) (state : RecoveryState) : Operator (Except ApiError Node) := do
  match ← patchChanged node (isolatedNode node state) with
  | .error e => return .error e
  | .ok node =>
    match ← setNodeCondition node.name .conditionTrue (isolationReason state).1
      (isolationReason state).2 with
    | .error e => return .error e
    | .ok () => return .ok node

def healthyNode (node : Node) : Node :=
  { node with
    taints := node.taints.filter (fun t => t.key != hardwareDegradedTaint)
    annotations := [recoveryIncidentKey, recoveryPhaseKey, recoveryRequestKey, rebootRequestKey,
      rebootAckKey].foldl delete node.annotations }

def setHealthy (node : Node) : Operator (Except ApiError Unit) := do
  perform .setHealthy
  match ← patchChanged node (healthyNode node) with
  | .error e => return .error e
  | .ok _ =>
    setNodeCondition node.name .conditionFalse "HardwareHealthy" "hardware recovery is not active"

def setPhase (node : Node) (state : RecoveryState) (phase : Phase) :
    Operator (Except ApiError Unit) := do
  let now ← perform .now
  let state := { state with phase := phase, phaseStartedAt := newTime now }
  match ← saveState state with
  | .error e => return .error e
  | .ok _ =>
    match ← ensureIsolation node state with
    | .error e => return .error e
    | .ok _ => return .ok ()

def enterManualRepair (node : Node) (state : RecoveryState) (reason : String) :
    Operator Outcome := do
  match ← setPhase node { state with
      terminalReason := reason, manualRequest := get node.annotations recoveryRequestKey }
      .manualRepair with
  | .error e => return ({}, some e)
  | .ok () => return ({}, none)

end HeteroCluster.RecoveryIsolation
