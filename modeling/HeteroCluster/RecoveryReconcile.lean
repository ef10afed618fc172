import HeteroCluster.RecoveryVerifier

namespace HeteroCluster.RecoveryReconcile

open GoStrings RecoveryIncident OperatorCalls RecoveryIsolation RecoveryEvacuation
open RecoveryVerifier

def advance (cfg : Config) (node : Node) (rawStatus : ConditionStatus) (object : String)
    (state : RecoveryState) : Operator Outcome := do
  match ← ensureIsolation node state with
  | .error e => return (requeue, some e)
  | .ok node =>
    match state.phase with
    | .manualRepair => return ({}, none)
    | .isolated | .draining | .checkpointing | .requeued => reconcileEvacuation node state
    | .rebootRequested | .rebooting => reconcileReboot cfg node object state
    | .verifying => reconcileVerification cfg node object state rawStatus

/-- A node in manual repair starts a new incident when the raw fault is gone
and an administrator asks for it. -/
def repairRequested (cfg : Config) (node : Node) (rawStatus : ConditionStatus)
    (state : RecoveryState) : Prop :=
  state.phase = .manualRepair ∧ rawStatus = .conditionFalse ∧
    get node.annotations recoveryRequestKey ≠ "" ∧
    get node.annotations recoveryRequestKey ≠ state.manualRequest ∧
    validIncident cfg (get node.annotations recoveryRequestKey) = true

instance (cfg : Config) (node : Node) (rawStatus : ConditionStatus) (state : RecoveryState) :
    Decidable (repairRequested cfg node rawStatus state) := inferInstanceAs (Decidable (_ ∧ _))

def reconcileState (cfg : Config) (node : Node) (rawStatus : ConditionStatus) (object : String)
    (state : RecoveryState) : Operator Outcome :=
  if repairRequested cfg node rawStatus state then do
    match ← newRecoveryState node with
    | .error e => return ({}, some e)
    | .ok fresh =>
      let requestID := get node.annotations recoveryRequestKey
      let fresh := { fresh with incident := requestID, manualRequest := requestID }
      match ← saveState fresh with
      | .error e => return ({}, some e)
      | .ok object => advance cfg node rawStatus object fresh
  else advance cfg node rawStatus object state

def createState (cfg : Config) (node : Node) (rawStatus : ConditionStatus) (state : RecoveryState) :
    Operator Outcome := do
  match ← saveState state with
  | .error e => return ({}, some e)
  | .ok object => reconcileState cfg node rawStatus object state

def withoutState (cfg : Config) (node : Node) (rawStatus : ConditionStatus) : Operator Outcome := do
  if rawStatus = .conditionTrue then
    match ← newRecoveryState node with
    | .error e => return ({}, some e)
    | .ok state => createState cfg node rawStatus state
  else if get node.annotations recoveryIncidentKey ≠ "" then
    match ← newRecoveryState node with
    | .error e => return ({}, some e)
    | .ok state =>
      let state := { state with
        phase := .manualRepair, terminalReason := "durable recovery state is missing" }
      createState cfg node rawStatus state
  else
    match ← setHealthy node with
    | .error e => return ({}, some e)
    | .ok () => return ({}, none)

def managed (node : Node) : Bool :=
  get node.labels "orchestration.gputpu.io/compute" == "true" ||
    get node.annotations recoveryIncidentKey != ""

def reconcile (cfg : Config) (name : String) : Operator Outcome := do
  match ← perform (.getNode name) with
  | .error .notFound => return ({}, none)
  | .error e => return ({}, some e)
  | .ok node =>
    let rawStatus := nodeConditionStatus node.conditions hardwareFaultCondition
    match ← loadState cfg node with
    | .error e => return (requeue, some e)
    | .ok (some (object, state)) => reconcileState cfg node rawStatus object state
    | .ok none => if managed node then withoutState cfg node rawStatus else return ({}, none)

end HeteroCluster.RecoveryReconcile
