import HeteroCluster.WorkerPlan

namespace HeteroCluster.WorkerReconcile

open CallProgram FailFast GoStrings OperatorCalls RecoveryIncident RecoveryEvacuation
open RecoveryVerifier WorkerDemand WorkerPods WorkerPlan

structure WorkerClaim where
  allocated : Bool
  owners : List OwnerReference

/-- What a pass asks of the API server and of Slurm. -/
inductive WorkerCall where
  | listPods
  | slurmNodes
  | updatePod (pod : WorkerPod)
  | deletePod (name : String)
  | drainNode (name reason : String)
  | deleteNode (name : String)
  | getClaim (name : String) (pod : WorkerPod)
  | createClaim (name : String) (pod : WorkerPod) (requests : List DeviceRequest)
  | createPod (pod : WorkerPod)
  | openTPUFootprints
  | randomText
  | now

/-- The API server stores the metadata that an update submits. The status and
the deletion of the Pod are its own. -/
structure Stored (submitted stored : WorkerPod) : Prop where
  name : stored.name = submitted.name
  uid : stored.uid = submitted.uid
  labels : stored.labels = submitted.labels
  annotations : stored.annotations = submitted.annotations
  shape : stored.shape = submitted.shape
  finalizers : stored.finalizers = submitted.finalizers

abbrev WorkerReply : WorkerCall → Type
  | .listPods => Except ApiError { pods : List WorkerPod // (pods.map (fun pod => pod.name)).Nodup }
  | .slurmNodes => Except ApiError (List SlurmNode)
  | .updatePod pod => Except ApiError { stored : WorkerPod // Stored pod stored }
  | .getClaim _ _ => Except ApiError WorkerClaim
  | .createPod _ => Except ApiError String
  | .openTPUFootprints => Except ApiError Footprints
  | .randomText => String
  | .now => Time
  | _ => Except ApiError Unit

abbrev Run := Program WorkerReply
abbrev WorkerEvent := Event WorkerReply
abbrev WorkerLog := Log WorkerReply

abbrev ask (c : WorkerCall) : Run (WorkerReply c) := Program.perform c

section Workers

def ignoreNotFound : Except ApiError Unit → Except ApiError Unit
  | .error .notFound => .ok ()
  | reply => reply

/-- An empty value removes the annotation. -/
def setWorkerAnnotation (pod : WorkerPod) (key value : String) :
    Run (Except ApiError WorkerPod) := do
  let annotations :=
    if value = "" then delete pod.annotations key else set pod.annotations key value
  match ← ask (.updatePod { pod with annotations := annotations }) with
  | .error e => return .error e
  | .ok stored => return .ok { pod with annotations := stored.1.annotations }

/-- The last step of `cleanupWorker`: the Pod is deleted. -/
def deleteWorker (pod : WorkerPod) : Run (Except ApiError WorkerPod) :=
  if pod.deleting then return .ok pod
  else do
    match ignoreNotFound (← ask (.deletePod pod.name)) with
    | .error e => return .error e
    | .ok () => return .ok pod

def releaseWorker (pod : WorkerPod) : Run (Except ApiError WorkerPod) :=
  if pod.finalizers.contains workerFinalizer then do
    let released := { pod with finalizers := pod.finalizers.filter (fun f => f != workerFinalizer) }
    match ← ask (.updatePod released) with
    | .error .notFound => deleteWorker released
    | .error e => return .error e
    | .ok stored => deleteWorker stored.1
  else deleteWorker pod

def cleanupWorker (pod : WorkerPod) : Option SlurmNode → Run (Except ApiError WorkerPod)
  | none => releaseWorker pod
  | some node =>
    if pod.draining = false then do
      match ← ask (.drainNode pod.name "elastic worker removal") with
      | .error e => return .error e
      | .ok () => setWorkerAnnotation pod workerDrainAnnotation "true"
    else if nodeIdle node = false ∨ node.state.contains "DRAIN" = false then return .ok pod
    else do
      match ← ask (.deleteNode pod.name) with
      | .error e => return .error e
      | .ok () => releaseWorker pod

def ensureWorkerClaim (cluster : Cluster) (pod : WorkerPod) : Run (Except ApiError Unit) := do
  let claimName := get pod.annotations workerClaimAnnotation
  if claimName = "" then
    return .error (.other ("worker Pod " ++ quote pod.name ++ " has no resource claim annotation"))
  else
    match ← ask (.getClaim claimName pod) with
    | .ok existing =>
      return refuse (cluster.ownership.isControlledBy existing.owners pod.uid = false)
        (.other ("worker ResourceClaim " ++ pod.ns ++ "/" ++ claimName ++
          " is not controlled by Pod " ++ pod.name))
    | .error .notFound =>
      match podShape pod with
      | .error e => return .error e
      | .ok shape =>
        if knownPool cluster pod.pool = false then
          return .error (.other ("worker Pod " ++ quote pod.name ++ " references unknown pool"))
        else
          match resourceClaim cluster.quantity shape (poolSpec cluster pod.pool)
              cluster.workerMemoryHeadroom with
          | .error e => return .error e
          | .ok requests =>
            match ← ask (.createClaim claimName pod requests) with
            | .error .alreadyExists => return .ok ()
            | .error e => return .error (.wrapped "create worker ResourceClaim" e)
            | .ok () => return .ok ()
    | .error e => return .error e

end Workers

section Settle

variable (cluster : Cluster) (nodeByName : String → Option SlurmNode)

def restoreFinalizer (pod : WorkerPod) : Run (Except ApiError WorkerPod) :=
  if pod.finalizers.contains workerFinalizer then return .ok pod
  else do
    match ← ask (.updatePod { pod with finalizers := pod.finalizers ++ [workerFinalizer] }) with
    | .error e => return .error (.wrapped "restore worker Pod finalizer" e)
    | .ok stored => return .ok { pod with finalizers := stored.1.finalizers }

def ensureClaimOf (pod : WorkerPod) : Run (Except ApiError WorkerPod) := do
  match ← ensureWorkerClaim cluster pod with
  | .error e => return .error e
  | .ok () => return .ok pod

def checkRegistered (pod : WorkerPod) (node : SlurmNode) : Run (Except ApiError WorkerPod) := do
  let claimName := get pod.annotations workerClaimAnnotation
  if claimName = "" then cleanupWorker pod (some node)
  else
    match ← ask (.getClaim claimName pod) with
    | .error .notFound => cleanupWorker pod (some node)
    | .error e => return .error e
    | .ok claim =>
      if claim.allocated = false ∨
          cluster.ownership.isControlledBy claim.owners pod.uid = false then
        cleanupWorker pod (some node)
      else ensureClaimOf cluster pod

def settleWorker (pod : WorkerPod) : Run (Except ApiError WorkerPod) :=
  match validateWorkerPod cluster pod with
  | .error e => return .error e
  | .ok () =>
    if pod.recovering then return .ok pod
    else if pod.deleting then cleanupWorker pod (nodeByName pod.name)
    else do
      match ← restoreFinalizer pod with
      | .error e => return .error e
      | .ok pod =>
        if pod.draining = true ∨ pod.phase = .failed then cleanupWorker pod (nodeByName pod.name)
        else
          match nodeByName pod.name with
          | some node => checkRegistered cluster pod node
          | none => ensureClaimOf cluster pod

/-- The first loop over the Pods. The Pods are changed in place. -/
def settleWorkers : List WorkerPod → Run (Except ApiError (List WorkerPod))
  | [] => return .ok []
  | pod :: pods => do
    match ← settleWorker cluster nodeByName pod with
    | .error e => return .error e
    | .ok pod =>
      match ← settleWorkers pods with
      | .error e => return .error e
      | .ok pods => return .ok (pod :: pods)

/-- Nodes that no Pod stands behind are drained and deleted. -/
def removeOrphans (podNames : List String) : List SlurmNode → Run (Except ApiError Unit)
  | [] => return .ok ()
  | node :: nodes =>
    if podNames.contains node.name || !managedWorkerNode cluster node.name then
      removeOrphans podNames nodes
    else if node.state.contains "DRAIN" && nodeIdle node then do
      match ← ask (.deleteNode node.name) with
      | .error e => return .error e
      | .ok () => removeOrphans podNames nodes
    else do
      match ← ask (.drainNode node.name "orphaned elastic worker") with
      | .error e => return .error e
      | .ok () => removeOrphans podNames nodes

/-- A Pod that counts for its pool, and is a candidate unless it is at work. -/
def addCandidate (state : (String → Nat) × List WorkerCandidate) (pod : WorkerPod) :
    Except ApiError ((String → Nat) × List WorkerCandidate) :=
  if knownPool cluster pod.pool = false ∨ pod.deleting = true ∨ pod.phase = .failed ∨
      pod.recovering = true then .ok state
  else do
    let counts := Function.update state.1 pod.pool (state.1 pod.pool + 1)
    let shape ← (podShape pod).mapError
      (.wrapped ("worker Pod " ++ pod.ns ++ "/" ++ pod.name))
    let idle := podReady pod && (nodeByName pod.name).any nodeIdle
    if podReady pod = false ∨ (nodeByName pod.name).isNone ∨ idle then
      return (counts, state.2 ++ [⟨pod, shape⟩])
    else return (counts, state.2)

end Settle

section Plan

variable (cluster : Cluster)

def workerLabels (pool : String) : StringMap :=
  [(workerPoolLabel, pool), ("app.kubernetes.io/name", "heterogeneous-cluster"),
    ("app.kubernetes.io/instance", cluster.name), ("app.kubernetes.io/component", workerComponent),
    ("app.kubernetes.io/managed-by", "slurm-operator")]

def newWorker (pool : WorkerPoolSpec) (demand : Demand) (text : String) : WorkerPod :=
  let name := cluster.name ++ "-" ++ pool.name ++ "-" ++ text
  { ns := cluster.ns, name := name, uid := "", labels := workerLabels cluster pool.name
    shape := some (shapeJSON demand.shape)
    annotations := set [] workerClaimAnnotation (name ++ "-resources")
    owners := [⟨"HeterogeneousCluster", groupVersion, cluster.name, cluster.uid, true⟩]
    finalizers := [workerFinalizer], deleting := false, phase := .pending, conditions := [] }

def createWorker (pool : WorkerPoolSpec) (demand : Demand) : Run (Except ApiError Unit) := do
  let text ← ask .randomText
  if demand.shape.cpus < 1 ∨ demand.shape.memoryBytes < 1 then
    return .error (.other "invalid worker shape")
  else
    let pod := newWorker cluster pool demand text
    match ← ask (.createPod pod) with
    | .error e => return .error (.wrapped "create worker Pod" e)
    | .ok uid => ensureWorkerClaim cluster { pod with uid := uid }

def createWorkers : List Demand → Run (Except ApiError Unit)
  | [] => return .ok ()
  | demand :: demands =>
    if cluster.workerImage = "" then
      return .error (.other "WORKER_IMAGE is required when worker demand exists")
    else do
      match ← createWorker cluster (poolSpec cluster demand.poolName) demand with
      | .error e => return .error e
      | .ok () => createWorkers demands

/-- What was decided about a group: where its units go, or that it does not fit. -/
structure Decision where
  group : UInt32
  placements : Option (List Placement)

/-- The state of the loop over the groups. The names in `used` are those of
`assigned` as well, and `decisions` records what the loop did. -/
structure Plan where
  used : List String
  counts : String → Nat
  decisions : List Decision

def Plan.refuseGroup (plan : Plan) (group : UInt32) : Plan :=
  { plan with decisions := plan.decisions ++ [⟨group, none⟩] }

def Plan.acceptGroup (plan : Plan) (group : UInt32) (placements : List Placement) : Plan where
  used := plan.used ++ localUsed placements
  counts pool := plan.counts pool + (creates placements).countP (inPool pool)
  decisions := plan.decisions ++ [⟨group, some placements⟩]

/-- The loop over the groups, with the error that ended it, if one did. -/
def planGroups (candidates : List WorkerCandidate) (demands : List Demand) :
    List UInt32 → Plan → Run (Plan × Option ApiError)
  | [], plan => return (plan, none)
  | group :: groups, plan =>
    let placements := place candidates plan.used (byGroup demands group)
    if fits cluster plan.counts (creates placements) = false then
      planGroups candidates demands groups (plan.refuseGroup group)
    else do
      match ← createWorkers cluster (creates placements) with
      | .error e => return (plan, some e)
      | .ok () => planGroups candidates demands groups (plan.acceptGroup group placements)

end Plan

section ScaleDown

variable (cluster : Cluster) (nodeByName : String → Option SlurmNode) (assigned : List String)

/-- A ready idle worker that may go once it has been idle for long enough. -/
def retireIdle (pool : WorkerPoolSpec) (ready : String → Int) (pod : WorkerPod)
    (node : Option SlurmNode) : Run (Except ApiError ((String → Int) × WorkerPod)) := do
  if ready pool.name ≤ pool.scaling.minReady then return .ok (ready, pod)
  else
    match cluster.parseTime (get pod.annotations workerIdleAnnotation) with
    | none =>
      let now ← ask .now
      match ← setWorkerAnnotation pod workerIdleAnnotation (cluster.formatTime now) with
      | .error e => return .error e
      | .ok pod => return .ok (ready, pod)
    | some idleSince =>
      let now ← ask .now
      if now - idleSince < pool.scaling.idleTimeout then return .ok (ready, pod)
      else
        match ← cleanupWorker pod node with
        | .error e => return .error e
        | .ok pod => return .ok (Function.update ready pool.name (ready pool.name - 1), pod)

def clearIdle (ready : String → Int) (pod : WorkerPod) :
    Run (Except ApiError ((String → Int) × WorkerPod)) :=
  if get pod.annotations workerIdleAnnotation = "" then return .ok (ready, pod)
  else do
    match ← setWorkerAnnotation pod workerIdleAnnotation "" with
    | .error e => return .error e
    | .ok pod => return .ok (ready, pod)

def scaleDownWorker (ready : String → Int) (pod : WorkerPod) :
    Run (Except ApiError ((String → Int) × WorkerPod)) :=
  if knownPool cluster pod.pool = false ∨ pod.deleting = true ∨ pod.draining = true ∨
      pod.recovering = true then return .ok (ready, pod)
  else
    let pool := poolSpec cluster pod.pool
    let ready :=
      if podReady pod then Function.update ready pool.name (ready pool.name + 1) else ready
    let node := nodeByName pod.name
    if assigned.contains pod.name || !(!podReady pod || node.any nodeIdle) then clearIdle ready pod
    else if podReady pod = false ∨ node.isNone then do
      match ← cleanupWorker pod node with
      | .error e => return .error e
      | .ok pod => return .ok (ready, pod)
    else retireIdle cluster pool ready pod node

def scaleDown : List WorkerPod → (String → Int) → Run (Except ApiError (List WorkerPod))
  | [], _ => return .ok []
  | pod :: pods, ready => do
    match ← scaleDownWorker cluster nodeByName assigned ready pod with
    | .error e => return .error e
    | .ok (ready, pod) =>
      match ← scaleDown pods ready with
      | .error e => return .error e
      | .ok pods => return .ok (pod :: pods)

end ScaleDown

section Pass

variable (cluster : Cluster)

structure WorkerPoolStatus where
  name : String
  ready : Nat
  pending : Nat
  draining : Nat

def poolStatus (pods : List WorkerPod) (pool : WorkerPoolSpec) : WorkerPoolStatus :=
  let own := pods.filter (fun pod => pod.pool == pool.name)
  let (draining, live) := own.partition (fun pod => pod.deleting || pod.draining)
  ⟨pool.name, (live.filter podReady).length, (live.filter (fun pod => !podReady pod)).length,
    draining.length⟩

def statuses (pods : List WorkerPod) : List WorkerPoolStatus :=
  (cluster.pools.map (poolStatus pods)).mergeSort (fun a b => a.name ≤ b.name)

structure WorkerResult where
  status : List WorkerPoolStatus
  ready : Bool
  reason : String
  message : String

/-- What the pass has found out and decided when its groups are planned. -/
structure Planning where
  pods : List WorkerPod
  nodeByName : String → Option SlurmNode
  candidates : List WorkerCandidate
  demands : List Demand
  rejected : List String
  plan : Plan

def nodesByName (nodes : List SlurmNode) (name : String) : Option SlurmNode :=
  nodes.reverse.find? (fun node => node.name == name)

/-- The middle part of the pass, from the footprints to the end of the planning. -/
def planWorkers (jobs : List PendingJob) (nodeByName : String → Option SlurmNode)
    (pods : List WorkerPod) : Run (Except ApiError Planning) := do
  match ← ask .openTPUFootprints with
  | .error e => return .error e
  | .ok footprints =>
    let (demands, rejected) := demands wrapInt64 cluster.quantity jobs cluster.pools footprints
    match pods.foldlM (addCandidate cluster nodeByName) (fun _ => 0, []) with
    | .error e => return .error e
    | .ok (counts, candidates) =>
      match ← planGroups cluster candidates demands (groups demands) ⟨[], counts, []⟩ with
      | (_, some e) => return .error e
      | (plan, none) => return .ok ⟨pods, nodeByName, candidates, demands, rejected, plan⟩

def settlePods (nodes : List SlurmNode) (pods : List WorkerPod) :
    Run (Except ApiError (List WorkerPod)) := do
  match ← settleWorkers cluster (nodesByName nodes) pods with
  | .error e => return .error e
  | .ok settled =>
    match ← removeOrphans cluster (pods.map (fun pod => pod.name)) nodes with
    | .error e => return .error e
    | .ok () => return .ok settled

def passResult (rejected : List String) (pods : List WorkerPod) : WorkerResult :=
  match rejected with
  | [] => ⟨statuses cluster pods, true, "Ready", "elastic workers are reconciled"⟩
  | first :: _ => ⟨statuses cluster pods, false, "DemandRejected", first⟩

def reconcileWorkers (jobs : List PendingJob) : Run (Except ApiError WorkerResult) := do
  match ← ask .listPods with
  | .error e => return .error (.wrapped "list worker Pods" e)
  | .ok pods =>
    match ← ask .slurmNodes with
    | .error e => return .ok ⟨statuses cluster pods.1, false, "RESTUnavailable", errorText e⟩
    | .ok nodes =>
      match ← settlePods cluster nodes pods.1 with
      | .error e => return .error e
      | .ok settled =>
        match ← planWorkers cluster jobs (nodesByName nodes) settled with
        | .error e => return .error e
        | .ok planning =>
          match ← scaleDown cluster (nodesByName nodes) planning.plan.used planning.pods
              (fun _ => 0) with
          | .error e => return .error e
          | .ok pods => return .ok (passResult cluster planning.rejected pods)

end Pass

end HeteroCluster.WorkerReconcile
