import HeteroCluster.RecoveryIsolation

namespace HeteroCluster.RecoveryEvacuation

open GoStrings RecoveryIncident AffectedJobs OperatorCalls RecoveryIsolation

def workerComponent := "slurmd"
def workerFinalizer := "orchestration.gputpu.io/slurm-node-cleanup"
def workerClaimAnnotation := "orchestration.gputpu.io/resource-claim"
def groupVersion := "orchestration.gputpu.io/v1alpha1"

def isWorker (pod : Pod) : Bool :=
  get pod.labels "app.kubernetes.io/component" == workerComponent &&
    get pod.labels "app.kubernetes.io/managed-by" == "slurm-operator"

def clusterOwner (pod : Pod) : Option OwnerReference :=
  match pod.owners.find? OwnerReference.controller with
  | some owner =>
    if owner.kind ≠ "HeterogeneousCluster" ∨ owner.apiVersion ≠ groupVersion then none
    else some owner
  | none => none

def addCluster (clusters : List RecoveryCluster) (c : RecoveryCluster) : List RecoveryCluster × Bool :=
  if clusters.any (fun item => item.ns == c.ns && item.name == c.name) then (clusters, false)
  else (clusters ++ [c], true)

def addWorker (workers : List RecoveryWorker) (w : RecoveryWorker) : List RecoveryWorker × Bool :=
  if workers.any (fun item => item.ns == w.ns && item.name == w.name) then (workers, false)
  else (workers ++ [w], true)

def recordPod (state : RecoveryState) (pod : Pod) (owner : OwnerReference) (cluster : Cluster) :
    RecoveryState × Bool :=
  let clusters := addCluster state.clusters ⟨pod.ns, owner.name, cluster.uid⟩
  let workers := addWorker state.workers
    ⟨pod.ns, owner.name, pod.ns, pod.name, get pod.annotations workerClaimAnnotation⟩
  ({ state with clusters := clusters.1, workers := workers.1 }, clusters.2 || workers.2)

def discoverPods (state : RecoveryState) (changed : Bool) :
    List Pod → Operator (Except ApiError (RecoveryState × Bool))
  | [] => return .ok (state, changed)
  | pod :: rest =>
    if !isWorker pod then discoverPods state changed rest
    else match clusterOwner pod with
    | none => return .error (.other ("worker Pod " ++ pod.ns ++ "/" ++ pod.name ++
        " has no HeterogeneousCluster controller"))
    | some owner => do
      match ← perform (.getCluster pod.ns owner.name) with
      | .error e => return .error (.wrapped ("read worker cluster " ++ pod.ns ++ "/" ++ owner.name) e)
      | .ok cluster =>
        if cluster.uid ≠ owner.uid then
          return .error (.other ("worker Pod " ++ pod.ns ++ "/" ++ pod.name ++
            " refers to a replaced cluster"))
        else
          let next := recordPod state pod owner cluster
          if get pod.annotations workerRecoveryAnnotation ≠ state.incident then
            match ← perform (.patchPod { pod with
                annotations := set pod.annotations workerRecoveryAnnotation state.incident }) with
            | .error .notFound => discoverPods next.1 (changed || next.2) rest
            | .error e => return .error e
            | .ok _ => discoverPods next.1 (changed || next.2) rest
          else discoverPods next.1 (changed || next.2) rest

def clusterOrder (a b : RecoveryCluster) : Bool := decide (a.key ≤ b.key)
def workerOrder (a b : RecoveryWorker) : Bool := decide (a.key ≤ b.key)

def sortWorkers (state : RecoveryState) : RecoveryState :=
  { state with
    clusters := state.clusters.mergeSort clusterOrder
    workers := state.workers.mergeSort workerOrder }

def discoverWorkers (node : Node) (state : RecoveryState) :
    Operator (Except ApiError (RecoveryState × Bool)) := do
  match ← perform (.listPods node.name) with
  | .error e => return .error (.wrapped "list workers on degraded Node" e)
  | .ok pods =>
    match ← discoverPods state false pods with
    | .error e => return .error e
    | .ok (state, changed) => return .ok (sortWorkers state, changed)

def slurmSnapshots (result : Snapshots) :
    List RecoveryCluster → Operator (Except ApiError Snapshots)
  | [] => return .ok result
  | reference :: rest => do
    match ← perform (.getCluster reference.ns reference.name) with
    | .error e => return .error e
    | .ok cluster =>
      if cluster.uid ≠ reference.uid then
        return .error (.other ("cluster " ++ reference.ns ++ "/" ++ reference.name ++
          " was replaced during recovery"))
      else
        match ← perform (.slurmClient reference.key) with
        | .error e => return .error e
        | .ok () =>
          match ← perform (.slurmNodes reference.key) with
          | .error e => return .error e
          | .ok nodes =>
            match ← perform (.slurmJobs reference.key) with
            | .error e => return .error e
            | .ok jobs =>
              slurmSnapshots (result.filter (fun p => p.1 != reference.key) ++
                [(reference.key, ⟨cluster, nodes, jobs⟩)]) rest

def drainRecoveryWorkers (incident : String) (snapshots : Snapshots) :
    List RecoveryWorker → Operator (Except ApiError Unit)
  | [] => return .ok ()
  | worker :: rest =>
    match (snapshotOf snapshots worker.cluster).node worker.name with
    | none => drainRecoveryWorkers incident snapshots rest
    | some node =>
      if node.state.contains "DRAIN" then drainRecoveryWorkers incident snapshots rest
      else do
        match ← perform (.drainNode worker.cluster worker.name
          ("hardware incident " ++ incident)) with
        | .error e => return .error e
        | .ok () => drainRecoveryWorkers incident snapshots rest

def withJobs (state : RecoveryState) (before : List RecoveryJob) (job : RecoveryJob)
    (rest : List RecoveryJob) : RecoveryState := { state with jobs := before ++ job :: rest }

/-- An action on a job, whose request is on record, and the mark of its success. -/
def actOnJob (action : Operator (Except ApiError Unit)) (sent : RecoveryJob)
    (state : RecoveryState) (before rest : List RecoveryJob) :
    Operator (Except ApiError RecoveryJob) := do
  match ← action with
  | .error e => return .error e
  | .ok () =>
    match ← saveState (withJobs state before sent rest) with
    | .error e => return .error e
    | .ok _ => return .ok sent

def signalJob (state : RecoveryState) (before : List RecoveryJob) (job : RecoveryJob)
    (rest : List RecoveryJob) : Operator (Except ApiError RecoveryJob) :=
  actOnJob (perform (.signalJob job.cluster job.id "USR1")) { job with signalSent := true } state
    before rest

def signalJobs (state : RecoveryState) (snapshots : Snapshots) (before : List RecoveryJob) :
    List RecoveryJob → Operator (Except ApiError RecoveryState)
  | [] => return .ok { state with jobs := before }
  | job :: rest => do
    if jobEvacuated job state (snapshotOf snapshots job.cluster).jobs then
      let gone := { job with evacuated := true }
      match ← saveState (withJobs state before gone rest) with
      | .error e => return .error e
      | .ok _ => signalJobs state snapshots (before ++ [gone]) rest
    else if job.signalSent then signalJobs state snapshots (before ++ [job]) rest
    else
      match job.signalRequestedAt with
      | some _ =>
        match ← signalJob state before job rest with
        | .error e => return .error e
        | .ok sent => signalJobs state snapshots (before ++ [sent]) rest
      | none =>
        let now ← perform .now
        let asked := { job with signalRequestedAt := some (newTime now) }
        match ← saveState (withJobs state before asked rest) with
        | .error e => return .error e
        | .ok _ =>
          match ← signalJob state before asked rest with
          | .error e => return .error e
          | .ok sent => signalJobs state snapshots (before ++ [sent]) rest

/-- Ask for a commit made since the signal. An error counts as not seen. -/
def observeCheckpoint (state : RecoveryState) (snapshot : Snapshot) (before : List RecoveryJob)
    (job : RecoveryJob) (rest : List RecoveryJob) (since : Time) :
    Operator (Except ApiError RecoveryJob) :=
  if !job.checkpointSeen && snapshot.cluster.checkpointing then do
    match ← perform (.checkpointCommittedSince job.cluster job.id since) with
    | .ok true =>
      let seen := { job with checkpointSeen := true }
      match ← saveState (withJobs state before seen rest) with
      | .error e => return .error e
      | .ok _ => return .ok seen
    | .ok false => return .ok job
    | .error _ => return .ok job
  else return .ok job

def graceOver (job : RecoveryJob) (since : Time) : Operator Bool :=
  if job.checkpointSeen then return true
  else do
    let now ← perform .now
    return decide (since + checkpointGrace ≤ now)

def requeueJob (state : RecoveryState) (before : List RecoveryJob) (job : RecoveryJob)
    (rest : List RecoveryJob) : Operator (Except ApiError RecoveryJob) :=
  actOnJob (perform (.requeueJob job.cluster job.id)) { job with requeueSent := true } state
    before rest

def requestRequeue (state : RecoveryState) (before : List RecoveryJob) (job : RecoveryJob)
    (rest : List RecoveryJob) : Operator (Except ApiError RecoveryJob) :=
  match job.requeueRequestedAt with
  | some _ => requeueJob state before job rest
  | none => do
    let now ← perform .now
    let asked := { job with requeueRequestedAt := some (newTime now) }
    match ← saveState (withJobs state before asked rest) with
    | .error e => return .error e
    | .ok _ => requeueJob state before asked rest

def checkpointAndRequeue (state : RecoveryState) (snapshots : Snapshots) (allEvacuated : Bool)
    (before : List RecoveryJob) :
    List RecoveryJob → Operator (Except ApiError (Bool × RecoveryState))
  | [] => return .ok (allEvacuated, { state with jobs := before })
  | job :: rest => do
    if jobEvacuated job state (snapshotOf snapshots job.cluster).jobs then
      if job.evacuated then
        checkpointAndRequeue state snapshots allEvacuated (before ++ [job]) rest
      else
        let gone := { job with evacuated := true }
        match ← saveState (withJobs state before gone rest) with
        | .error e => return .error e
        | .ok _ => checkpointAndRequeue state snapshots allEvacuated (before ++ [gone]) rest
    else
      match job.signalRequestedAt with
      | none => return .ok (false, withJobs state before job rest)
      | some since =>
        if !job.signalSent then return .ok (false, withJobs state before job rest)
        else
          match ← observeCheckpoint state (snapshotOf snapshots job.cluster) before job rest
            since with
          | .error e => return .error e
          | .ok job =>
            let elapsed ← graceOver job since
            if !elapsed || job.requeueSent then
              checkpointAndRequeue state snapshots false (before ++ [job]) rest
            else
              match ← requestRequeue state before job rest with
              | .error e => return .error e
              | .ok sent => checkpointAndRequeue state snapshots false (before ++ [sent]) rest

def deleteSlurmNodes (snapshots : Snapshots) :
    List RecoveryWorker → Operator (Except ApiError Unit)
  | [] => return .ok ()
  | worker :: rest =>
    match (snapshotOf snapshots worker.cluster).node worker.name with
    | none => deleteSlurmNodes snapshots rest
    | some _ => do
      match ← perform (.deleteNode worker.cluster worker.name) with
      | .error e => return .error e
      | .ok () => deleteSlurmNodes snapshots rest

def removeFinalizer (pod : Pod) : Operator (Except ApiError Pod) :=
  if pod.finalizers.contains workerFinalizer then do
    let copy := { pod with finalizers := pod.finalizers.filter (fun f => f != workerFinalizer) }
    match ← perform (.updatePod copy) with
    | .ok updated => return .ok updated
    | .error .notFound => return .ok copy
    | .error e => return .error e
  else return .ok pod

def removePod (pod : Pod) : Operator (Except ApiError Unit) := do
  match ← removeFinalizer pod with
  | .error e => return .error e
  | .ok pod =>
    if pod.deleting then return .ok ()
    else
      match ← perform (.deletePod pod.ns pod.name) with
      | .ok () => return .ok ()
      | .error .notFound => return .ok ()
      | .error e => return .error e

def removeWorkers (complete : Bool) : List RecoveryWorker → Operator (Except ApiError Bool)
  | [] => return .ok complete
  | worker :: rest => do
    match ← perform (.getPod worker.ns worker.name) with
    | .ok pod =>
      match ← removePod pod with
      | .error e => return .error e
      | .ok () => removeWorkers false rest
    | .error .notFound =>
      if worker.claim = "" then removeWorkers complete rest
      else
        match ← perform (.deleteClaim worker.ns worker.claim) with
        | .ok () => removeWorkers false rest
        | .error .notFound => removeWorkers complete rest
        | .error e => return .error e
    | .error e => return .error e

def cleanupEvacuatedWorkers (state : RecoveryState) (snapshots : Snapshots) :
    Operator (Except ApiError Bool) :=
  if state.jobs.all (fun job => jobEvacuated job state (snapshotOf snapshots job.cluster).jobs) then do
    match ← deleteSlurmNodes snapshots state.workers with
    | .error e => return .error e
    | .ok () => removeWorkers true state.workers
  else return .ok false

def saveChanged (changed : Bool) (state : RecoveryState) : Operator (Except ApiError Unit) :=
  if changed then do
    match ← saveState state with
    | .error e => return .error e
    | .ok _ => return .ok ()
  else return .ok ()

def moveTo (node : Node) (state : RecoveryState) (phase : Phase) : Operator Outcome := do
  match ← setPhase node state phase with
  | .error e => return ({}, some e)
  | .ok () => return (requeue, none)

/-- The phase-specific part of `reconcileEvacuation`. -/
def evacuate (node : Node) (state : RecoveryState) (snapshots : Snapshots) : Operator Outcome :=
  match state.phase with
  | .isolated => moveTo node state .draining
  | .draining => do
    match ← signalJobs state snapshots [] state.jobs with
    | .error e => return (requeue, some e)
    | .ok state => moveTo node state (if state.jobs.isEmpty then .requeued else .checkpointing)
  | .checkpointing => do
    match ← checkpointAndRequeue state snapshots true [] state.jobs with
    | .error e => return (requeue, some e)
    | .ok (true, state) => moveTo node state .requeued
    | .ok (false, _) => return (requeue, none)
  | .requeued => do
    match ← cleanupEvacuatedWorkers state snapshots with
    | .error e => return (requeue, some e)
    | .ok true =>
      let now ← perform .now
      moveTo node { state with rebootRequestedAt := some (newTime now) } .rebootRequested
    | .ok false => return (requeue, none)
  | _ => return (requeue, none)

def reconcileEvacuation (node : Node) (state : RecoveryState) : Operator Outcome := do
  match ← discoverWorkers node state with
  | .error e => return (requeue, some e)
  | .ok (found, changed) =>
    match ← saveChanged changed found with
    | .error e => return ({}, some e)
    | .ok () =>
      match ← slurmSnapshots [] found.clusters with
      | .error _ => return (requeue, none)
      | .ok snapshots =>
        let added := addAffectedJobs found snapshots
        match ← saveChanged added.2 added.1 with
        | .error e => return ({}, some e)
        | .ok () =>
          match ← drainRecoveryWorkers added.1.incident snapshots added.1.workers with
          | .error e => return (requeue, some e)
          | .ok () =>
            if added.2 ∧ added.1.phase ≠ .isolated ∧ added.1.phase ≠ .draining then
              moveTo node added.1 .draining
            else evacuate node added.1 snapshots

end HeteroCluster.RecoveryEvacuation
