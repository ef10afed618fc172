import HeteroCluster.SlurmJob
import Mathlib.Data.String.Basic

namespace HeteroCluster.RecoveryIncident

open GoStrings SlurmJob

/-- Nanoseconds since the epoch. -/
abbrev Time := Int

def second : Int := 1000000000

/-- `metav1.NewTime`. The state is written with whole seconds, and no branch
reads a stamp before it has been written. -/
def newTime (now : Time) : Time := now / second * second

inductive Phase where
  | isolated | draining | checkpointing | requeued
  | rebootRequested | rebooting | verifying | manualRepair
  deriving DecidableEq, Repr

def Phase.name : Phase → String
  | .isolated => "Isolated"
  | .draining => "Draining"
  | .checkpointing => "Checkpointing"
  | .requeued => "Requeued"
  | .rebootRequested => "RebootRequested"
  | .rebooting => "Rebooting"
  | .verifying => "Verifying"
  | .manualRepair => "ManualRepair"

def Phase.evacuating : Phase → Prop
  | .isolated | .draining | .checkpointing | .requeued => True
  | _ => False

def Phase.rebootOrLater : Phase → Prop
  | .rebootRequested | .rebooting | .verifying => True
  | _ => False

structure RecoveryCluster where
  ns : String
  name : String
  uid : String
  deriving DecidableEq, Repr

structure RecoveryWorker where
  clusterNamespace : String
  clusterName : String
  ns : String
  name : String
  claim : String
  deriving DecidableEq, Repr

structure RecoveryJob where
  clusterNamespace : String
  clusterName : String
  id : UInt32
  signalRequestedAt : Option Time := none
  signalSent : Bool := false
  checkpointSeen : Bool := false
  requeueRequestedAt : Option Time := none
  requeueSent : Bool := false
  evacuated : Bool := false
  deriving DecidableEq, Repr

structure RecoveryState where
  version : Int
  incident : String
  nodeName : String
  nodeUID : String
  phase : Phase
  startedAt : Time
  phaseStartedAt : Time
  preBootID : String
  preInventory : String
  preInventoryHash : String
  clusters : List RecoveryCluster := []
  workers : List RecoveryWorker := []
  jobs : List RecoveryJob := []
  rebootRequestedAt : Option Time := none
  newBootID : String := ""
  readySince : Option Time := none
  verificationStarted : Option Time := none
  verificationPassed : Bool := false
  terminalReason : String := ""
  manualRequest : String := ""
  deriving DecidableEq, Repr

def clusterKey (ns name : String) : String := ns ++ "/" ++ name

def RecoveryCluster.key (c : RecoveryCluster) : String := clusterKey c.ns c.name
def RecoveryWorker.cluster (w : RecoveryWorker) : String := clusterKey w.clusterNamespace w.clusterName
def RecoveryWorker.key (w : RecoveryWorker) : String := clusterKey w.ns w.name
def RecoveryJob.cluster (j : RecoveryJob) : String := clusterKey j.clusterNamespace j.clusterName

def RecoveryJob.ident (j : RecoveryJob) : String × UInt32 := (j.cluster, j.id)

def workerNames (state : RecoveryState) (cluster : String) : List String :=
  (state.workers.filter (fun w => w.cluster == cluster)).map RecoveryWorker.name

theorem mem_workerNames (state : RecoveryState) (cluster name : String) :
    name ∈ workerNames state cluster ↔ ∃ w ∈ state.workers, w.cluster = cluster ∧ w.name = name := by
  simp [workerNames, and_assoc]

/-- The loop of `jobEvacuated`, with the flag it carries. -/
def evacuationScan (wanted : List String) (job : RecoveryJob) : Bool → List Job → Bool
  | active, [] => job.requeueSent || !active
  | active, current :: rest =>
    if current.rootID ≠ job.id then evacuationScan wanted job active rest
    else if current.pending || current.terminal then evacuationScan wanted job active rest
    else if current.usesAnyNode wanted then false
    else evacuationScan wanted job true rest

def jobEvacuated (job : RecoveryJob) (state : RecoveryState) (jobs : List Job) : Bool :=
  evacuationScan (workerNames state job.cluster) job false jobs

theorem evacuationScan_iff (wanted : List String) (job : RecoveryJob) (active : Bool)
    (jobs : List Job) :
    evacuationScan wanted job active jobs = true ↔
      (∀ c ∈ jobs, c.rootID = job.id → c.active → c.usesAnyNode wanted = false) ∧
      (job.requeueSent ∨ (active = false ∧ ∀ c ∈ jobs, c.rootID = job.id → c.active = false)) := by
  induction jobs generalizing active with
  | nil => simp [evacuationScan]
  | cons c rest ih =>
    unfold evacuationScan
    by_cases hr : c.rootID = job.id
    · cases ha : c.active with
      | false =>
        have hp : (c.pending || c.terminal) = true := by rwa [Job.active, Bool.not_eq_false'] at ha
        rw [if_neg (not_not.mpr hr), if_pos hp, ih]
        simp [hr, ha]
      | true =>
        have hp : ¬ (c.pending || c.terminal) = true := by
          rwa [Job.active, Bool.not_eq_true', ← Bool.not_eq_true] at ha
        rw [if_neg (not_not.mpr hr), if_neg hp]
        cases hu : c.usesAnyNode wanted with
        | true => simp [hr, ha, hu]
        | false =>
          rw [if_neg (by simp), ih]
          simp [hr, ha, hu]
    · rw [if_pos hr, ih]
      simp [hr]

/-- What `jobEvacuated` answers: no active component uses a recorded worker,
and either the requeue was sent or no component is active at all. -/
theorem jobEvacuated_iff (job : RecoveryJob) (state : RecoveryState) (jobs : List Job) :
    jobEvacuated job state jobs = true ↔
      (∀ c ∈ jobs, c.rootID = job.id → c.active →
        c.usesAnyNode (workerNames state job.cluster) = false) ∧
      (job.requeueSent ∨ ∀ c ∈ jobs, c.rootID = job.id → c.active = false) := by
  simp [jobEvacuated, evacuationScan_iff]

end HeteroCluster.RecoveryIncident
