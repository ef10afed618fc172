import HeteroCluster.AffectedJobs
import HeteroCluster.CallProgram

namespace HeteroCluster.OperatorCalls

open GoStrings RecoveryIncident AffectedJobs CallProgram

inductive ApiError where
  | notFound
  | alreadyExists
  | other (message : String)
  | wrapped (message : String) (cause : ApiError)
  deriving DecidableEq, Repr

/-- The error of a client that has to tell conflicts from other errors. -/
inductive ClientError where
  | conflict
  | other (message : String)
  | wrapped (message : String) (cause : ClientError)
  deriving DecidableEq, Repr

/-- `IsConflict` looks through the wrapping. -/
def isConflict : ClientError → Bool
  | .conflict => true
  | .other _ => false
  | .wrapped _ cause => isConflict cause

inductive ConditionStatus where
  | conditionTrue | conditionFalse | conditionUnknown
  deriving DecidableEq, Repr

structure NodeCondition where
  type : String
  status : ConditionStatus
  reason : String
  message : String
  lastHeartbeatTime : Time
  lastTransitionTime : Time
  deriving DecidableEq, Repr

structure Taint where
  key : String
  value : String
  effect : String
  timeAdded : Option Time
  deriving DecidableEq, Repr

structure Node where
  name : String
  uid : String
  labels : StringMap
  annotations : StringMap
  taints : List Taint
  conditions : List NodeCondition
  bootID : String
  deriving DecidableEq, Repr

structure OwnerReference where
  kind : String
  apiVersion : String
  name : String
  uid : String
  controller : Bool
  deriving DecidableEq, Repr

/-- `metav1.IsControlledBy`, for the references of an object and the UID of the
owner. -/
structure Ownership where
  isControlledBy : List OwnerReference → String → Bool
  controlled : ∀ owners uid, isControlledBy owners uid = true →
    ∃ reference ∈ owners, reference.controller = true ∧ reference.uid = uid

/-- The first controller reference decides. -/
def firstController : Ownership where
  isControlledBy owners uid := (owners.find? OwnerReference.controller).any (fun r => r.uid == uid)
  controlled owners uid h := by
    obtain ⟨reference, hfind, huid⟩ := (Option.any_eq_true _ _).mp h
    exact ⟨reference, List.mem_of_find?_eq_some hfind, List.find?_some hfind, eq_of_beq huid⟩

structure Pod where
  ns : String
  name : String
  labels : StringMap
  annotations : StringMap
  owners : List OwnerReference
  finalizers : List String
  deleting : Bool
  deriving DecidableEq, Repr

structure JobObject where
  labels : StringMap
  owners : List OwnerReference
  succeeded : Int
  failed : Int
  deriving DecidableEq, Repr

structure ClaimObject where
  labels : StringMap
  owners : List OwnerReference
  deriving DecidableEq, Repr

structure DeviceRequest where
  name : String
  deviceClass : String
  count : Int
  selector : String
  deriving DecidableEq, Repr

/-- A verifier claim or Job to be created, with the requests it makes. -/
structure VerifierObject where
  ns : String
  name : String
  labels : StringMap
  owners : List OwnerReference
  requests : List DeviceRequest
  cpus : Int
  memoryBytes : Int
  deriving DecidableEq, Repr

/-- A write of the state can fail in two ways: before it took effect, or only
in reporting that it did. -/
inductive SaveReply where
  | saved (uid : String)
  | failed (e : ApiError)
  | lost (e : ApiError)
  deriving DecidableEq, Repr

/-- Everything the recovery controller asks of its surroundings. `setHealthy`
asks nothing: it records that the function of this name was entered. -/
inductive Call where
  | getNode (name : String)
  | getState (name : String)
  | saveState (state : RecoveryState)
  | deleteState (name : String)
  | now
  | newRandom
  | patchNode (node : Node)
  | patchNodeStatus (name : String) (conditions : List NodeCondition)
  | listPods (nodeName : String)
  | getCluster (ns name : String)
  | patchPod (pod : Pod)
  | slurmClient (cluster : String)
  | slurmNodes (cluster : String)
  | slurmJobs (cluster : String)
  | drainNode (cluster name reason : String)
  | signalJob (cluster : String) (id : UInt32) (signal : String)
  | requeueJob (cluster : String) (id : UInt32)
  | deleteNode (cluster name : String)
  | checkpointCommittedSince (cluster : String) (id : UInt32) (since : Time)
  | getPod (ns name : String)
  | updatePod (pod : Pod)
  | deletePod (ns name : String)
  | deleteClaim (ns name : String)
  | getJob (ns name : String)
  | deleteJob (ns name : String)
  | getClaim (ns name : String)
  | createClaim (claim : VerifierObject)
  | createJob (job : VerifierObject)
  | setHealthy

abbrev Reply : Call → Type
  | .getNode _ | .patchNode _ => Except ApiError Node
  | .getState _ => Except ApiError (String × RecoveryState)
  | .saveState _ | .deleteState _ => SaveReply
  | .now => Time
  | .newRandom => Except ApiError String
  | .listPods _ => Except ApiError (List Pod)
  | .getCluster _ _ => Except ApiError Cluster
  | .slurmNodes _ => Except ApiError (List SlurmJob.Node)
  | .slurmJobs _ => Except ApiError (List SlurmJob.Job)
  | .checkpointCommittedSince _ _ _ => Except ApiError Bool
  | .getPod _ _ | .updatePod _ => Except ApiError Pod
  | .getJob _ _ => Except ApiError JobObject
  | .getClaim _ _ => Except ApiError ClaimObject
  | .setHealthy => Unit
  | _ => Except ApiError Unit

abbrev Operator := Program Reply
abbrev OperatorLog := Log Reply

abbrev perform (c : Call) : Operator (Reply c) := Program.perform c

end HeteroCluster.OperatorCalls
