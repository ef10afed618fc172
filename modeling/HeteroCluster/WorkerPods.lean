import HeteroCluster.RecoveryVerifier
import HeteroCluster.WorkerDemand

namespace HeteroCluster.WorkerPods

open FailFast GoStrings OperatorCalls RecoveryIncident RecoveryIsolation RecoveryEvacuation
open RecoveryVerifier WorkerDemand

def workerPoolLabel := "orchestration.gputpu.io/worker-pool"
def workerIdleAnnotation := "orchestration.gputpu.io/idle-since"
def workerDrainAnnotation := "orchestration.gputpu.io/draining"

inductive PodPhase where
  | pending | running | succeeded | failed | unknown
  deriving DecidableEq

structure PodCondition where
  type : String
  status : ConditionStatus
  deriving DecidableEq

structure ShapeJSON where
  cpus : Int
  memoryBytes : Int
  sharedMemoryBytes : Int
  gres : Counts

def shapeJSON (shape : Shape) : ShapeJSON :=
  ⟨shape.cpus, shape.memoryBytes, shape.sharedMemoryBytes, shape.gres⟩

/-- A worker Pod, with the shape that is annotated on it, if it can be read,
and the parts of the status that the operator looks at. -/
structure WorkerPod extends Pod where
  uid : String
  shape : Option ShapeJSON
  phase : PodPhase
  conditions : List PodCondition

/-- A node of the Slurm node list, with what is in use on it. -/
structure SlurmNode extends SlurmJob.Node where
  reservation : String
  allocCPUs : Int
  allocMemory : Int
  gresUsed : String
  deriving DecidableEq

/-- A cluster and what the operator is configured with. The pools of a cluster
have different names. `quantity` reads a Kubernetes quantity, and `parseTime`
and `formatTime` convert a time from and to its RFC 3339 form. -/
structure Cluster where
  ns : String
  name : String
  uid : String
  pools : List WorkerPoolSpec
  pools_distinct : (pools.map WorkerPoolSpec.name).Nodup
  workerImage : String
  workerMemoryHeadroom : Int
  ownership : Ownership
  quantity : String → Option Int
  parseTime : String → Option Time
  formatTime : Time → String

def WorkerPod.pool (pod : WorkerPod) : String := get pod.labels workerPoolLabel

def WorkerPod.draining (pod : WorkerPod) : Bool :=
  get pod.annotations workerDrainAnnotation == "true"

/-- The Pod belongs to a recovery incident and is left to its controller. -/
def WorkerPod.recovering (pod : WorkerPod) : Bool :=
  get pod.annotations workerRecoveryAnnotation != ""

def podReady (pod : WorkerPod) : Bool :=
  pod.conditions.any (fun c => c.type == "Ready" && c.status == .conditionTrue)

def gresIdleItem (raw : String) : Bool :=
  match cutLast (fun c => c == ':' || c == '=') (cut (trimSpace raw) '(').1 with
  | some (_, value) => atoi value == some 0
  | none => false

def gresIdle (raw : String) : Bool :=
  if trimSpace raw ∈ ["", "(null)", "N/A"] then true
  else (split (trimSpace raw) ',').all gresIdleItem

def nodeIdle (node : SlurmNode) : Bool :=
  node.state.contains "IDLE" && node.reservation == "" && node.allocCPUs == 0 &&
    node.allocMemory == 0 && gresIdle node.gresUsed

def podShape (pod : WorkerPod) : Except ApiError Shape :=
  match pod.shape with
  | some json =>
    if h : 1 ≤ json.cpus ∧ 1 ≤ json.memoryBytes then
      .ok ⟨json.cpus, json.memoryBytes, json.sharedMemoryBytes, json.gres, h.1, h.2⟩
    else .error (.other "invalid worker shape annotation")
  | none => .error (.other "invalid worker shape annotation")

def validateWorkerPod (cluster : Cluster) (pod : WorkerPod) : Except ApiError Unit :=
  refuse (cluster.ownership.isControlledBy pod.owners cluster.uid = false)
    (.other ("worker Pod " ++ pod.ns ++ "/" ++ pod.name ++
      " is not controlled by HeterogeneousCluster " ++ cluster.name))

def managedWorkerNode (cluster : Cluster) (name : String) : Bool :=
  cluster.pools.any (fun pool => hasPrefix name (cluster.name ++ "-" ++ pool.name ++ "-"))

/-- `pools[name]`: the zero value stands for a pool that is not there. -/
def poolSpec (cluster : Cluster) (name : String) : WorkerPoolSpec :=
  (cluster.pools.find? (fun pool => pool.name == name)).getD ⟨"", "", "", ⟨0, 0, 0⟩, []⟩

def knownPool (cluster : Cluster) (name : String) : Bool :=
  cluster.pools.any (fun pool => pool.name == name)

section Claims

def allocationResultsMaxSize : Int := 32

def kindSelector (kind : String) : String :=
  "device.driver == " ++ quote driverName ++ " && device.attributes[" ++ quote driverName ++
    "].kind == " ++ quote kind

def kindAndValueSelector (kind attr wanted : String) : String :=
  kindSelector kind ++ " && device.attributes[" ++ quote driverName ++ "][" ++ quote attr ++
    "] == " ++ wanted

def deviceKind (kind : String) : String :=
  if kind = "gpu" then "gpu" else if kind = "tpu" then "opentpu" else ""

def gresRequest (profiles : List WorkerProfile) (gres : String) (n : Int) :
    Except ApiError DeviceRequest :=
  match profiles.reverse.find? (fun profile => profile.gres == gres) with
  | none => .error (.other ("GRES " ++ quote gres ++ " has no profile"))
  | some profile =>
    let (kind, model, _) := cut gres ':'
    .ok ⟨"accelerator-" ++ profile.name, profile.deviceClassName, n,
      kindAndValueSelector (deviceKind kind) (if kind = "tpu" then "profile" else "model")
        (quote model)⟩

/-- The requests of a worker's claim, or the reason why it cannot be made. -/
def resourceClaim (quantity : String → Option Int) (shape : Shape) (pool : WorkerPoolSpec)
    (headroom : Int) : Except ApiError (List DeviceRequest) :=
  match quantity pool.memoryUnit with
  | none => .error (.other ("invalid memory unit " ++ quote pool.memoryUnit))
  | some unit => do
    refuse (unit < 1) (.other ("invalid memory unit " ++ quote pool.memoryUnit))
    let memoryCount :=
      (wrapInt64 (wrapInt64 (wrapInt64 (shape.memoryBytes + headroom) + unit) - 1)).tdiv unit
    let names := shape.gres.keys.mergeSort (· ≤ ·)
    let accelerators ← names.mapM (fun gres => gresRequest pool.profiles gres (count shape.gres gres))
    let total := names.foldl (fun total gres => wrapInt64 (total + count shape.gres gres))
      (wrapInt64 (shape.cpus + memoryCount))
    refuse (total > allocationResultsMaxSize) (.other ("worker shape needs " ++ toString total ++
      " DRA devices; maximum is " ++ toString allocationResultsMaxSize ++ ", increase memoryUnit"))
    return [⟨"cpu", "cpu.orchestration.gputpu.io", shape.cpus, kindSelector "cpu"⟩,
      ⟨"memory", "memory.orchestration.gputpu.io", memoryCount,
        kindAndValueSelector "memory" "unitBytes" (toString unit)⟩] ++ accelerators

end Claims

end HeteroCluster.WorkerPods
