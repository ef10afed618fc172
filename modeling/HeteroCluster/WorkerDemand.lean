import HeteroCluster.FailFast
import HeteroCluster.GoStrings
import Mathlib.Algebra.Order.Ring.Int
import Mathlib.Data.List.AList
import Mathlib.Order.MinMax

namespace HeteroCluster.WorkerDemand

open FailFast GoStrings

/-- What one OpenTPU device of a profile needs beside itself. -/
structure Footprint where
  cpus : Int
  memoryBytes : Int
  sharedMemory : Int
  deriving DecidableEq

abbrev Counts := AList (fun _ : String => Int)
abbrev Footprints := AList (fun _ : String => Footprint)

def count (m : Counts) (key : String) : Int := (m.lookup key).getD 0

/-- The shape of a worker. Both the planner and the reader of the annotation
on a Pod refuse a shape without CPUs or memory. -/
structure Shape where
  cpus : Int
  memoryBytes : Int
  sharedMemoryBytes : Int
  gres : Counts
  cpus_pos : 1 ≤ cpus
  memory_pos : 1 ≤ memoryBytes

structure Demand where
  jobID : UInt32
  groupID : UInt32
  poolName : String
  count : Int
  shape : Shape

structure WorkerProfile where
  name : String
  gres : String
  deviceClassName : String
  deriving DecidableEq

structure ScalingSpec where
  minReady : Int
  maxWorkers : Int
  idleTimeout : Int
  deriving DecidableEq

structure WorkerPoolSpec where
  name : String
  partition : String
  memoryUnit : String
  scaling : ScalingSpec
  profiles : List WorkerProfile
  deriving DecidableEq

structure PendingJob where
  id : UInt32
  partition : String
  reason : String
  requeued : Bool
  priority : Int
  eligibleTime : Int
  hetJobID : UInt32
  cpus : Int
  nodeCount : Int
  tasks : Int
  cpusPerTask : Int
  tasksPerNode : Int
  memoryPerCPU : Int
  memoryPerNode : Int
  cpusPerTRES : String
  memoryPerTRES : String
  tresPerJob : String
  tresPerNode : String
  tresPerSocket : String
  tresPerTask : String
  tresRequested : String
  requiredNodes : String
  features : String
  deriving DecidableEq

section TRES

-- The machine integers are integers that pass through `int64` after every
-- operation; `quantity` is `resource.ParseQuantity` followed by `Value`.
variable (int64 : Int → Int) (quantity : String → Option Int)

def memoryQuantity (raw : String) : Option Int :=
  if (atoi raw).isSome then quantity (raw ++ "Mi")
  else
    match raw.toList.reverse with
    | last :: c :: rest =>
      if last.toUpper ∈ ['K', 'M', 'G', 'T'] then
        quantity (String.ofList (c :: rest).reverse ++ String.singleton last.toUpper ++ "i")
      else none
    | _ => none

def parseTRESValue (key raw : String) : Option Int :=
  if key ≠ "mem" then atoi raw else memoryQuantity quantity raw

def tresField (item : String) : Except String (String × String) :=
  match cut item '=' with
  | (key, value, true) => .ok (key, value)
  | _ =>
    match cutLast (fun c => c == ':') item with
    | some (key, value) =>
      if hasPrefix item "gres/" ∧ 5 < key.toList.length then .ok (key, value)
      else .error ("invalid TRES " ++ quote item)
    | none => .error ("invalid TRES " ++ quote item)

def tresKey (raw : String) : String :=
  match cutPrefix (trimSpace raw) "gres:" with
  | some name => "gres/" ++ name
  | none => trimSpace raw

def tresItem (result : Counts) (raw : String) : Except String Counts :=
  if trimSpace raw = "" then .ok result
  else do
    let field ← tresField (trimSpace raw)
    let key := tresKey field.1
    if key ≠ "cpu" ∧ key ≠ "mem" ∧ hasPrefix key "gres/" = false then return result
    else
      match parseTRESValue quantity key (trimSpace field.2) with
      | none => .error ("invalid " ++ key ++ " value " ++ quote field.2)
      | some value => return result.insert key (int64 (count result key + value))

def parseTRES (raw : String) : Except String Counts :=
  (split raw ',').foldlM (tresItem int64 quantity) ∅

end TRES

section Shapes

variable (int64 : Int → Int) (quantity : String → Option Int)

def divRoundUp (value divisor : Int) : Int :=
  if value ≤ 0 then 0 else (int64 (int64 (value + divisor) - 1)).tdiv divisor

structure Needs where
  cpus : Int
  memory : Int
  gres : Counts
  cpus_pos : 1 ≤ cpus

def Needs.atLeastCPUs (n : Needs) (cpus : Int) : Needs :=
  { n with cpus := max n.cpus cpus, cpus_pos := le_max_of_le_left n.cpus_pos }

def Needs.atLeastMemory (n : Needs) (memory : Int) : Needs :=
  { n with memory := max n.memory memory }

def nodeCount (job : PendingJob) : Int := max job.nodeCount 1

def startCPUs (job : PendingJob) : Int :=
  max (max (divRoundUp int64 job.cpus (nodeCount job)) job.cpusPerTask) 1

def taskCPUs (job : PendingJob) : Int :=
  if 0 < job.tasksPerNode ∧ 0 < job.cpusPerTask then
    max (startCPUs int64 job) (int64 (job.tasksPerNode * job.cpusPerTask))
  else startCPUs int64 job

theorem taskCPUs_pos (job : PendingJob) : 1 ≤ taskCPUs int64 job := by
  have hstart : 1 ≤ startCPUs int64 job := le_max_right _ _
  unfold taskCPUs
  split
  · exact le_max_of_le_left hstart
  · exact hstart

def requestMemory (job : PendingJob) : Int :=
  let memory := int64 (job.memoryPerNode * 2 ^ 20)
  if memory = 0 ∧ 0 < job.memoryPerCPU then
    int64 (int64 (job.memoryPerCPU * taskCPUs int64 job) * 2 ^ 20)
  else memory

def startNeeds (job : PendingJob) : Needs where
  cpus := taskCPUs int64 job
  memory := requestMemory int64 job
  gres := ∅
  cpus_pos := taskCPUs_pos int64 job

/-- The list of resources that counts, and its multiplier. A negative one
spreads the list over the nodes of the job. -/
def tresSource (job : PendingJob) : String × Int :=
  if job.tresPerNode ≠ "" then (job.tresPerNode, 1)
  else if job.tresPerTask ≠ "" then
    (job.tresPerTask, max (max job.tasksPerNode (divRoundUp int64 job.tasks (nodeCount job))) 1)
  else if job.tresPerSocket ≠ "" then (job.tresPerSocket, 1)
  else if job.tresPerJob ≠ "" then (job.tresPerJob, -nodeCount job)
  else (job.tresRequested, -nodeCount job)

def scale (multiplier value : Int) : Int :=
  if 0 < multiplier then int64 (value * multiplier) else divRoundUp int64 value (-multiplier)

def addTRES (multiplier : Int) (n : Needs) (entry : Sigma fun _ : String => Int) : Needs :=
  let value := scale int64 multiplier entry.2
  if entry.1 = "cpu" then n.atLeastCPUs value
  else if entry.1 = "mem" then n.atLeastMemory value
  else
    match cutPrefix entry.1 "gres/" with
    | some name => { n with gres := n.gres.insert name (int64 (count n.gres name + value)) }
    | none => n

/-- One accelerator of the shape: it must have a profile, and its footprint is
added. The second component is the shared memory so far. -/
def addGRES (pool : WorkerPoolSpec) (footprints : Footprints) (state : Needs × Int)
    (entry : Sigma fun _ : String => Int) : Except String (Needs × Int) := do
  refuse (entry.2 < 1) ("GRES " ++ quote entry.1 ++ " has a non-positive count")
  refuse (¬ pool.profiles.any (fun profile => profile.gres == entry.1))
    ("GRES " ++ quote entry.1 ++ " has no exact profile mapping")
  match footprints.lookup entry.1 with
  | none => return state
  | some footprint =>
    return ((state.1.atLeastCPUs (int64 (footprint.cpus * entry.2))).atLeastMemory
        (int64 (int64 (footprint.memoryBytes + footprint.sharedMemory) * entry.2)),
      int64 (state.2 + int64 (footprint.sharedMemory * entry.2)))

def cpusPerTRES (constraints : Counts) (n : Needs) : Needs :=
  n.gres.entries.foldl (fun m entry =>
    m.atLeastCPUs (int64 (count constraints ("gres/" ++ entry.1) * entry.2))) n

def memoryPerTRES (constraints : Counts) (n : Needs) : Needs :=
  n.gres.entries.foldl (fun m entry =>
    m.atLeastMemory (int64 (count constraints ("gres/" ++ entry.1) * entry.2))) n

/-- The last step of `shapeFor`: the memory is at least one unit of the pool. -/
def finishShape (pool : WorkerPoolSpec) (n : Needs) (shared : Int) : Except String Shape :=
  match quantity pool.memoryUnit with
  | some unit =>
    if h : 1 ≤ unit then
      .ok { cpus := n.cpus, memoryBytes := max n.memory unit, sharedMemoryBytes := shared
            gres := n.gres, cpus_pos := n.cpus_pos, memory_pos := le_max_of_le_right h }
    else .error ("invalid pool memory unit " ++ quote pool.memoryUnit)
  | none => .error ("invalid pool memory unit " ++ quote pool.memoryUnit)

def shapeFor (job : PendingJob) (pool : WorkerPoolSpec) (footprints : Footprints) :
    Except String Shape := do
  let values ← parseTRES int64 quantity (tresSource int64 job).1
  let needs := values.entries.foldl (addTRES int64 (tresSource int64 job).2) (startNeeds int64 job)
  let (needs, shared) ← needs.gres.entries.foldlM (addGRES int64 pool footprints) (needs, 0)
  let cpuConstraints ← (parseTRES int64 quantity job.cpusPerTRES).mapError ("CPUsPerTRES: " ++ ·)
  let needs := cpusPerTRES int64 cpuConstraints needs
  let memoryConstraints ←
    (parseTRES int64 quantity job.memoryPerTRES).mapError ("MemoryPerTRES: " ++ ·)
  let needs := memoryPerTRES int64 memoryConstraints needs
  finishShape quantity pool needs shared

end Shapes

section Demands

variable (int64 : Int → Int) (quantity : String → Option Int)

def normalize (value : String) : String :=
  String.intercalate "_" (fieldsFunc isPunctuation (toLower value))

/-- What becomes of a pending job: it does not wait for resources, it is
refused, or it is a demand. -/
inductive Verdict where
  | skipped
  | rejected (message : String)
  | demanded (demand : Demand)

def groupID (job : PendingJob) : UInt32 := if job.hetJobID = 0 then job.id else job.hetJobID

def poolFor (pools : List WorkerPoolSpec) (job : PendingJob) : Option WorkerPoolSpec :=
  pools.reverse.find? (fun pool => pool.partition == job.partition)

def verdict (pools : List WorkerPoolSpec) (footprints : Footprints) (job : PendingJob) : Verdict :=
  if job.requeued = false ∧ job.reason ∉ ["Resources", "ReqNodeNotAvail", "PartitionConfig"] then
    .skipped
  else if job.requiredNodes ≠ "" then
    .rejected ("job " ++ toString job.id ++ ": explicit required nodes are unsupported")
  else
    match poolFor pools job with
    | none => .rejected ("job " ++ toString job.id ++ ": partition " ++ quote job.partition ++
        " has no worker pool")
    | some pool =>
      if job.features ≠ "" ∧ job.features ≠ "pool_" ++ normalize pool.name then
        .rejected ("job " ++ toString job.id ++ ": unsupported feature constraint " ++
          quote job.features)
      else
        match shapeFor int64 quantity job pool footprints with
        | .error e => .rejected ("job " ++ toString job.id ++ ": " ++ e)
        | .ok shape => .demanded ⟨job.id, groupID job, pool.name, max job.nodeCount 1, shape⟩

def Verdict.demand? : Verdict → Option Demand
  | .demanded d => some d
  | _ => none

def Verdict.rejection? : Verdict → Option String
  | .rejected message => some message
  | _ => none

/-- The order of the jobs: by priority, then the time they became eligible,
then their ID. -/
def before (a b : PendingJob) : Bool :=
  if a.priority ≠ b.priority then b.priority < a.priority
  else if a.eligibleTime ≠ b.eligibleTime then a.eligibleTime < b.eligibleTime
  else a.id ≤ b.id

def demands (jobs : List PendingJob) (pools : List WorkerPoolSpec) (footprints : Footprints) :
    List Demand × List String :=
  let verdicts := (jobs.mergeSort before).map (verdict int64 quantity pools footprints)
  (verdicts.filterMap Verdict.demand?, verdicts.filterMap Verdict.rejection?)

end Demands

end HeteroCluster.WorkerDemand
