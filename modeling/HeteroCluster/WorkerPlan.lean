import HeteroCluster.WorkerPods

namespace HeteroCluster.WorkerPlan

open GoStrings OperatorCalls WorkerDemand WorkerPods

structure WorkerCandidate where
  pod : WorkerPod
  shape : Shape

def shapeFits (candidate wanted : Shape) : Bool :=
  if candidate.cpus < wanted.cpus ∨ candidate.memoryBytes < wanted.memoryBytes ∨
      candidate.gres.entries.length ≠ wanted.gres.entries.length then false
  else wanted.gres.entries.all (fun entry => count candidate.gres entry.1 == entry.2)

def lessWaste (a b : WorkerCandidate) (wanted : Shape) : Bool :=
  if a.shape.cpus - wanted.cpus ≠ b.shape.cpus - wanted.cpus then
    a.shape.cpus - wanted.cpus < b.shape.cpus - wanted.cpus
  else if a.shape.memoryBytes - wanted.memoryBytes ≠ b.shape.memoryBytes - wanted.memoryBytes then
    a.shape.memoryBytes - wanted.memoryBytes < b.shape.memoryBytes - wanted.memoryBytes
  else a.pod.name < b.pod.name

def eligible (used : List String) (demand : Demand) (candidate : WorkerCandidate) : Bool :=
  !(used.contains candidate.pod.name) && candidate.pod.pool == demand.poolName &&
    shapeFits candidate.shape demand.shape

def keepBest (used : List String) (demand : Demand) (best : Option WorkerCandidate)
    (candidate : WorkerCandidate) : Option WorkerCandidate :=
  if eligible used demand candidate = true ∧
      best.all (fun b => lessWaste candidate b demand.shape) = true then some candidate
  else best

/-- The loop over the candidates, with the best one so far. The names in `used`
are those of both maps of the source. -/
def bestCandidate (candidates : List WorkerCandidate) (used : List String) (demand : Demand) :
    Option WorkerCandidate :=
  candidates.foldl (keepBest used demand) none

/-- Where a unit of a demand goes: to a worker that exists, or to a new one. -/
structure Placement where
  demand : Demand
  worker : Option WorkerCandidate

/-- The names of `localUsed`. -/
def localUsed (placements : List Placement) : List String :=
  placements.filterMap (fun p => p.worker.map (fun w => w.pod.name))

def creates (placements : List Placement) : List Demand :=
  (placements.filter (fun p => p.worker.isNone)).map Placement.demand

/-- The units of a list of demands, each as often as its count says. -/
def units (demands : List Demand) : List Demand :=
  demands.flatMap (fun d => List.replicate d.count.toNat d)

/-- The first loop over a group: each unit gets the best worker that is left. -/
def place (candidates : List WorkerCandidate) (used : List String) (demands : List Demand) :
    List Placement :=
  (units demands).foldl (fun placements d =>
    placements ++ [⟨d, bestCandidate candidates (used ++ localUsed placements) d⟩]) []

def inPool (pool : String) (demand : Demand) : Bool := demand.poolName == pool

/-- The new workers can be claimed for, and stay within the limits of the pools. -/
def fits (cluster : Cluster) (counts : String → Nat) (new : List Demand) : Bool :=
  new.all (fun d => (resourceClaim cluster.quantity d.shape (poolSpec cluster d.poolName)
      cluster.workerMemoryHeadroom).toBool) &&
    new.all (fun d => decide (((counts d.poolName + new.countP (inPool d.poolName) : Nat) : Int) ≤
      (poolSpec cluster d.poolName).scaling.maxWorkers))

def groups (demands : List Demand) : List UInt32 := (demands.map Demand.groupID).eraseDups

def byGroup (demands : List Demand) (group : UInt32) : List Demand :=
  demands.filter (fun d => d.groupID == group)

end HeteroCluster.WorkerPlan
