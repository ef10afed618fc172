import HeteroCluster.GoStrings

namespace HeteroCluster.SlurmJob

open GoStrings

/-- A Slurm job as the REST client reports it. The state is a set of flags,
and the components of a heterogeneous job share the ID of their leader. -/
structure Job where
  id : UInt32
  hetJobID : UInt32
  state : List String
  reason : String
  nodes : List String
  deriving DecidableEq, Repr

def Job.rootID (j : Job) : UInt32 := if j.hetJobID ≠ 0 then j.hetJobID else j.id

def requeuedState (states : List String) (reason : String) : Bool :=
  if states.contains "PENDING" then false
  else states.contains "REQUEUED" || states.contains "REQUEUE_HOLD" ||
    states.contains "SPECIAL_EXIT" ||
    (states.contains "CANCELLED" && equalFold reason "job_requeued_in_held_state")

def Job.pending (j : Job) : Bool := j.state.contains "PENDING" || requeuedState j.state j.reason

def terminalStates : List String :=
  ["BOOT_FAIL", "CANCELLED", "COMPLETED", "DEADLINE", "FAILED", "NODE_FAIL", "OUT_OF_MEMORY",
    "PREEMPTED", "REVOKED", "TIMEOUT"]

def Job.terminal (j : Job) : Bool :=
  j.state.any (fun state => terminalStates.contains state) && !j.pending

def Job.usesAnyNode (j : Job) (names : List String) : Bool :=
  j.nodes.any (fun name => names.contains name)

/-- A component that is neither waiting in the queue nor finished. -/
def Job.active (j : Job) : Bool := !(j.pending || j.terminal)

theorem Job.usesAnyNode_iff (j : Job) (names : List String) :
    j.usesAnyNode names = true ↔ ∃ name ∈ j.nodes, name ∈ names := by
  simp [Job.usesAnyNode]

theorem Job.not_terminal_of_pending {j : Job} (h : j.pending = true) : j.terminal = false := by
  simp [Job.terminal, h]

structure Node where
  name : String
  state : List String
  deriving DecidableEq, Repr

end HeteroCluster.SlurmJob
