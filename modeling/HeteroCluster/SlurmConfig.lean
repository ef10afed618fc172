import HeteroCluster.WorkerPods

namespace HeteroCluster.SlurmConfig

open GoStrings WorkerDemand WorkerPods

def slurmctldPort : Nat := 6817
def slurmdPort : Nat := 6818
def slurmdbdPort : Nat := 6819

structure SlurmFiles where
  slurmConf : String
  gresConf : String
  cgroupConf : String

/-- The keys of a map, in the order of `slices.Sorted`. -/
def sortedKeys (keys : List String) : List String := keys.dedup.mergeSort (· ≤ ·)

def line (key value : String) : String := key ++ "=" ++ value ++ "\n"

def kindOf (profile : WorkerProfile) : String := (cut profile.gres ':').1

def profilesOf (pools : List WorkerPoolSpec) : List WorkerProfile :=
  pools.flatMap WorkerPoolSpec.profiles

/-- An `int32` sum. A pool with profiles has a catalog node beside its workers. -/
def maxNodes (pools : List WorkerPoolSpec) : Int :=
  pools.foldl (fun n pool =>
    let n := (n + pool.scaling.maxWorkers).bmod (2 ^ 32)
    if pool.profiles ≠ [] then (n + 1).bmod (2 ^ 32) else n) 0

/-- The name of a pool's set of nodes, which is also their feature. -/
def nodeSet (pool : WorkerPoolSpec) : String := "pool_" ++ replaceAll pool.name "-" "_"

def controllerLine (name space : String) (ordinal : Nat) : String :=
  let host := name ++ "-slurmctld-" ++ toString ordinal
  line "SlurmctldHost" (host ++ "(" ++ host ++ "." ++ name ++ "-slurmctld." ++ space ++ ".svc)")

def commonLines (name space : String) : List String :=
  [line "ClusterName" name, controllerLine name space 0, controllerLine name space 1,
    line "SlurmctldPort" (toString slurmctldPort), line "SlurmctldTimeout" "30",
    line "SlurmdPort" (toString slurmdPort), line "SlurmUser" "slurm",
    line "StateSaveLocation" "/var/lib/slurmctld", line "SlurmdSpoolDir" "/var/lib/slurmd",
    line "AuthType" "auth/munge", line "AuthInfo" "/run/munge/munge.socket.2",
    line "AuthAltTypes" "auth/jwt",
    line "AuthAltParameters" "jwt_key=/run/secrets/slurm/jwt_hs256.key,disable_token_creation",
    line "CredType" "cred/munge", line "SelectType" "select/cons_tres",
    line "SelectTypeParameters" "CR_Core_Memory", line "TaskPlugin" "task/cgroup,task/affinity",
    line "TaskProlog" "/etc/slurm/task-prolog", line "ProctrackType" "proctrack/cgroup",
    line "SchedulerType" "sched/backfill",
    line "SchedulerParameters" "bf_hetjob_immediate,bf_hetjob_prio=min",
    line "SlurmctldParameters" "enable_configless,reconfig_on_restart",
    line "AccountingStorageType" "accounting_storage/slurmdbd",
    line "AccountingStorageHost" (name ++ "-slurmdbd." ++ space ++ ".svc"),
    line "AccountingStoragePort" (toString slurmdbdPort),
    line "JobAcctGatherType" "jobacct_gather/none", line "ReturnToService" "2",
    line "TreeWidth" "65533"]

def gresLines (pools : List WorkerPoolSpec) : List String :=
  let profiles := profilesOf pools
  let types := sortedKeys (profiles.map kindOf)
  let tres := profiles.flatMap (fun profile => ["gres/" ++ kindOf profile, "gres/" ++ profile.gres])
  if types = [] then []
  else [line "GresTypes" (String.intercalate "," types),
    line "AccountingStorageTRES" (String.intercalate "," (sortedKeys tres))]

/-- A node that never starts, by which Slurm knows what the pool could have. -/
def catalogLine (pool : WorkerPoolSpec) : String :=
  let most := toString allocationResultsMaxSize
  let profiles := (pool.profiles.map (fun profile => profile.gres ++ ":" ++ most)).mergeSort (· ≤ ·)
  line "NodeName" ("catalog_" ++ nodeSet pool ++ " CPUs=" ++ most ++
    " Boards=1 SocketsPerBoard=1 CoresPerSocket=" ++ most ++ " ThreadsPerCore=1 RealMemory=" ++
    toString ((2 ^ 63 - 1) / 2 ^ 20) ++ " Gres=" ++ String.intercalate "," profiles ++
    " Feature=" ++ nodeSet pool ++ " State=FUTURE")

/-- `MustParse` leaves no configuration when the memory unit is not a quantity. -/
def poolLines (quantity : String → Option Int) (first : Bool) (pool : WorkerPoolSpec) :
    Option (List String) := do
  let memoryUnit ← quantity pool.memoryUnit
  let value := "Nodes=" ++ nodeSet pool ++ " State=UP DefMemPerNode=" ++
    toString (memoryUnit / 2 ^ 20) ++ if first then " Default=YES" else ""
  return (if pool.profiles ≠ [] then [catalogLine pool] else []) ++
    [line "NodeSet" (nodeSet pool ++ " Feature=" ++ nodeSet pool),
      line "PartitionName" (pool.partition ++ " " ++ value)]

/-- The partitions of a cluster are different, so that the order of the pools
is the only one. -/
def sortedPools (pools : List WorkerPoolSpec) : List WorkerPoolSpec :=
  pools.mergeSort (fun a b => a.partition ≤ b.partition)

def allPoolLines (quantity : String → Option Int) : List WorkerPoolSpec → Option (List String)
  | [] => some []
  | pool :: pools => do
    let first ← poolLines quantity true pool
    let others ← pools.mapM (poolLines quantity false)
    return first ++ others.flatten

def gresConf (pools : List WorkerPoolSpec) : String :=
  String.join ((sortedKeys ((profilesOf pools).map WorkerProfile.gres)).map (fun profile =>
    "Name=" ++ (cut profile ':').1 ++ " Type=" ++ (cut profile ':').2.1 ++
      " Count=0 Flags=CountOnly\n"))

def slurmConf (quantity : String → Option Int) (name space : String)
    (pools : List WorkerPoolSpec) : Option String := do
  let lines ← allPoolLines quantity pools
  return String.join (commonLines name space ++
    [line "MaxNodeCount" (toString (maxNodes pools))] ++ gresLines pools ++ lines)

def slurm (quantity : String → Option Int) (name space : String) (pools : List WorkerPoolSpec) :
    Option SlurmFiles := do
  let sorted := sortedPools pools
  let conf ← slurmConf quantity name space sorted
  return {
    slurmConf := conf
    gresConf := gresConf sorted
    cgroupConf := "CgroupPlugin=autodetect\nIgnoreSystemd=yes\nConstrainCores=yes\n" ++
      "ConstrainRAMSpace=yes\nConstrainDevices=yes\n" }

end HeteroCluster.SlurmConfig
