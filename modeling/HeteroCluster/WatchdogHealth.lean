import HeteroCluster.ComputeInventory
import HeteroCluster.FilePaths

namespace HeteroCluster.WatchdogHealth

open GoStrings FailFast KeyedRecords
open ComputeInventory (CPUDir NodeDir Sysfs Query CoreKey cellsText)
open HardwareInventory

def readInt (content : Option String) : Option Int := content.bind (fun text => atoi (trimSpace text))

/-- A CPU whose `online` file cannot be read is not skipped. -/
def offline (dir : CPUDir) : Bool :=
  match dir.online with
  | some text => trimSpace text == "0"
  | none => false

def coreNUMA (dir : CPUDir) : Int := if dir.nodes.length = 1 then dir.nodes.headD 0 else 0

def addCore (cores : List CoreKey) (dir : CPUDir) : Except String (List CoreKey) :=
  if offline dir then .ok cores
  else
    match readInt dir.packageID with
    | none => .error "read CPU socket"
    | some socket =>
      match readInt dir.coreID with
      | none => .error "read CPU core"
      | some core => .ok (cores.insert ⟨coreNUMA dir, socket, core⟩)

def physicalCores (sys : Sysfs) : Except String (Int → Nat) := do
  refuse (sys.cpus = []) "CPU topology is unavailable"
  let cores ← sys.cpus.foldlM addCore []
  return fun numa => cores.countP (fun key => key.numa = numa)

def numaMemoryBytes (sys : Sysfs) (numa : Int) : Except String Int :=
  match sys.nodes.find? (fun dir => (dir.node : Int) = numa) with
  | none => .error "read NUMA memory"
  | some dir =>
    match dir.meminfo with
    | none => .error "read NUMA memory"
    | some text =>
      match ((split text '\n').map (fieldsFunc isSpace)).find?
          (fun fields => 4 ≤ fields.length ∧ fields.getD 2 "" = "MemTotal:") with
      | none => .error "NUMA MemTotal is missing"
      | some fields =>
        match atoi (fields.getD 3 "") with
        | none => .error ("parsing " ++ quote (fields.getD 3 ""))
        | some value => .ok (wrapInt64 (value <<< (10 : Nat)))

/-- A fault is hard if it makes the node unhealthy at once. -/
inductive Fault where
  | soft (message : String)
  | hard (message : String)

/-- What `checkOnce` compares for one cell. -/
def checkCapacity (sys : Sysfs) (cores : Int → Nat) (cell : Cell) : Except Fault Unit :=
  if (cores cell.numa : Int) < cell.cpus then
    .error (.hard ("NUMA node " ++ toString cell.numa ++ " lost CPU cores"))
  else
    match numaMemoryBytes sys cell.numa with
    | .error e => .error (.soft e)
    | .ok memory =>
      if memory < wrapInt64 (cell.memoryUnits * cell.memoryUnitBytes) then
        .error (.hard ("NUMA node " ++ toString cell.numa ++ " lost memory capacity"))
      else .ok ()

/-- The loop of `checkOnce` over the cells. -/
def checkCells (sys : Sysfs) (cells : List Cell) : Except Fault Unit :=
  match physicalCores sys with
  | .error e => .error (.soft e)
  | .ok cores => cells.forM (checkCapacity sys cores)

def reportedGPU (row : List String) : Except String GPU :=
  match row with
  | [uuid, name, bus] => .ok ⟨trimSpace uuid, normalizeGPU name, toLower (trimSpace bus)⟩
  | _ => .error "NVIDIA health query returned an invalid row"

def expectedGPUs (inventory : Inventory) : Records String GPU :=
  storeAll GPU.uuid (inventory.cells.flatMap Cell.gpus) ∅

/-- `query` is how `nvidia-smi` answers the health query. -/
def checkNVIDIA (inventory : Inventory) (query : Query) : Except String Unit :=
  if (expectedGPUs inventory).entries = [] then .ok ()
  else
    match query with
    | .missing => .error "NVIDIA health query failed"
    | .failed e => .error ("NVIDIA health query failed: " ++ e)
    | .output (.error e) => .error ("parse NVIDIA health query: " ++ e)
    | .output (.ok table) => do
      let gpus ← table.rows.mapM reportedGPU
      refuse (mapsEqual (expectedGPUs inventory) (storeAll GPU.uuid gpus ∅) = false)
        "NVIDIA inventory identity changed"

section Checker

inductive Status where
  | healthy
  | unhealthy
  | unknown

structure HealthResult where
  status : Status
  reason : String
  checkedAt : String
  bootID : String
  inventory : String
  inventoryHash : String

/-- The Node of the host, with what the driver has published on it. -/
structure Node where
  bootID : String
  inventory : String
  inventoryHash : String
  inventoryBootID : String

/-- What a check finds. The check of a node's memory fails with a text, and tells
whether the host does not support it. -/
structure Findings where
  now : String
  node : Except String Node
  counters : List (Except String Int)
  sysfs : Sysfs
  memory : Int → Option (Bool × String)
  gpus : Query

inductive Kind where
  | passed
  | unsupported
  | soft
  | hard
  deriving DecidableEq

abbrev Failure := Kind × String

def Fault.failure : Fault → Failure
  | .soft message => (.soft, message)
  | .hard message => (.hard, message)

def criticalKernelEvent (line : String) : String :=
  let patterns := [("nvrm: xid", "NVIDIA Xid event detected"),
    ("machine check", "CPU machine-check event detected"), ("mce:", "CPU MCE event detected"),
    ("uncorrectable", "uncorrectable hardware event detected")]
  ((patterns.find? (fun p => FilePaths.contains (toLower line) p.1)).map Prod.snd).getD ""

def uncorrectableEDAC (counters : List (Except String Int)) : Except String Int :=
  counters.foldlM (fun total counter =>
    match counter with
    | .error e => .error ("read EDAC counter: " ++ e)
    | .ok value => .ok (wrapInt64 (total + value))) 0

def checkCell (found : Findings) (cores : Int → Nat) (cell : Cell) : Except Failure Unit := do
  (checkCapacity found.sysfs cores cell).mapError Fault.failure
  match found.memory cell.numa with
  | none => return ()
  | some (unsupported, e) => .error (if unsupported then .unsupported else .soft,
      "NUMA node " ++ toString cell.numa ++ " memory check: " ++ e)

variable (sha256 : String → String) (unmarshal : String → Option Inventory)

def checkHost (event : String) (found : Findings) (node : Node) : Except Failure Unit := do
  refuse (event ≠ "") (.hard, event)
  let failures ← (uncorrectableEDAC found.counters).mapError (Kind.soft, ·)
  refuse (failures ≠ 0) (.hard, "EDAC reports " ++ toString failures ++ " uncorrectable errors")
  refuse (node.bootID = "" ∨ node.inventoryBootID ≠ node.bootID ∨ node.inventory = "" ∨
    node.inventoryHash = "") (.soft, "DRA boot inventory is unavailable")
  match unmarshal node.inventory with
  | none => .error (.soft, "DRA boot inventory is invalid")
  | some inventory =>
    refuse (inventory.version ≠ 1 ∨ inventory.bootID ≠ node.bootID ∨ inventory.cells = [])
      (.soft, "DRA boot inventory is invalid")
    refuse (sha256 (cellsText inventory.cells) ≠ node.inventoryHash)
      (.soft, "DRA boot inventory hash is invalid")
    let cores ← (physicalCores found.sysfs).mapError (Kind.soft, ·)
    inventory.cells.forM (checkCell found cores)
    (checkNVIDIA inventory found.gpus).mapError (Kind.hard, ·)

/-- The result of a check, how it ended, and why. -/
def checkOnce (event : String) (found : Findings) : HealthResult × Kind × String :=
  match found.node with
  | .error e => (⟨.unknown, "", found.now, "", "", ""⟩, .soft, "read own Node: " ++ e)
  | .ok node =>
    (⟨.unknown, "", found.now, node.bootID, node.inventory, node.inventoryHash⟩,
      match checkHost sha256 unmarshal event found node with
      | .ok () => (.passed, "all hardware checks passed")
      | .error failure => failure)

/-- The watchdog: what the kernel log has shown, and its checks. -/
structure Checker where
  event : String
  failures : Nat
  current : HealthResult

def check (s : Checker) (found : Findings) : Checker :=
  let (result, kind, reason) := checkOnce sha256 unmarshal s.event found
  let failures := match kind with
    | .passed => 0
    | .unsupported => s.failures
    | .hard => 3
    | .soft => s.failures + 1
  let status := match kind with
    | .passed => Status.healthy
    | .unsupported => .unknown
    | .hard => .unhealthy
    | .soft => if 3 ≤ failures then .unhealthy else .unknown
  ⟨s.event, failures, { result with status, reason }⟩

/-- A line of the kernel log is read, or a check is made, which looks at the event
once. -/
inductive Step where
  | line (text : String)
  | check (found : Findings)

/-- The watchdog after a step, with how its checks ended, the last one first. -/
def step (s : Checker × List Kind) : Step → Checker × List Kind
  | .line text => (if criticalKernelEvent text = "" then s.1
      else { s.1 with event := criticalKernelEvent text }, s.2)
  | .check found => (check sha256 unmarshal s.1 found,
      (checkOnce sha256 unmarshal s.1.event found).2.1 :: s.2)

def run (steps : List Step) : Checker × List Kind :=
  steps.foldl (step sha256 unmarshal)
    (⟨"", 0, ⟨.unknown, "health has not run", "", "", "", ""⟩⟩, [])

def sincePass (ends : List Kind) : List Kind := ends.takeWhile (· != .passed)

/-- Since the last check that passed one has failed hard, or three softly. -/
def Condemned (ends : List Kind) : Prop :=
  .hard ∈ sincePass ends ∨ 3 ≤ (sincePass ends).count .soft

instance (ends : List Kind) : Decidable (Condemned ends) := inferInstanceAs (Decidable (_ ∨ _))

def verdict : List Kind → Status
  | [] => .unknown
  | .passed :: _ => .healthy
  | .unsupported :: _ => .unknown
  | .hard :: _ => .unhealthy
  | .soft :: ends => if Condemned (.soft :: ends) then .unhealthy else .unknown

/-- The counter is that of the soft failures, until a hard one fills it. -/
def Tally (s : Checker × List Kind) : Prop :=
  .hard ∈ sincePass s.2 ∧ 3 ≤ s.1.failures ∨
    .hard ∉ sincePass s.2 ∧ s.1.failures = (sincePass s.2).count .soft

variable {sha256} {unmarshal} {s : Checker × List Kind}

theorem Tally.condemned_iff (h : Tally s) : Condemned s.2 ↔ 3 ≤ s.1.failures := by
  unfold Condemned
  obtain ⟨hh, hf⟩ | ⟨hh, hf⟩ := h <;> simp [hh, hf]

theorem Tally.check (h : Tally s) (found : Findings) :
    Tally (step sha256 unmarshal s (.check found)) := by
  unfold Tally step WatchdogHealth.check sincePass at *
  cases hk : (checkOnce sha256 unmarshal s.1.event found).2.1 with
  | passed => simp [hk]
  | unsupported => simpa [hk] using h
  | hard => simp [hk]
  | soft =>
    have hsoft := h.imp_left fun hh => (⟨hh.1, by omega⟩ : _ ∧ 2 ≤ s.1.failures)
    simpa [hk] using hsoft

def Reports (s : Checker × List Kind) : Prop := Tally s ∧ s.1.current.status = verdict s.2

theorem Reports.step (h : Reports s) (a : Step) : Reports (step sha256 unmarshal s a) := by
  cases a with
  | line text =>
    dsimp only [WatchdogHealth.step]
    split <;> exact h
  | check found =>
    have ht : Tally (WatchdogHealth.step sha256 unmarshal s (.check found)) := h.1.check found
    refine ⟨ht, ?_⟩
    have hiff := ht.condemned_iff
    unfold WatchdogHealth.step check at *
    cases hk : (checkOnce sha256 unmarshal s.1.event found).2.1 <;> simp [hk, verdict]
    simp [hk] at hiff
    simp [hiff]

theorem run_snoc (steps : List Step) (a : Step) : run sha256 unmarshal (steps ++ [a]) =
    step sha256 unmarshal (run sha256 unmarshal steps) a := by
  simp [run]

theorem reports_run (steps : List Step) : Reports (run sha256 unmarshal steps) := by
  induction steps using List.reverseRecOn with
  | nil => exact ⟨.inr ⟨List.not_mem_nil, rfl⟩, rfl⟩
  | append_singleton steps a ih =>
    rw [run_snoc]
    exact ih.step a

/-- A critical event is never forgotten. -/
theorem event_run {steps : List Step} {text : String} (ht : .line text ∈ steps)
    (hc : criticalKernelEvent text ≠ "") : (run sha256 unmarshal steps).1.event ≠ "" := by
  induction steps using List.reverseRecOn with
  | nil => cases ht
  | append_singleton steps a ih =>
    rw [run_snoc]
    cases a with
    | check found => exact ih (by simpa using ht)
    | line other =>
      dsimp only [step]
      split
      next hother =>
        obtain ht | ht := List.mem_append.mp ht
        · exact ih ht
        · cases List.mem_singleton.mp ht
          exact absurd hother hc
      next hother => exact hother

/-- Whatever the order of checks and lines of the kernel log, the status is the
verdict of the checks made; after a critical line every check that reads the Node
finds the host unhealthy. -/
theorem health_of_run (sha256 : String → String) (unmarshal : String → Option Inventory)
    (steps : List Step) :
    (run sha256 unmarshal steps).1.current.status = verdict (run sha256 unmarshal steps).2 ∧
    ∀ text found node, .line text ∈ steps → criticalKernelEvent text ≠ "" →
      found.node = .ok node →
      (run sha256 unmarshal (steps ++ [.check found])).1.current.status = .unhealthy := by
  refine ⟨(reports_run steps).2, fun text found node ht hc hn => ?_⟩
  have hevent : (run sha256 unmarshal steps).1.event ≠ "" := event_run ht hc
  have hhard : (run sha256 unmarshal (steps ++ [.check found])).2.head? = some .hard := by
    simp [run_snoc, step, checkOnce, hn, checkHost, hevent, refuse, Bind.bind, Except.bind]
  obtain ⟨ends, hends⟩ := List.head?_eq_some_iff.mp hhard
  rw [(reports_run _).2, hends]
  rfl

end Checker

end HeteroCluster.WatchdogHealth
