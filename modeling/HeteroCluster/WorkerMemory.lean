import HeteroCluster.GresInit
import HeteroCluster.HetDemand

namespace HeteroCluster.WorkerMemory

open FailFast RecoveryVerifier WorkerDemand WorkerPods GresInit HetDemand
open GoStrings (wrapInt64)

variable (quantity : String → Option Int) (pool : WorkerPoolSpec) (footprints : Footprints)
variable {job : PendingJob}

def withoutMemory (job : PendingJob) : PendingJob :=
  { job with memoryPerNode := 0, memoryPerCPU := 0 }

section Raise

theorem atLeastMemory_comm (n : Needs) (a b : Int) :
    (n.atLeastMemory a).atLeastMemory b = (n.atLeastMemory b).atLeastMemory a := by
  simp [Needs.atLeastMemory, max_right_comm]

theorem addTRES_atLeastMemory (multiplier memory : Int) (n : Needs)
    (entry : Sigma fun _ : String => Int) :
    addTRES id multiplier (n.atLeastMemory memory) entry =
      (addTRES id multiplier n entry).atLeastMemory memory := by
  unfold addTRES
  dsimp only
  by_cases hc : entry.1 = "cpu"
  · rw [if_pos hc, if_pos hc]
    rfl
  · rw [if_neg hc, if_neg hc]
    by_cases hm : entry.1 = "mem"
    · rw [if_pos hm, if_pos hm, atLeastMemory_comm]
    · rw [if_neg hm, if_neg hm]
      cases GoStrings.cutPrefix entry.1 "gres/" <;> rfl

theorem addGRES_atLeastMemory (memory : Int) (state : Needs × Int)
    (entry : Sigma fun _ : String => Int) :
    addGRES id pool footprints (state.1.atLeastMemory memory, state.2) entry =
      (addGRES id pool footprints state entry).map (fun s => (s.1.atLeastMemory memory, s.2)) := by
  unfold addGRES refuse
  by_cases hc : entry.2 < 1
  · rw [if_pos hc]
    rfl
  · rw [if_neg hc]
    by_cases hp : ¬ pool.profiles.any (fun profile => profile.gres == entry.1) = true
    · rw [if_pos hp]
      rfl
    · rw [if_neg hp]
      cases footprints.lookup entry.1 with
      | none => rfl
      | some footprint =>
        have hcomm := atLeastMemory_comm (state.1.atLeastCPUs (footprint.cpus * entry.2)) memory
          ((footprint.memoryBytes + footprint.sharedMemory) * entry.2)
        exact congrArg (fun n => Except.ok (n, state.2 + footprint.sharedMemory * entry.2)) hcomm

theorem cpusPerTRES_atLeastMemory (constraints : Counts) (n : Needs) (memory : Int) :
    cpusPerTRES id constraints (n.atLeastMemory memory) =
      (cpusPerTRES id constraints n).atLeastMemory memory :=
  List.foldl_hom (fun m : Needs => m.atLeastMemory memory) (fun _ _ => rfl)

theorem memoryPerTRES_atLeastMemory (constraints : Counts) (n : Needs) (memory : Int) :
    memoryPerTRES id constraints (n.atLeastMemory memory) =
      (memoryPerTRES id constraints n).atLeastMemory memory :=
  List.foldl_hom (fun m : Needs => m.atLeastMemory memory)
    (fun m _ => atLeastMemory_comm m memory _)

def raise (memory : Int) (s : Shape) : Shape :=
  { s with memoryBytes := max s.memoryBytes memory, memory_pos := le_max_of_le_left s.memory_pos }

theorem finishShape_atLeastMemory (n : Needs) (shared memory : Int) :
    finishShape quantity pool (n.atLeastMemory memory) shared =
      (finishShape quantity pool n shared).map (raise memory) := by
  unfold finishShape
  cases quantity pool.memoryUnit with
  | none => rfl
  | some unit =>
    dsimp only
    by_cases hu : 1 ≤ unit
    · rw [dif_pos hu, dif_pos hu]
      simp [raise, Needs.atLeastMemory, Except.map, max_right_comm]
    · rw [dif_neg hu, dif_neg hu]
      rfl

theorem startNeeds_request (h : 0 < job.memoryPerNode) :
    startNeeds id job =
      (startNeeds id (withoutMemory job)).atLeastMemory (job.memoryPerNode * 2 ^ 20) := by
  have hpos : 0 < job.memoryPerNode * 2 ^ 20 := by omega
  have hrequest : requestMemory id job = job.memoryPerNode * 2 ^ 20 := by
    simp only [requestMemory, id]
    rw [if_neg (by omega)]
  have hnone : requestMemory id (withoutMemory job) = 0 := by
    simp [requestMemory, withoutMemory]
  have hcpus : taskCPUs id job = taskCPUs id (withoutMemory job) := rfl
  simp only [startNeeds, Needs.atLeastMemory, hrequest, hnone, hcpus, max_eq_right hpos.le]

theorem addTRES_request (multiplier memory : Int) (values : Counts) (n : Needs) :
    values.entries.foldl (addTRES id multiplier) (n.atLeastMemory memory) =
      (values.entries.foldl (addTRES id multiplier) n).atLeastMemory memory :=
  List.foldl_hom (fun m : Needs => m.atLeastMemory memory)
    (fun m entry => addTRES_atLeastMemory multiplier memory m entry)

theorem addGRES_request (memory : Int) (n : Needs) :
    n.gres.entries.foldlM (addGRES id pool footprints) (n.atLeastMemory memory, 0) =
      (n.gres.entries.foldlM (addGRES id pool footprints) (n, 0)).map
        (fun s => (s.1.atLeastMemory memory, s.2)) :=
  foldlM_map (fun state entry => addGRES_atLeastMemory pool footprints memory state entry)
    n.gres.entries (n, 0)

theorem shapeFor_request (h : 0 < job.memoryPerNode) :
    shapeFor id quantity job pool footprints =
      (shapeFor id quantity (withoutMemory job) pool footprints).map
        (raise (job.memoryPerNode * 2 ^ 20)) := by
  have hsource : tresSource id (withoutMemory job) = tresSource id job := rfl
  have hcpu : (withoutMemory job).cpusPerTRES = job.cpusPerTRES := rfl
  have hmemory : (withoutMemory job).memoryPerTRES = job.memoryPerTRES := rfl
  unfold shapeFor
  rw [hsource, hcpu, hmemory, startNeeds_request h]
  cases parseTRES id quantity (tresSource id job).1 with
  | error e => rfl
  | ok values =>
    simp only [ok_bind, addTRES_request]
    generalize values.entries.foldl (addTRES id (tresSource id job).2)
      (startNeeds id (withoutMemory job)) = needs
    have hgres := addGRES_request pool footprints (job.memoryPerNode * 2 ^ 20) needs
    simp only [Needs.atLeastMemory] at hgres ⊢
    rw [hgres]
    cases needs.gres.entries.foldlM (addGRES id pool footprints) (needs, 0) with
    | error e => rfl
    | ok state =>
      cases (parseTRES id quantity job.cpusPerTRES).mapError ("CPUsPerTRES: " ++ ·) with
      | error e => rfl
      | ok cpus =>
        cases (parseTRES id quantity job.memoryPerTRES).mapError ("MemoryPerTRES: " ++ ·) with
        | error e => rfl
        | ok memory =>
          have hfinish := finishShape_atLeastMemory quantity pool
            (memoryPerTRES id memory (cpusPerTRES id cpus state.1)) state.2
            (job.memoryPerNode * 2 ^ 20)
          rw [← memoryPerTRES_atLeastMemory, ← cpusPerTRES_atLeastMemory] at hfinish
          exact hfinish

end Raise

def memories (s : Shape) : Int × Int := (s.memoryBytes, s.sharedMemoryBytes)

/-- The memory that the two programs compute does not leave the range of `int64`. -/
structure Exact (job : PendingJob) : Prop where
  shape : (shapeFor wrapInt64 quantity job pool footprints).map memories =
    (shapeFor id quantity job pool footprints).map memories
  difference : ∀ s, shapeFor id quantity job pool footprints = .ok s →
    wrapInt64 (s.memoryBytes - s.sharedMemoryBytes) = s.memoryBytes - s.sharedMemoryBytes

/-- The memory that the job needs anyway, for its accelerators or as one unit of
the pool, has room for the request and the shared memory. -/
def Roomy (job : PendingJob) : Prop :=
  job.memoryPerNode = 1 ∨ ∃ s, shapeFor id quantity (withoutMemory job) pool footprints = .ok s ∧
    (s.sharedMemoryBytes ≤ 0 ∨
      job.memoryPerNode * 2 ^ 20 + s.sharedMemoryBytes ≤ s.memoryBytes)

variable {quantity} {pool} {footprints}

theorem le_realMemory_iff {s : Shape} {m : Int} (hm : 0 < m)
    (h : wrapInt64 (s.memoryBytes - s.sharedMemoryBytes) = s.memoryBytes - s.sharedMemoryBytes) :
    m ≤ realMemory (shapeJSON s) ↔
      m = 1 ∨ m * 2 ^ 20 ≤ s.memoryBytes - s.sharedMemoryBytes := by
  have hmemory : realMemory (shapeJSON s) =
      max ((s.memoryBytes - s.sharedMemoryBytes) / 2 ^ 20) 1 := by
    rw [← h]
    rfl
  rw [hmemory]
  omega

theorem realMemory_congr {s s' : Shape} (h : memories s = memories s') :
    realMemory (shapeJSON s) = realMemory (shapeJSON s') := by
  obtain ⟨hmemory, hshared⟩ := Prod.mk.inj h
  unfold realMemory shapeJSON
  rw [hmemory, hshared]

theorem Exact.shapeFor_eq (h : Exact quantity pool footprints job) {s : Shape}
    (hs : shapeFor wrapInt64 quantity job pool footprints = .ok s) :
    ∃ t, shapeFor id quantity job pool footprints = .ok t ∧ memories s = memories t := by
  have hshape := h.shape
  rw [hs] at hshape
  cases ht : shapeFor id quantity job pool footprints with
  | error e =>
    rw [ht] at hshape
    cases hshape
  | ok t =>
    rw [ht] at hshape
    exact ⟨t, rfl, Except.ok.inj hshape⟩

theorem request_memories {t : Shape} (hm : 0 < job.memoryPerNode)
    (ht : shapeFor id quantity job pool footprints = .ok t) :
    ∃ base, shapeFor id quantity (withoutMemory job) pool footprints = .ok base ∧
      t.memoryBytes = max base.memoryBytes (job.memoryPerNode * 2 ^ 20) ∧
      t.sharedMemoryBytes = base.sharedMemoryBytes := by
  rw [shapeFor_request quantity pool footprints hm] at ht
  cases hbase : shapeFor id quantity (withoutMemory job) pool footprints with
  | error e =>
    rw [hbase] at ht
    cases ht
  | ok base =>
    rw [hbase] at ht
    rw [← Except.ok.inj ht]
    exact ⟨base, rfl, rfl, rfl⟩

/-- The worker built for a job advertises the memory the job asks for exactly if
there is room for the shared memory beside it. -/
theorem worker_offers_memory_iff {pools : List WorkerPoolSpec} {d : Demand}
    (hm : 0 < job.memoryPerNode) (hpool : poolFor pools job = some pool)
    (hd : verdict wrapInt64 quantity pools footprints job = .demanded d)
    (hexact : Exact quantity pool footprints job) (host : Host) :
    job.memoryPerNode ≤ (dynamicNode host (shapeJSON d.shape)).realMemory ↔
      Roomy quantity pool footprints job := by
  obtain ⟨pool', s, hadmitted, hds⟩ := admitted_of_verdict hd
  have hpool' := hadmitted.partition
  have hshape := hadmitted.shape
  rw [hpool, Option.some.injEq] at hpool'
  rw [← hpool'] at hshape
  rw [hds]
  obtain ⟨t, ht, hsame⟩ := hexact.shapeFor_eq hshape
  obtain ⟨base, hbase, hmemory, hshared⟩ := request_memories hm ht
  have hreal := le_realMemory_iff hm (hexact.difference t ht)
  rw [← realMemory_congr hsame, hmemory, hshared] at hreal
  have hroomy : Roomy quantity pool footprints job ↔ job.memoryPerNode = 1 ∨
      (base.sharedMemoryBytes ≤ 0 ∨
        job.memoryPerNode * 2 ^ 20 + base.sharedMemoryBytes ≤ base.memoryBytes) := by
    simp [Roomy, hbase]
  rw [hroomy]
  apply hreal.trans
  omega

section Samples

def tpuPool : WorkerPoolSpec := ⟨"tpu", "batch", "1Gi", ⟨0, 2, 0⟩, [⟨"m8", "tpu:m8", "opentpu"⟩]⟩

def tpuFootprints : Footprints := AList.singleton "tpu:m8" ⟨1, 2 ^ 26, 2 ^ 26⟩

def tpuJob (memoryPerNode : Int) : PendingJob :=
  { component 7 "Resources" with
    hetJobID := 0, memoryPerNode := memoryPerNode, tresPerNode := "gres/tpu:m8=1" }

def tpuHost : Host := ⟨.error "", fun _ => none, fun _ => .error "", "10.0.0.1", "tpu"⟩

theorem tpuJob_exact (m : Int)
    (hshape : (shapeFor wrapInt64 bytes (tpuJob m) tpuPool tpuFootprints).map memories =
      (shapeFor id bytes (tpuJob m) tpuPool tpuFootprints).map memories)
    (hdiff : (shapeFor id bytes (tpuJob m) tpuPool tpuFootprints).toOption.all (fun s =>
      wrapInt64 (s.memoryBytes - s.sharedMemoryBytes) == s.memoryBytes - s.sharedMemoryBytes) = true) :
    Exact bytes tpuPool tpuFootprints (tpuJob m) := by
  constructor
  · exact hshape
  · intro s hs
    rw [hs] at hdiff
    exact eq_of_beq hdiff

theorem tpuJob_demanded (m : Int)
    (h : (verdict wrapInt64 bytes [tpuPool] tpuFootprints (tpuJob m)).demand?.isSome = true) :
    ∃ d, verdict wrapInt64 bytes [tpuPool] tpuFootprints (tpuJob m) = .demanded d := by
  cases hv : verdict wrapInt64 bytes [tpuPool] tpuFootprints (tpuJob m) with
  | skipped =>
    rw [hv] at h
    cases h
  | rejected message =>
    rw [hv] at h
    cases h
  | demanded d => exact ⟨d, rfl⟩

/-- A TPU with 64 MiB of memory and 64 MiB of shared memory: a job that asks for
1024 MiB gets a worker that advertises 960 MiB. -/
theorem worker_lacks_memory : ∃ d, verdict wrapInt64 bytes [tpuPool] tpuFootprints (tpuJob 1024) =
      .demanded d ∧ Exact bytes tpuPool tpuFootprints (tpuJob 1024) ∧
    (dynamicNode tpuHost (shapeJSON d.shape)).realMemory = 960 := by
  have hexact : Exact bytes tpuPool tpuFootprints (tpuJob 1024) :=
    tpuJob_exact 1024 (by decide +kernel) (by decide +kernel)
  obtain ⟨d, hd⟩ := tpuJob_demanded 1024 (by decide +kernel)
  have hreal : (verdict wrapInt64 bytes [tpuPool] tpuFootprints (tpuJob 1024)).demand?.map
      (fun d => (dynamicNode tpuHost (shapeJSON d.shape)).realMemory) = some 960 := by
    decide +kernel
  rw [hd] at hreal
  exact ⟨d, hd, hexact, Option.some.inj hreal⟩

/-- The same TPU leaves room for a job that asks for 64 MiB. -/
theorem worker_offers_memory_sample : ∃ d, verdict wrapInt64 bytes [tpuPool] tpuFootprints
      (tpuJob 64) = .demanded d ∧
    (64 ≤ (dynamicNode tpuHost (shapeJSON d.shape)).realMemory ↔
      Roomy bytes tpuPool tpuFootprints (tpuJob 64)) := by
  obtain ⟨d, hd⟩ := tpuJob_demanded 64 (by decide +kernel)
  have hexact : Exact bytes tpuPool tpuFootprints (tpuJob 64) :=
    tpuJob_exact 64 (by decide +kernel) (by decide +kernel)
  exact ⟨d, hd, worker_offers_memory_iff (by decide) (by decide +kernel) hd hexact tpuHost⟩

end Samples

end HeteroCluster.WorkerMemory
