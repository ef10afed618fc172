import HeteroCluster.RecoveryVerifier
import HeteroCluster.WorkerDemand

namespace HeteroCluster.HetDemand

open WorkerDemand
open GoStrings (wrapInt64)

variable (int64 : Int → Int) (quantity : String → Option Int)
variable (pools : List WorkerPoolSpec) (footprints : Footprints)

/-- The filters that a job passes on its own. -/
structure Admitted (job : PendingJob) (pool : WorkerPoolSpec) (s : Shape) : Prop where
  waits : job.requeued = true ∨ job.reason ∈ ["Resources", "ReqNodeNotAvail", "PartitionConfig"]
  anywhere : job.requiredNodes = ""
  partition : poolFor pools job = some pool
  features : job.features = "" ∨ job.features = "pool_" ++ normalize pool.name
  shape : shapeFor int64 quantity job pool footprints = .ok s

def demandFor (job : PendingJob) (pool : WorkerPoolSpec) (s : Shape) : Demand :=
  ⟨job.id, groupID job, pool.name, max job.nodeCount 1, s⟩

/-- A listed job with the ID of this one passes the filters. -/
def Served (jobs : List PendingJob) (job : PendingJob) : Prop :=
  ∃ j ∈ jobs, j.id = job.id ∧ ∃ pool s, Admitted int64 quantity pools footprints j pool s

def Demanded (out : List Demand) (job : PendingJob) : Prop := ∃ d ∈ out, d.jobID = job.id

def components (jobs : List PendingJob) (het : UInt32) : List PendingJob :=
  jobs.filter (fun job => job.hetJobID == het)

def AllOrNothing (jobs : List PendingJob) (het : UInt32) (out : List Demand) : Prop :=
  (∀ job ∈ components jobs het, Demanded out job) ∨
    ∀ job ∈ components jobs het, ¬ Demanded out job

variable {int64} {quantity} {pools} {footprints}

theorem verdict_of_admitted {job : PendingJob} {pool : WorkerPoolSpec} {s : Shape}
    (h : Admitted int64 quantity pools footprints job pool s) :
    verdict int64 quantity pools footprints job = .demanded (demandFor job pool s) := by
  have hwaits : ¬ (job.requeued = false ∧
      job.reason ∉ ["Resources", "ReqNodeNotAvail", "PartitionConfig"]) := by
    intro hskip
    cases h.waits with
    | inl hr => exact absurd hr (by simp [hskip.1])
    | inr hr => exact hskip.2 hr
  have hfeatures : ¬ (job.features ≠ "" ∧ job.features ≠ "pool_" ++ normalize pool.name) := by
    intro hbad
    cases h.features with
    | inl hf => exact hbad.1 hf
    | inr hf => exact hbad.2 hf
  unfold verdict
  rw [if_neg hwaits, if_neg (not_not.mpr h.anywhere), h.partition]
  dsimp only
  rw [if_neg hfeatures, h.shape]
  rfl

theorem admitted_of_verdict {job : PendingJob} {d : Demand}
    (h : verdict int64 quantity pools footprints job = .demanded d) :
    ∃ pool s, Admitted int64 quantity pools footprints job pool s ∧ d = demandFor job pool s := by
  unfold verdict at h
  split at h
  · cases h
  next hwaits =>
    split at h
    · cases h
    next hany =>
      split at h
      · cases h
      next pool hpool =>
        split at h
        · cases h
        next hfeatures =>
          split at h
          · cases h
          next s hs =>
            injection h with hd
            refine ⟨pool, s, ⟨?_, not_not.mp hany, hpool, ?_, hs⟩, hd.symm⟩
            · by_cases hr : job.requeued = true
              · exact Or.inl hr
              · exact Or.inr (not_not.mp fun hn => hwaits ⟨by simpa using hr, hn⟩)
            · by_cases hf : job.features = ""
              · exact Or.inl hf
              · exact Or.inr (not_not.mp fun hn => hfeatures ⟨hf, hn⟩)

theorem mem_demands_iff {jobs : List PendingJob} {d : Demand} :
    d ∈ (demands int64 quantity jobs pools footprints).1 ↔
      ∃ job ∈ jobs, verdict int64 quantity pools footprints job = .demanded d := by
  have hdemand : ∀ v : Verdict, v.demand? = some d ↔ v = .demanded d := by
    intro v
    cases v <;> simp [Verdict.demand?]
  simp [demands, hdemand]

theorem demanded_iff_served {jobs : List PendingJob} {job : PendingJob} :
    Demanded (demands int64 quantity jobs pools footprints).1 job ↔
      Served int64 quantity pools footprints jobs job := by
  constructor
  · rintro ⟨d, hd, hid⟩
    obtain ⟨j, hj, hv⟩ := mem_demands_iff.mp hd
    obtain ⟨pool, s, hadmitted, hdj⟩ := admitted_of_verdict hv
    rw [hdj] at hid
    exact ⟨j, hj, hid, pool, s, hadmitted⟩
  · rintro ⟨j, hj, hid, pool, s, hadmitted⟩
    exact ⟨demandFor j pool s, mem_demands_iff.mpr ⟨j, hj, verdict_of_admitted hadmitted⟩, hid⟩

/-- The demands cover a heterogeneous job as a whole exactly if its components
pass the filters together. -/
theorem het_all_or_nothing_iff (jobs : List PendingJob) (het : UInt32) :
    AllOrNothing jobs het (demands int64 quantity jobs pools footprints).1 ↔
      (∀ job ∈ components jobs het, Served int64 quantity pools footprints jobs job) ∨
        ∀ job ∈ components jobs het, ¬ Served int64 quantity pools footprints jobs job := by
  unfold AllOrNothing
  simp only [demanded_iff_served]

section Samples

def hetPool : WorkerPoolSpec := ⟨"cpu", "batch", "1Ki", ⟨0, 2, 0⟩, []⟩

def component (id : UInt32) (reason : String) : PendingJob where
  id := id
  partition := "batch"
  reason := reason
  requeued := false
  priority := 1
  eligibleTime := 0
  hetJobID := 7
  cpus := 1
  nodeCount := 1
  tasks := 1
  cpusPerTask := 1
  tasksPerNode := 0
  memoryPerCPU := 0
  memoryPerNode := 0
  cpusPerTRES := ""
  memoryPerTRES := ""
  tresPerJob := ""
  tresPerNode := ""
  tresPerSocket := ""
  tresPerTask := ""
  tresRequested := ""
  requiredNodes := ""
  features := ""

def bytes (_ : String) : Option Int := some 1

def hetJobs : List PendingJob := [component 7 "Resources", component 8 "Priority"]

theorem component_served :
    Served wrapInt64 bytes [hetPool] ∅ hetJobs (component 7 "Resources") := by
  have hok : (shapeFor wrapInt64 bytes (component 7 "Resources") hetPool ∅).isOk =
      true := by decide +kernel
  cases hs : shapeFor wrapInt64 bytes (component 7 "Resources") hetPool ∅ with
  | error e =>
    rw [hs] at hok
    cases hok
  | ok s =>
    refine ⟨component 7 "Resources", by simp [hetJobs], rfl, hetPool, s, ?_⟩
    exact ⟨Or.inr (by simp [component]), rfl, by decide, Or.inl rfl, hs⟩

theorem component_not_served :
    ¬ Served wrapInt64 bytes [hetPool] ∅ hetJobs (component 8 "Priority") := by
  rintro ⟨j, hj, hid, pool, s, hadmitted⟩
  have hcases : j = component 7 "Resources" ∨ j = component 8 "Priority" := by
    simpa [hetJobs] using hj
  cases hcases with
  | inl h7 =>
    rw [h7] at hid
    exact absurd hid (by decide)
  | inr h8 =>
    have hwaits := hadmitted.waits
    rw [h8] at hwaits
    exact absurd hwaits (by simp [component])

/-- One component waits for resources, the other for its priority: the output
has capacity for the first alone. -/
theorem het_job_split :
    ¬ AllOrNothing hetJobs 7 (demands wrapInt64 bytes hetJobs [hetPool] ∅).1 := by
  intro h
  cases h with
  | inl hall =>
    exact component_not_served (demanded_iff_served.mp (hall (component 8 "Priority") (by decide)))
  | inr hnone =>
    exact hnone (component 7 "Resources") (by decide) (demanded_iff_served.mpr component_served)

end Samples

end HeteroCluster.HetDemand
