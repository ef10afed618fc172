import HeteroCluster.WorkerShapes

namespace HeteroCluster.PerCPUMemory

open HetDemand RecoveryVerifier RunningTotals TRESAmounts WorkerDemand WorkerShapes
open GoStrings (wrapInt64)

/-- The numbers of CPUs that the fields of a job ask for on one node. -/
inductive Demanded (quantity : String → Option Int) (job : PendingJob) (s : Shape) : Int → Prop where
  | total {k : Int} : IsLeast {k | job.cpus ≤ k * nodeCount job} k → Demanded quantity job s k
  | task : Demanded quantity job s job.cpusPerTask
  | tasks : Demanded quantity job s (job.tasksPerNode * job.cpusPerTask)
  | tres {a k : Int} : amount quantity (selected job).2 "cpu" = some a →
      OnNode job (selected job).1 a k → Demanded quantity job s k
  | gres {g : String} {v a : Int} : s.gres.lookup g = some v →
      amount quantity job.cpusPerTRES ("gres/" ++ g) = some a → Demanded quantity job s (a * v)

/-- The memory that a job asks for otherwise, or gets as one unit of the pool. -/
inductive OtherMemory (quantity : String → Option Int) (job : PendingJob) (pool : WorkerPoolSpec)
    (s : Shape) : Int → Prop where
  | tres {a : Int} : amount quantity (selected job).2 "mem" = some a →
      OtherMemory quantity job pool s (scale id (multiplier id job (selected job).1) a)
  | gres {g : String} {v a : Int} : s.gres.lookup g = some v →
      amount quantity job.memoryPerTRES ("gres/" ++ g) = some a → OtherMemory quantity job pool s (a * v)
  | unit {unit : Int} : quantity pool.memoryUnit = some unit → OtherMemory quantity job pool s unit

section Memory

variable {quantity : String → Option Int} {job : PendingJob} {pool : WorkerPoolSpec}
  {footprints : Footprints} {s : Shape}

theorem requestMemory_perCPU (hnode : job.memoryPerNode = 0) (hcpu : 0 < job.memoryPerCPU) :
    requestMemory id job = job.memoryPerCPU * 2 ^ 20 * taskCPUs id job := by
  simp only [requestMemory, id, hnode, zero_mul, hcpu, and_self, if_true]
  exact mul_right_comm _ _ _

theorem le_memory_iff (hnode : job.memoryPerNode = 0) (hcpu : 0 < job.memoryPerCPU)
    (hfootprints : ∀ g ∈ s.gres, footprints.lookup g = none)
    (h : shapeFor id quantity job pool footprints = .ok s) {x : Int} (hx : 0 < x) :
    x ≤ s.memoryBytes ↔ x ≤ job.memoryPerCPU * 2 ^ 20 * taskCPUs id job ∨
      ∃ m, OtherMemory quantity job pool s m ∧ x ≤ m := by
  rw [shapeFor_eq_in] at h
  obtain ⟨values, cpus, memory, unit, hparsed, hcomputed⟩ := computed_of_ok wrapping_id h
  have hvalues := lookup_parseTRES hparsed.values "mem"
  have hmemory := lookup_parseTRES hparsed.memory
  rw [tresSource_eq] at hvalues
  rw [hcomputed.memory, requestMemory_perCPU hnode hcpu]
  refine or_congr_right ?_
  constructor
  · rintro (⟨v, hv, hxv⟩ | ⟨g, v, f, hv, hf, -⟩ | ⟨g, v, hv, hxv⟩ | hunit)
    · rw [tresSource_eq] at hxv
      exact ⟨_, .tres (hvalues ▸ hv), hxv⟩
    · have hmem : g ∈ s.gres := AList.lookup_isSome.mp (Option.isSome_iff_exists.mpr ⟨v, hv⟩)
      rw [hfootprints g hmem] at hf
      cases hf
    · rw [count, hmemory] at hxv
      cases ha : amount quantity job.memoryPerTRES ("gres/" ++ g) with
      | none =>
        rw [ha] at hxv
        simp at hxv
        omega
      | some a =>
        rw [ha] at hxv
        exact ⟨a * v, .gres hv ha, hxv⟩
    · exact ⟨unit, .unit hparsed.memoryUnit, hunit⟩
  · rintro ⟨m, hm, hxm⟩
    cases hm with
    | tres ha =>
      refine .inl ⟨_, hvalues.trans ha, ?_⟩
      rw [tresSource_eq]
      exact hxm
    | gres hv ha =>
      refine .inr (.inr (.inl ⟨_, _, hv, ?_⟩))
      rw [count, hmemory, ha]
      exact hxm
    | unit hunit =>
      obtain rfl := Option.some.inj (hunit.symm.trans hparsed.memoryUnit)
      exact .inr (.inr (.inr hxm))

end Memory

/-- A job with memory for each CPU gets it for all the CPUs it asks for exactly
if the fields that are looked at first ask for that many, or the memory comes from
elsewhere. -/
theorem perCPU_memory_iff (quantity : String → Option Int) (job : PendingJob) (pool : WorkerPoolSpec)
    (footprints : Footprints) (s : Shape) (c : Int) (hnode : job.memoryPerNode = 0)
    (hcpu : 0 < job.memoryPerCPU) (h : ExactShape quantity job pool footprints s)
    (hfootprints : ∀ g ∈ s.gres, footprints.lookup g = none)
    (hc : IsGreatest {k | Demanded quantity job s k} c) :
    job.memoryPerCPU * 2 ^ 20 * c ≤ s.memoryBytes ↔
      (∀ k, Demanded quantity job s k → k ≤ taskCPUs id job) ∨
        ∃ m, OtherMemory quantity job pool s m ∧ job.memoryPerCPU * 2 ^ 20 * c ≤ m := by
  have hall : (∀ k, Demanded quantity job s k → k ≤ taskCPUs id job) ↔ c ≤ taskCPUs id job :=
    ⟨fun hk => hk c hc.1, fun hle k hk => (hc.2 hk).trans hle⟩
  have hperCPU : 0 < job.memoryPerCPU * 2 ^ 20 := by omega
  rw [hall]
  by_cases hpos : 0 < c
  · rw [le_memory_iff hnode hcpu hfootprints h.unbounded (mul_pos hperCPU hpos),
      mul_le_mul_iff_right₀ hperCPU]
  · have hle : job.memoryPerCPU * 2 ^ 20 * c ≤ 0 :=
      mul_nonpos_of_nonneg_of_nonpos hperCPU.le (not_lt.mp hpos)
    have htask := taskCPUs_pos id job
    have hmemory := s.memory_pos
    exact iff_of_true (by omega) (.inl (by omega))

section Samples

def cpuPool : WorkerPoolSpec := ⟨"cpu", "batch", "1Mi", ⟨0, 2, 0⟩, []⟩

def mebibyte (_ : String) : Option Int := some (2 ^ 20)

/-- A job with a gibibyte for each CPU, and the list of resources for a node. -/
def cpuJob (tres : String) : PendingJob :=
  { component 7 "Resources" with
    hetJobID := 0, memoryPerNode := 0, memoryPerCPU := 1024, tresPerNode := tres }

theorem cpuJob_greatest {tres : String} {s : Shape} {c : Int} (hne : tres ≠ "") (hc : 1 ≤ c)
    (hgres : s.gres.entries = []) (hamount : amount mebibyte tres "cpu" = some c) :
    IsGreatest {k | Demanded mebibyte (cpuJob tres) s k} c := by
  have hselected : selected (cpuJob tres) = (.perNode, tres) := by simp [selected, cpuJob, hne]
  constructor
  · refine .tres (a := c) ?_ ?_
    · rw [hselected]
      exact hamount
    · rw [hselected]
      exact rfl
  · intro k hk
    cases hk with
    | total hleast => exact (hleast.2 (by decide : (1 : Int) ≤ 1 * 1)).trans hc
    | task => exact hc
    | tasks => exact (by decide : (0 : Int) * 1 ≤ 1).trans hc
    | tres ha hk =>
      rw [hselected] at ha hk
      obtain rfl := Option.some.inj (ha.symm.trans hamount)
      exact le_of_eq hk
    | gres hv =>
      have hmem := AList.mem_lookup_iff.mp hv
      rw [hgres] at hmem
      cases hmem

theorem cpuJob_shape (tres : String) (cpus : Int)
    (h : (shapeFor wrapInt64 mebibyte (cpuJob tres) cpuPool ∅).map parts = .ok (cpus, 2 ^ 30, 0, []))
    (h' : (shapeFor id mebibyte (cpuJob tres) cpuPool ∅).map parts = .ok (cpus, 2 ^ 30, 0, [])) :
    ∃ s, ExactShape mebibyte (cpuJob tres) cpuPool ∅ s ∧ s.cpus = cpus ∧ s.memoryBytes = 2 ^ 30 ∧
      s.gres.entries = [] := by
  obtain ⟨s, hs, hparts⟩ := exactShape_of_parts _ _ _ _ _ h h'
  obtain ⟨hcpus, hmemory, -, hgres⟩ : s.cpus = cpus ∧ s.memoryBytes = 2 ^ 30 ∧
      s.sharedMemoryBytes = 0 ∧ s.gres.entries = [] := by simpa [parts] using hparts
  exact ⟨s, hs, hcpus, hmemory, hgres⟩

theorem perCPU_memory_sample : ∃ s, ExactShape mebibyte (cpuJob "cpu=1") cpuPool ∅ s ∧
    1024 * 2 ^ 20 * 1 ≤ s.memoryBytes := by
  obtain ⟨s, hs, -, -, hgres⟩ := cpuJob_shape "cpu=1" 1 (by decide +kernel)
    (by decide +kernel)
  have hgreatest := cpuJob_greatest (s := s) (by decide) le_rfl hgres
    (by decide +kernel : amount mebibyte "cpu=1" "cpu" = some 1)
  refine ⟨s, hs, (perCPU_memory_iff _ _ _ _ s 1 rfl (by decide) hs (fun _ _ => rfl) hgreatest).mpr ?_⟩
  exact .inl (fun k hk => (hgreatest.2 hk).trans (by decide))

/-- Eight CPUs are asked for in the list of resources, and there is memory for
one. -/
theorem perCPU_memory_short : ∃ s, ExactShape mebibyte (cpuJob "cpu=8") cpuPool ∅ s ∧ s.cpus = 8 ∧
    IsGreatest {k | Demanded mebibyte (cpuJob "cpu=8") s k} 8 ∧
    s.memoryBytes < (cpuJob "cpu=8").memoryPerCPU * 2 ^ 20 * 8 := by
  obtain ⟨s, hs, hcpus, hmemory, hgres⟩ := cpuJob_shape "cpu=8" 8
    (by decide +kernel) (by decide +kernel)
  have hgreatest := cpuJob_greatest (s := s) (by decide) (by decide) hgres
    (by decide +kernel : amount mebibyte "cpu=8" "cpu" = some 8)
  refine ⟨s, hs, hcpus, hgreatest, ?_⟩
  rw [hmemory]
  decide

end Samples

end HeteroCluster.PerCPUMemory
