import HeteroCluster.RecoveryEvacuation

namespace HeteroCluster.JobEvacuation

open SlurmJob RecoveryIncident AffectedJobs CallProgram OperatorCalls RecoveryEvacuation

variable {job : RecoveryJob} {state : RecoveryState} {jobs : List Job}

/-- The components of an affected job that satisfy a condition and list one of
the incident's workers among their nodes. -/
def OnWorker (job : RecoveryJob) (state : RecoveryState) (jobs : List Job) (p : Job → Prop) : Prop :=
  ∃ c ∈ jobs, c.rootID = job.id ∧ p c ∧ c.usesAnyNode (workerNames state job.cluster) = true

/-- What evacuation promises: while an unfinished component lists a worker, the
job does not count as evacuated and nothing is cleaned up. -/
structure Safe (job : RecoveryJob) (state : RecoveryState) (jobs : List Job) : Prop where
  held : OnWorker job state jobs (fun c => c.terminal = false) → jobEvacuated job state jobs = false
  kept : OnWorker job state jobs (fun c => c.terminal = false) → ∀ snapshots : Snapshots,
    job ∈ state.jobs → (snapshotOf snapshots job.cluster).jobs = jobs →
    cleanupEvacuatedWorkers state snapshots = .done (.ok false)

theorem cleanup_of_not_evacuated {snapshots : Snapshots} (hm : job ∈ state.jobs)
    (he : jobEvacuated job state (snapshotOf snapshots job.cluster).jobs = false) :
    cleanupEvacuatedWorkers state snapshots = .done (.ok false) := by
  unfold cleanupEvacuatedWorkers
  rw [if_neg]
  · rfl
  · intro hall
    simpa [he] using List.all_eq_true.mp hall job hm

theorem unfinished_cases {c : Job} (h : c.terminal = false) : c.pending = true ∨ c.active = true := by
  cases hp : c.pending with
  | true => exact .inl rfl
  | false => exact .inr (by simp [Job.active, hp, h])

theorem onWorker_unfinished_iff : OnWorker job state jobs (fun c => c.terminal = false) ↔
    OnWorker job state jobs (fun c => c.pending = true) ∨
      OnWorker job state jobs (fun c => c.active = true) := by
  constructor
  · rintro ⟨c, hc, hr, ht, hu⟩
    obtain hp | ha := unfinished_cases ht
    · exact .inl ⟨c, hc, hr, hp, hu⟩
    · exact .inr ⟨c, hc, hr, ha, hu⟩
  · rintro (⟨c, hc, hr, hp, hu⟩ | ⟨c, hc, hr, ha, hu⟩)
    · exact ⟨c, hc, hr, Job.not_terminal_of_pending hp, hu⟩
    · exact ⟨c, hc, hr, by simp_all [Job.active], hu⟩

theorem jobEvacuated_eq_false_iff : jobEvacuated job state jobs = false ↔
    OnWorker job state jobs (fun c => c.active = true) ∨
      job.requeueSent = false ∧ ∃ c ∈ jobs, c.rootID = job.id ∧ c.active = true := by
  rw [← Bool.not_eq_true, jobEvacuated_iff, not_and_or, not_or]
  simp [OnWorker]

/-- The promise is kept exactly when no waiting component still lists a worker,
or an active component keeps the answer negative anyway. -/
theorem evacuation_safe_iff : Safe job state jobs ↔
    ¬ OnWorker job state jobs (fun c => c.pending = true) ∨
      OnWorker job state jobs (fun c => c.active = true) ∨
      job.requeueSent = false ∧ ∃ c ∈ jobs, c.rootID = job.id ∧ c.active = true := by
  rw [← jobEvacuated_eq_false_iff]
  constructor
  · intro h
    by_cases hp : OnWorker job state jobs (fun c => c.pending = true)
    · exact .inr (h.held (onWorker_unfinished_iff.mpr (.inl hp)))
    · exact .inl hp
  · intro h
    have held : OnWorker job state jobs (fun c => c.terminal = false) →
        jobEvacuated job state jobs = false := by
      intro hu
      obtain hp | he := h
      · have ha := (onWorker_unfinished_iff.mp hu).resolve_left hp
        exact jobEvacuated_eq_false_iff.mpr (.inl ha)
      · exact he
    refine ⟨held, ?_⟩
    rintro hu snapshots hm rfl
    exact cleanup_of_not_evacuated hm (held hu)

/-- A job that was requeued and is still completing on a worker. -/
def completingJob : Job := ⟨7, 0, ["REQUEUED", "COMPLETING"], "", ["worker"]⟩

def completingState : RecoveryState :=
  { version := 1, incident := "00000000-0000-4000-8000-000000000000", nodeName := "node"
    nodeUID := "uid", phase := .requeued, startedAt := 0, phaseStartedAt := 0
    preBootID := "boot-1", preInventory := "", preInventoryHash := ""
    clusters := [⟨"team", "c", "cluster"⟩]
    workers := [⟨"team", "c", "team", "worker", "claim"⟩]
    jobs := [{ clusterNamespace := "team", clusterName := "c", id := 7 }] }

def completingSnapshots : Snapshots :=
  [("team/c", ⟨⟨"cluster", false⟩, [⟨"worker", ["DRAIN"]⟩], [completingJob]⟩)]

theorem completing_job_evacuated :
    (∀ job ∈ completingState.jobs, jobEvacuated job completingState [completingJob] = true ∧
        ¬ Safe job completingState [completingJob]) ∧
      ∃ next, cleanupEvacuatedWorkers completingState completingSnapshots =
        .call (.deleteNode "team/c" "worker") next := by
  refine ⟨?_, _, rfl⟩
  intro job hj
  have he : jobEvacuated job completingState [completingJob] = true := by
    revert job
    decide +kernel
  have hu : OnWorker job completingState [completingJob] (fun c => c.terminal = false) := by
    refine ⟨completingJob, by simp, ?_, by decide +kernel, ?_⟩
    · revert job
      decide +kernel
    · revert job
      decide +kernel
  exact ⟨he, fun h => Bool.false_ne_true ((h.held hu).symm.trans he)⟩

end HeteroCluster.JobEvacuation
