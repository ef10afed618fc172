import HeteroCluster.JobActionsOnce
import HeteroCluster.JobEvacuation

namespace HeteroCluster.EvacuationStable

open RecoveryIncident AffectedJobs CallProgram OperatorCalls RecoveryIsolation RecoveryEvacuation
open RecoveryEvidence RecoverySteps RecoveryRuns JobEvacuation JobActionsOnce

def Continues (hist hist' : List OperatorLog) : Prop :=
  ∃ newer, incidentTrail hist' = newer ++ incidentTrail hist

def Blocks (j : RecoveryJob) (s : RecoveryState) (snapshots : Snapshots) : Prop :=
  jobEvacuated j s (snapshotOf snapshots j.cluster).jobs = false

/-- Slurm shows no component of the job on a worker of the incident. -/
def Away (j : RecoveryJob) (s : RecoveryState) (snapshots : Snapshots) : Prop :=
  ∀ c ∈ (snapshotOf snapshots j.cluster).jobs, c.rootID = j.id →
    c.usesAnyNode (workerNames s j.cluster) = false

instance (j : RecoveryJob) (s : RecoveryState) (snapshots : Snapshots) :
    Decidable (Blocks j s snapshots) := inferInstanceAs (Decidable (_ = false))

instance (j : RecoveryJob) (s : RecoveryState) (snapshots : Snapshots) :
    Decidable (Away j s snapshots) := inferInstanceAs (Decidable (∀ c ∈ _, _ → _))

/-- The job holds up neither phase: it counts as evacuated, and a phase that does
not complete has another job to wait for. -/
structure Passes (j : RecoveryJob) (s : RecoveryState) (snapshots : Snapshots) : Prop where
  evacuated : jobEvacuated j s (snapshotOf snapshots j.cluster).jobs = true
  requeue : ∀ log log' s', Executes (fun _ _ => True)
    (checkpointAndRequeue s snapshots true [] s.jobs) log log' (some (.ok (false, s'))) →
    ∃ k ∈ s.jobs, k ≠ j ∧ Blocks k s snapshots
  cleanup : cleanupEvacuatedWorkers s snapshots = .done (.ok false) →
    ∃ k ∈ s.jobs, k ≠ j ∧ Blocks k s snapshots

/-- From this moment on the job never holds up the incident while Slurm shows it
away from the workers. -/
def Stable (cfg : Config) (name : String) (hist : List OperatorLog) (k : String × UInt32) : Prop :=
  ∀ hist' s j snapshots, Run cfg name hist' → Continues hist hist' → recorded hist' = some s →
    j ∈ s.jobs → j.ident = k → Away j s snapshots → Passes j s snapshots

variable {cfg : Config} {name : String} {hist : List OperatorLog}
variable {s : RecoveryState} {j : RecoveryJob} {snapshots : Snapshots} {k : String × UInt32}

theorem checkpointAndRequeue_flag (flag : Bool) (before jobs : List RecoveryJob)
    (log : OperatorLog) (h : ∀ i ∈ jobs, ¬ Blocks i s snapshots) :
    Ensures (fun _ _ => True) (fun _ _ => True)
      (checkpointAndRequeue s snapshots flag before jobs) log
      (fun r _ => ∀ flag' s', r = .ok (flag', s') → flag' = flag) := by
  induction jobs generalizing before log with
  | nil =>
    intro flag' s' hr
    injection hr with hr
    exact (congrArg Prod.fst hr).symm
  | cons i rest ih =>
    have hi : jobEvacuated i s (snapshotOf snapshots i.cluster).jobs = true := by
      simpa [Blocks] using h i (by simp)
    have hrest : ∀ i ∈ rest, ¬ Blocks i s snapshots := fun i hm => h i (by simp [hm])
    unfold checkpointAndRequeue
    rw [if_pos hi]
    by_cases he : i.evacuated = true
    · rw [if_pos he]
      exact ih (before ++ [i]) log hrest
    · rw [if_neg he]
      apply (ensures_trivial _ log).bind
      intro saved log' _
      cases saved with
      | error e => exact fun flag' s' hr => by cases hr
      | ok _ => exact ih (before ++ [{ i with evacuated := true }]) log' hrest

theorem deleteSlurmNodes_done {workers : List RecoveryWorker} {r : Except ApiError Unit}
    (h : deleteSlurmNodes snapshots workers = .done r) : r = .ok () := by
  induction workers with
  | nil =>
    injection h with h
    exact h.symm
  | cons w rest ih =>
    unfold deleteSlurmNodes at h
    split at h
    · exact ih h
    · cases h

theorem removeWorkers_done {workers : List RecoveryWorker} {complete : Bool}
    {r : Except ApiError Bool} (h : removeWorkers complete workers = .done r) :
    r = .ok complete := by
  cases workers with
  | nil =>
    injection h with h
    exact h.symm
  | cons w rest => cases h

theorem passes_of_evacuated
    (h : jobEvacuated j s (snapshotOf snapshots j.cluster).jobs = true) : Passes j s snapshots := by
  have hother : (¬ ∀ i ∈ s.jobs, ¬ Blocks i s snapshots) →
      ∃ k ∈ s.jobs, k ≠ j ∧ Blocks k s snapshots := by
    intro hall
    obtain ⟨i, hi, hb⟩ := not_forall₂.mp hall
    have hb := not_not.mp hb
    refine ⟨i, hi, ?_, hb⟩
    rintro rfl
    rw [Blocks, h] at hb
    cases hb
  constructor
  · exact h
  · intro log log' s' he
    apply hother
    intro hall
    have hflag := (checkpointAndRequeue_flag true [] s.jobs log hall).result he
    exact Bool.false_ne_true (hflag false s' rfl)
  · intro hc
    apply hother
    intro hall
    have hgone : s.jobs.all (fun job =>
        jobEvacuated job s (snapshotOf snapshots job.cluster).jobs) = true := by
      apply List.all_eq_true.mpr
      intro i hi
      simpa [Blocks] using hall i hi
    unfold cleanupEvacuatedWorkers at hc
    rw [if_pos hgone] at hc
    obtain ⟨r, hd, hc⟩ := Program.bind_eq_done hc
    rw [deleteSlurmNodes_done hd] at hc
    cases removeWorkers_done hc

theorem incident_marked {act : JobAction} (hl : Lasting act) {newer older : List Entry}
    {log log' : OperatorLog} {s' : RecoveryState}
    (hi : Incident cfg (newer ++ (log, s) :: older))
    (hh : (newer ++ (log, s) :: older).head? = some (log', s')) (hm : Marked act s k) :
    Marked act s' k := by
  induction newer generalizing log' s' with
  | nil =>
    obtain ⟨rfl, rfl⟩ := Prod.mk.inj (Option.some.inj hh)
    exact hm
  | cons e newer ih =>
    obtain rfl : e = (log', s') := Option.some.inj hh
    cases newer with
    | nil =>
      cases hi with
      | step hi hstep => exact Step.marked hl hstep hm
    | cons f newer =>
      cases hi with
      | step hi hstep => exact Step.marked hl hstep (ih hi rfl)

theorem requeueSent_continues {hist' : List OperatorLog} {s' : RecoveryState} {j' : RecoveryJob}
    (hr : Run cfg name hist) (hr' : Run cfg name hist') (hc : Continues hist hist')
    (hs : recorded hist = some s) (hs' : recorded hist' = some s')
    (hm : Marked requeueAction s j'.ident) (hj' : j' ∈ s'.jobs) : j'.requeueSent = true := by
  obtain ⟨newer, hnewer⟩ := hc
  obtain ⟨-, hhead⟩ := hr.incident
  obtain ⟨hi', hhead'⟩ := hr'.incident
  rw [hs] at hhead
  rw [hs'] at hhead'
  obtain ⟨⟨log, t⟩, hlast, rfl⟩ := Option.map_eq_some_iff.mp hhead
  obtain ⟨⟨log', t'⟩, hlast', rfl⟩ := Option.map_eq_some_iff.mp hhead'
  obtain ⟨older, holder⟩ := List.head?_eq_some_iff.mp hlast
  rw [hnewer, holder] at hi' hlast'
  obtain ⟨i, hi, hid, hmark⟩ := incident_marked requeueAction_lasting hi' hlast' hm
  have heq : i = j' := List.inj_on_of_nodup_map (hr'.wellFormed t' hs').jobsNodup hi hj' hid
  rw [← heq]
  exact hmark

/-- A snapshot in which the job runs on no node of the incident. -/
def runningAway (j : RecoveryJob) : Snapshots :=
  [(j.cluster, ⟨⟨"", false⟩, [], [⟨j.id, 0, ["RUNNING"], "", []⟩]⟩)]

theorem runningAway_jobs (j : RecoveryJob) :
    (snapshotOf (runningAway j) j.cluster).jobs = [⟨j.id, 0, ["RUNNING"], "", []⟩] := by
  simp [snapshotOf, runningAway]

theorem runningAway_away (j : RecoveryJob) (s : RecoveryState) : Away j s (runningAway j) := by
  intro c hc _
  rw [runningAway_jobs, List.mem_singleton] at hc
  rw [hc]
  rfl

theorem runningAway_active (j : RecoveryJob) :
    ∃ c ∈ (snapshotOf (runningAway j) j.cluster).jobs, c.rootID = j.id ∧ c.active = true := by
  refine ⟨⟨j.id, 0, ["RUNNING"], "", []⟩, by simp [runningAway_jobs], rfl, ?_⟩
  simp [SlurmJob.Job.active, SlurmJob.Job.pending, SlurmJob.Job.terminal, SlurmJob.requeuedState,
    SlurmJob.terminalStates]

/-- A recorded job never holds up its incident again exactly if its requeue is
on record. -/
theorem evacuation_stable_iff (hr : Run cfg name hist) (hs : recorded hist = some s)
    (hj : j ∈ s.jobs) : Stable cfg name hist j.ident ↔ j.requeueSent = true := by
  constructor
  · intro h
    have hpass := h hist s j (runningAway j) hr ⟨[], rfl⟩ hs hj rfl (runningAway_away j s)
    by_contra hn
    have hblocks : Blocks j s (runningAway j) :=
      jobEvacuated_eq_false_iff.mpr (Or.inr ⟨by simpa using hn, runningAway_active j⟩)
    rw [Blocks, hpass.evacuated] at hblocks
    cases hblocks
  · intro hsent hist' s' j' snapshots hr' hc hs' hj' hid haway
    have hsent' : j'.requeueSent = true :=
      requeueSent_continues hr hr' hc hs hs' ⟨j, hj, hid.symm, hsent⟩ hj'
    apply passes_of_evacuated
    apply (jobEvacuated_iff _ _ _).mpr
    exact ⟨fun c hc hroot _ => haway c hc hroot, Or.inl hsent'⟩

/-- The job waits in the queue, without a requeue by the operator. -/
def waiting : World := { busy 0 with jobs := [sampleJob ["PENDING"] []] }

def waitingRun : List OperatorLog := replay sampleConfig "node" [] (completed [busy 0, waiting])

def runningElsewhere : Snapshots :=
  [("team/c", ⟨⟨"cluster", false⟩, [], [sampleJob ["RUNNING"] ["other"]]⟩)]

/-- The job is recorded as evacuated and runs away from the worker, but blocks. -/
def Stuck (s : RecoveryState) : Prop :=
  s.phase = .checkpointing ∧ ∃ j ∈ s.jobs, j.ident = ("team/c", 7) ∧ j.evacuated = true ∧
    Away j s runningElsewhere ∧ Blocks j s runningElsewhere

instance (s : RecoveryState) : Decidable (Stuck s) :=
  inferInstanceAs (Decidable (_ ∧ ∃ j ∈ s.jobs, _))

/-- After the job has started elsewhere the incident stays in Checkpointing. -/
theorem evacuated_job_blocks : Run sampleConfig "node" waitingRun ∧
    (∃ s, recorded waitingRun = some s ∧ Stuck s) ∧
    recorded (replay sampleConfig "node" waitingRun
      (completed [elsewhere (300 * second), elsewhere (600 * second)])) = recorded waitingRun := by
  have hstuck : (recorded waitingRun).any (fun s => decide (Stuck s)) = true := by decide +kernel
  obtain ⟨s, hs, hd⟩ := (Option.any_eq_true _ _).mp hstuck
  exact ⟨replay_run .start _, ⟨s, hs, of_decide_eq_true hd⟩, by decide +kernel⟩

/-- The job is requeued by the operator after the grace period. -/
theorem evacuation_stable_requeued : ∃ s j, recorded busyRun = some s ∧ j ∈ s.jobs ∧
    (Stable sampleConfig "node" busyRun j.ident ↔ j.requeueSent = true) := by
  have hjobs : (recorded busyRun).any (fun s => !s.jobs.isEmpty) = true := by decide +kernel
  obtain ⟨s, hs, hne⟩ := (Option.any_eq_true _ _).mp hjobs
  obtain ⟨j, hj⟩ := List.exists_mem_of_ne_nil s.jobs (by simpa using hne)
  exact ⟨s, j, hs, hj, evacuation_stable_iff (replay_run .start _) hs hj⟩

end HeteroCluster.EvacuationStable
