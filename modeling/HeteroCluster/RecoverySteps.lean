import HeteroCluster.RecoveryEvidence

namespace HeteroCluster.RecoverySteps

open GoStrings RecoveryIncident AffectedJobs CallProgram OperatorCalls RecoveryIsolation
open RecoveryEvacuation RecoveryVerifier RecoveryReconcile RecoveryEvidence

inductive JobStep (log : OperatorLog) (s : RecoveryState) (j : RecoveryJob) : RecoveryJob → Prop
  | evacuated (snapshots : Snapshots) (hp : s.phase = .draining ∨ s.phase = .checkpointing)
      (ho : Observed log s snapshots)
      (he : jobEvacuated j s (snapshotOf snapshots j.cluster).jobs = true) :
      JobStep log s j { j with evacuated := true }
  | signalRequested (t : Time) (hp : s.phase = .draining) :
      JobStep log s j { j with signalRequestedAt := some t }
  | signalSent (hp : s.phase = .draining)
      (hc : (⟨.signalJob j.cluster j.id "USR1", .ok ()⟩ : Event Reply) ∈ log) :
      JobStep log s j { j with signalSent := true }
  | checkpointSeen (hp : s.phase = .checkpointing) : JobStep log s j { j with checkpointSeen := true }
  | requeueRequested (t : Time) (hp : s.phase = .checkpointing) :
      JobStep log s j { j with requeueRequestedAt := some t }
  | requeueSent (hp : s.phase = .checkpointing)
      (hc : (⟨.requeueJob j.cluster j.id, .ok ()⟩ : Event Reply) ∈ log) :
      JobStep log s j { j with requeueSent := true }

/-- What discovery may add: workers come with their clusters, in order. -/
structure Discovered (s found : RecoveryState) : Prop where
  same : found = { s with clusters := found.clusters, workers := found.workers }
  clusters : s.clusters ⊆ found.clusters
  workers : s.workers ⊆ found.workers
  covered : (∀ w ∈ s.workers, ∃ c ∈ s.clusters, c.key = w.cluster) →
    ∀ w ∈ found.workers, ∃ c ∈ found.clusters, c.key = w.cluster
  clustersSorted : found.clusters.Pairwise (fun a b => clusterOrder a b = true)
  workersSorted : found.workers.Pairwise (fun a b => workerOrder a b = true)

/-- The phase changes that carry no evidence of their own. -/
inductive PhaseStep (s : RecoveryState) : Phase → Prop
  | isolated (h : s.phase = .isolated) : PhaseStep s .draining
  | again (h : s.phase = .checkpointing ∨ s.phase = .requeued) : PhaseStep s .draining
  | signalled (h : s.phase = .draining) : PhaseStep s .checkpointing
  | idle (h : s.phase = .draining) (hj : s.jobs = []) : PhaseStep s .requeued
  | requeued (h : s.phase = .checkpointing) : PhaseStep s .requeued

/-- Everything a save can do to the recorded state of a running incident. -/
inductive Step (cfg : Config) (log : OperatorLog) (s : RecoveryState) : RecoveryState → Prop
  | discover {found : RecoveryState} (hp : s.phase.evacuating) (hd : Discovered s found) :
      Step cfg log s found
  | addJobs (snapshots : Snapshots) (hp : s.phase.evacuating) (ho : Observed log s snapshots) :
      Step cfg log s (addAffectedJobs s snapshots).1
  | job {before rest : List RecoveryJob} {j j' : RecoveryJob} (hs : s.jobs = before ++ j :: rest)
      (hj : JobStep log s j j') : Step cfg log s (withJobs s before j' rest)
  | move {p : Phase} (t : Time) (hp : PhaseStep s p) :
      Step cfg log s { s with phase := p, phaseStartedAt := t }
  | requestReboot (snapshots : Snapshots) (t t' : Time) (hp : s.phase = .requeued)
      (hb : Barrier log s snapshots) :
      Step cfg log s
        { s with rebootRequestedAt := some t, phase := .rebootRequested, phaseStartedAt := t' }
  | acknowledged (t : Time) (hp : s.phase = .rebootRequested)
      (ha : ∃ name node, (⟨.getNode name, .ok node⟩ : Event Reply) ∈ log ∧
        get node.annotations rebootAckKey = s.incident) :
      Step cfg log s { s with phase := .rebooting, phaseStartedAt := t }
  | booted {b : String} (hp : s.phase = .rebooting) (hn : s.newBootID = "") (hb : b ≠ "")
      (hc : b ≠ s.preBootID) : Step cfg log s { s with newBootID := b, readySince := none }
  | ready (r : Option Time) (hp : s.phase = .rebooting) : Step cfg log s { s with readySince := r }
  | verificationStarted (t : Time) (hp : s.phase = .rebooting) (hi : InventoryMatches log s) :
      Step cfg log s { s with verificationStarted := some t }
  | verify (t : Time) (hp : s.phase = .rebooting) (hi : InventoryMatches log s) :
      Step cfg log s { s with phase := .verifying, phaseStartedAt := t }
  | passed (hp : s.phase = .verifying) (hv : Verified cfg log s) :
      Step cfg log s { s with verificationPassed := true }
  | manualRepair (reason request : String) (t : Time) (hp : s.phase.rebootOrLater) :
      Step cfg log s
        { s with terminalReason := reason, manualRequest := request
                 phase := .manualRepair, phaseStartedAt := t }

/-- The ways an incident starts: a raw fault, a Node left over without its
record, or a request of an administrator after manual repair. -/
inductive Start (cfg : Config) (log : OperatorLog) : Option RecoveryState → RecoveryState → Prop
  | fault (node : Node) (now : Time) (incident : String) (hr : ReadRaw log .conditionTrue) :
      Start cfg log none (initialState node now incident)
  | missing (node : Node) (now : Time) (incident : String)
      (hi : get node.annotations recoveryIncidentKey ≠ "") :
      Start cfg log none { initialState node now incident with
        phase := .manualRepair, terminalReason := "durable recovery state is missing" }
  | request {s : RecoveryState} (node : Node) (now : Time) (incident : String)
      (hr : ReadRaw log .conditionFalse) (hn : repairRequested cfg node .conditionFalse s) :
      Start cfg log (some s) { initialState node now incident with
        incident := get node.annotations recoveryRequestKey
        manualRequest := get node.annotations recoveryRequestKey }

/-- A save either starts an incident or continues the recorded one. -/
inductive Save (cfg : Config) (log : OperatorLog) : Option RecoveryState → RecoveryState → Prop
  | start {old : Option RecoveryState} {s : RecoveryState} (h : Start cfg log old s) :
      Save cfg log old s
  | step {s s' : RecoveryState} (h : Step cfg log s s') : Save cfg log (some s) s'

/-- An action on a Slurm job: the job a call acts on, and the mark that records
the action. -/
structure JobAction where
  target : Call → Option (String × UInt32)
  marked : RecoveryJob → Bool

def signalAction : JobAction where
  target := fun c => match c with
    | .signalJob cluster id _ => some (cluster, id)
    | _ => none
  marked := RecoveryJob.signalSent

def requeueAction : JobAction where
  target := fun c => match c with
    | .requeueJob cluster id => some (cluster, id)
    | _ => none
  marked := RecoveryJob.requeueSent

/-- An action is taken on a recorded job that is not marked, and for the first
time in this log. -/
def FirstCall (stored : Option RecoveryState) (log : OperatorLog) (act : JobAction)
    (k : String × UInt32) : Prop :=
  (∀ e ∈ log, act.target e.1 ≠ some k) ∧
    ∃ s j, stored = some s ∧ j ∈ s.jobs ∧ j.ident = k ∧ act.marked j = false

def Good (cfg : Config) (stored : Option RecoveryState) (log : OperatorLog) : Event Reply → Prop
  | ⟨.saveState s, _⟩ => Save cfg log (storedAfter stored log) s
  | ⟨.signalJob cluster id signal, _⟩ =>
      signal = "USR1" ∧ FirstCall (storedAfter stored log) log signalAction (cluster, id)
  | ⟨.requeueJob cluster id, _⟩ => FirstCall (storedAfter stored log) log requeueAction (cluster, id)
  | ⟨.setHealthy, _⟩ => ∀ s, storedAfter stored log = some s → Cleared cfg log s
  | _ => True

/-- The entries of a recorded state are in order, without repetition, and no
worker or job is recorded without its cluster. -/
structure WellFormed (s : RecoveryState) : Prop where
  clustersSorted : s.clusters.Pairwise (fun a b => clusterOrder a b = true)
  workersSorted : s.workers.Pairwise (fun a b => workerOrder a b = true)
  jobsSorted : s.jobs.Pairwise (fun a b => jobOrder a b = true)
  jobsNodup : (s.jobs.map RecoveryJob.ident).Nodup
  workersCovered : ∀ w ∈ s.workers, ∃ c ∈ s.clusters, c.key = w.cluster
  jobsCovered : ∀ j ∈ s.jobs, ∃ c ∈ s.clusters, c.key = j.cluster

variable {cfg : Config} {log : OperatorLog} {s s' : RecoveryState}

theorem JobStep.same {j j' : RecoveryJob} (h : JobStep log s j j') :
    j'.cluster = j.cluster ∧ j'.id = j.id := by
  cases h <;> exact ⟨rfl, rfl⟩

theorem JobStep.ident_eq {j j' : RecoveryJob} (h : JobStep log s j j') : j'.ident = j.ident := by
  rw [RecoveryJob.ident, h.same.1, h.same.2, RecoveryJob.ident]

theorem WellFormed.discover {found : RecoveryState} (h : WellFormed s) (hd : Discovered s found) :
    WellFormed found where
  clustersSorted := hd.clustersSorted
  workersSorted := hd.workersSorted
  jobsSorted := by
    rw [hd.same]
    exact h.jobsSorted
  jobsNodup := by
    rw [hd.same]
    exact h.jobsNodup
  workersCovered := hd.covered h.workersCovered
  jobsCovered := by
    intro j hj
    rw [hd.same] at hj
    obtain ⟨c, hc, he⟩ := h.jobsCovered j hj
    exact ⟨c, hd.clusters hc, he⟩

theorem WellFormed.addJobs {snapshots : Snapshots} (h : WellFormed s)
    (ho : Observed log s snapshots) : WellFormed (addAffectedJobs s snapshots).1 := by
  have hk : ∀ p ∈ snapshots, '/' ∈ p.1.toList := fun p hp => (ho.answered p hp).key
  obtain ⟨new, he, -, hnew, -, hnd⟩ := addAffectedJobs_spec s snapshots hk
  rw [he]
  refine ⟨h.clustersSorted, h.workersSorted, ?_, ?_, h.workersCovered, ?_⟩
  · exact List.pairwise_mergeSort jobOrder_trans jobOrder_total _
  · exact ((List.mergeSort_perm _ _).map _).nodup_iff.mpr (hnd h.jobsNodup)
  · intro j hj
    obtain hj | hj := List.mem_append.mp (List.mem_mergeSort.mp hj)
    · exact h.jobsCovered j hj
    · obtain ⟨p, hp, job, -, ha, rfl⟩ := hnew j hj
      obtain ⟨name, -, hm⟩ := (SlurmJob.Job.usesAnyNode_iff job _).mp ha.2
      obtain ⟨w, hw, hc, -⟩ := (mem_workerNames s p.1 name).mp hm
      rw [newJob_cluster (hk p hp), ← hc]
      exact h.workersCovered w hw

theorem WellFormed.job {before rest : List RecoveryJob} {j j' : RecoveryJob} (h : WellFormed s)
    (hs : s.jobs = before ++ j :: rest) (hj : JobStep log s j j') :
    WellFormed (withJobs s before j' rest) := by
  have hsorted := h.jobsSorted
  have hnd := h.jobsNodup
  have hcov := h.jobsCovered
  rw [hs] at hsorted hnd hcov
  refine ⟨h.clustersSorted, h.workersSorted, ?_, ?_, h.workersCovered, ?_⟩
  · have hl : ∀ a, jobOrder j' a = jobOrder j a := by
      intro a
      rw [jobOrder, hj.same.1, hj.same.2, jobOrder]
    have hr : ∀ a, jobOrder a j' = jobOrder a j := by
      intro a
      rw [jobOrder, hj.same.1, hj.same.2, jobOrder]
    simpa [withJobs, List.pairwise_append, hl, hr] using hsorted
  · simpa [withJobs, hj.ident_eq] using hnd
  · intro k hk
    obtain hk | hk := List.mem_append.mp hk
    · exact hcov k (List.mem_append_left _ hk)
    · obtain rfl | hk := List.mem_cons.mp hk
      · rw [hj.same.1]
        exact hcov j (by simp)
      · exact hcov k (by simp [hk])

theorem Step.wellFormed (h : Step cfg log s s') (hw : WellFormed s) : WellFormed s' := by
  cases h with
  | discover _ hd => exact hw.discover hd
  | addJobs snapshots _ ho => exact hw.addJobs ho
  | job hs hj => exact hw.job hs hj
  | _ =>
    exact ⟨hw.clustersSorted, hw.workersSorted, hw.jobsSorted, hw.jobsNodup, hw.workersCovered,
      hw.jobsCovered⟩

theorem Start.wellFormed {old : Option RecoveryState} (h : Start cfg log old s) : WellFormed s := by
  cases h <;> constructor <;> simp [initialState]

theorem Save.wellFormed {old : Option RecoveryState} (h : Save cfg log old s')
    (hw : ∀ s, old = some s → WellFormed s) : WellFormed s' := by
  cases h with
  | start h => exact h.wellFormed
  | step h => exact h.wellFormed (hw _ rfl)

end HeteroCluster.RecoverySteps
