import HeteroCluster.RecoveryRuns

namespace HeteroCluster.RebootBarrier

open GoStrings RecoveryIncident AffectedJobs CallProgram OperatorCalls RecoveryIsolation
open RecoveryEvidence RecoverySteps RecoveryRuns

/-- The phases as an automaton: what an incident may do next. -/
inductive Edge : Phase → Phase → Prop
  | isolated_draining : Edge .isolated .draining
  | draining_checkpointing : Edge .draining .checkpointing
  | draining_requeued : Edge .draining .requeued
  | checkpointing_draining : Edge .checkpointing .draining
  | checkpointing_requeued : Edge .checkpointing .requeued
  | requeued_draining : Edge .requeued .draining
  | requeued_rebootRequested : Edge .requeued .rebootRequested
  | rebootRequested_rebooting : Edge .rebootRequested .rebooting
  | rebootRequested_manualRepair : Edge .rebootRequested .manualRepair
  | rebooting_verifying : Edge .rebooting .verifying
  | rebooting_manualRepair : Edge .rebooting .manualRepair
  | verifying_manualRepair : Edge .verifying .manualRepair

/-- Two successive records of an incident, the newer one first. -/
structure Follows (new old : Entry) : Prop where
  incident : new.2.incident = old.2.incident
  phase : new.2.phase = old.2.phase ∨ Edge old.2.phase new.2.phase

/-- The reboot barrier, as the log of a reconcile shows it: the snapshots, the
affected jobs among them, their evacuation, and the removal of the workers. -/
structure BarrierMet (log : OperatorLog) (s : RecoveryState) (snapshots : Snapshots) : Prop where
  snapshot : ∀ w ∈ s.workers, ∃ snapshot, snapshots.lookup w.cluster = some snapshot
  answered : ∀ p ∈ snapshots, Answered log p
  recorded : ∀ p ∈ snapshots, ∀ job ∈ p.2.jobs, job.terminal = false →
    job.usesAnyNode (workerNames s p.1) = true → ∃ j ∈ s.jobs, j.cluster = p.1 ∧ j.id = job.rootID
  evacuated : ∀ j ∈ s.jobs, ∃ snapshot, snapshots.lookup j.cluster = some snapshot ∧
    jobEvacuated j s snapshot.jobs = true
  gone : ∀ w ∈ s.workers, Gone log w

variable {cfg : Config} {name : String} {hist : List OperatorLog} {log : OperatorLog}
variable {s s' : RecoveryState}

theorem Step.incident_eq (h : Step cfg log s s') : s'.incident = s.incident := by
  cases h with
  | discover _ hd => rw [hd.same]
  | _ => rfl

theorem Step.phase_cases (h : Step cfg log s s') :
    s'.phase = s.phase ∧ s.phase ≠ .rebootRequested ∨ Edge s.phase s'.phase := by
  cases h with
  | discover hp hd =>
    refine .inl ⟨by rw [hd.same], ?_⟩
    rintro he
    simp [he, Phase.evacuating] at hp
  | addJobs _ hp _ =>
    refine .inl ⟨rfl, ?_⟩
    rintro he
    simp [he, Phase.evacuating] at hp
  | job _ hj =>
    refine .inl ⟨rfl, ?_⟩
    obtain hp | hp := JobStep.phase hj <;> simp [hp]
  | move _ hp =>
    right
    cases hp with
    | isolated h => rw [h]; exact .isolated_draining
    | again h =>
      obtain h | h := h <;> rw [h]
      · exact .checkpointing_draining
      · exact .requeued_draining
    | signalled h => rw [h]; exact .draining_checkpointing
    | idle h => rw [h]; exact .draining_requeued
    | requeued h => rw [h]; exact .checkpointing_requeued
  | requestReboot _ _ _ hp _ => rw [hp]; exact .inr .requeued_rebootRequested
  | acknowledged _ hp _ => rw [hp]; exact .inr .rebootRequested_rebooting
  | verify _ hp _ => rw [hp]; exact .inr .rebooting_verifying
  | passed hp _ => exact .inl ⟨rfl, by simp [hp]⟩
  | booted hp | ready _ hp | verificationStarted _ hp => exact .inl ⟨rfl, by simp [hp]⟩
  | manualRepair _ _ _ hp =>
    right
    cases hs : s.phase <;> simp only [hs, Phase.rebootOrLater] at hp
    · exact .rebootRequested_manualRepair
    · exact .rebooting_manualRepair
    · exact .verifying_manualRepair

theorem Incident.chain {trail : List Entry} (h : Incident cfg trail) : trail.IsChain Follows := by
  induction h with
  | none => exact .nil
  | start => exact .singleton _
  | step _ hs ih =>
    refine .cons_cons ⟨Step.incident_eq hs, ?_⟩ ih
    obtain h | h := Step.phase_cases hs
    · exact .inl h.1
    · exact .inr h

def requestsReboot (x : Entry) : Bool := x.2.phase == .rebootRequested

theorem Edge.from_evacuating {p q : Phase} (h : Edge p q) :
    (q = .rebootRequested → p.evacuating) ∧ (q.evacuating → p.evacuating) := by
  cases h <;> simp [Phase.evacuating]

theorem Step.from_evacuating (h : Step cfg log s s') :
    (s'.phase = .rebootRequested → s.phase.evacuating) ∧
      (s'.phase.evacuating → s.phase.evacuating) := by
  obtain ⟨hp, hr⟩ | he := Step.phase_cases h
  · rw [hp]
    exact ⟨fun h => absurd h hr, id⟩
  · exact he.from_evacuating

theorem Incident.requests {trail : List Entry} (h : Incident cfg trail) :
    trail.countP requestsReboot ≤ 1 ∧
      ∀ x ∈ trail.head?, x.2.phase.evacuating → trail.countP requestsReboot = 0 := by
  induction h with
  | none => simp
  | start hs => cases hs <;> simp [requestsReboot, initialState]
  | @step log log' s s' older _ hs ih =>
    obtain ⟨hle, hzero⟩ := ih
    obtain ⟨hrequest, hevac⟩ := Step.from_evacuating hs
    simp only [List.head?_cons, Option.mem_def, Option.some.injEq, forall_eq'] at hzero ⊢
    rw [List.countP_cons]
    by_cases hp : s'.phase = .rebootRequested
    · rw [hzero (hrequest hp)]
      simp [requestsReboot, hp, Phase.evacuating]
    · rw [if_neg (by simpa [requestsReboot] using hp)]
      exact ⟨hle, fun he => hzero (hevac he)⟩

theorem Incident.first {trail : List Entry} (h : Incident cfg trail) :
    ∀ x ∈ trail.getLast?, x.2.phase = .isolated ∨ x.2.phase = .manualRepair := by
  induction h with
  | none => simp
  | start hs => cases hs <;> simp [initialState]
  | step _ _ ih => simpa using ih

theorem Barrier.met {snapshots : Snapshots} (h : Barrier log s snapshots) (hw : WellFormed s) :
    BarrierMet log s snapshots where
  snapshot := by
    intro w hm
    obtain ⟨c, hc, hk⟩ := hw.workersCovered w hm
    exact hk ▸ h.observed.complete c hc
  answered := h.observed.answered
  recorded := by
    intro p hp job hj ht hu
    obtain ⟨j, hm, hid⟩ := List.mem_map.mp (h.recorded p hp job hj ⟨ht, hu⟩)
    obtain ⟨hc, hi⟩ := Prod.mk.inj hid
    exact ⟨j, hm, hc, hi⟩
  evacuated := by
    intro j hj
    obtain ⟨c, hc, hk⟩ := hw.jobsCovered j hj
    obtain ⟨snapshot, hs⟩ := h.observed.complete c hc
    rw [hk] at hs
    have he := h.evacuated j hj
    rw [snapshotOf, hs] at he
    exact ⟨snapshot, hs, he⟩
  gone := h.gone

theorem Step.requestReboot_inv (h : Step cfg log s s') (hp : s'.phase = .rebootRequested) :
    ∃ snapshots t t', Barrier log s snapshots ∧
      s' = { s with rebootRequestedAt := some t, phase := .rebootRequested, phaseStartedAt := t' } := by
  have hq : s.phase = .requeued := by
    obtain ⟨he, hn⟩ | he := Step.phase_cases h
    · exact absurd (he.symm.trans hp) hn
    · rw [hp] at he
      generalize s.phase = q at he
      cases he
      rfl
  cases h with
  | requestReboot snapshots t t' _ hb => exact ⟨snapshots, t, t', hb, rfl⟩
  | discover _ hd =>
    rw [hd.same] at hp
    exact absurd (hq.symm.trans hp) (by simp)
  | addJobs | job => exact absurd (hq.symm.trans hp) (by simp)
  | move _ hm => cases hm <;> simp at hp
  | _ => simp_all

theorem Save.barrier {old : Option RecoveryState} (h : Save cfg log old s)
    (hw : ∀ s, old = some s → WellFormed s) (hp : s.phase = .rebootRequested) :
    ∃ snapshots, BarrierMet log s snapshots := by
  cases h with
  | start h => cases h <;> simp [initialState] at hp
  | @step s₀ _ h =>
    obtain ⟨snapshots, t, t', hb, rfl⟩ := Step.requestReboot_inv h hp
    have hm := Barrier.met hb (hw s₀ rfl)
    exact ⟨snapshots, hm.snapshot, hm.answered, hm.recorded, hm.evacuated, hm.gone⟩

/-- In every run the records of an incident follow the automaton, the reboot
is requested at most once, and only behind the barrier. A run may end
anywhere, so this speaks about every moment and every incident. -/
theorem reboot_behind_barrier (h : Run cfg name hist) :
    (incidentTrail hist).IsChain Follows ∧
      (∀ x ∈ (incidentTrail hist).getLast?, x.2.phase = .isolated ∨ x.2.phase = .manualRepair) ∧
      (incidentTrail hist).countP requestsReboot ≤ 1 ∧
      ∀ earlier before s r after later,
        hist = earlier ++ (before ++ ⟨.saveState s, r⟩ :: after) :: later →
        s.phase = .rebootRequested → ∃ snapshots, BarrierMet before s snapshots := by
  have hi := h.incident.1
  refine ⟨Incident.chain hi, Incident.first hi, (Incident.requests hi).1, ?_⟩
  intro earlier before s r after later hh hp
  obtain ⟨hg, hr⟩ := h.good hh
  refine Save.barrier hg ?_ hp
  rw [← recorded_snoc]
  exact hr.wellFormed

/-- A job runs on the worker, is signalled, requeued and gone; then the worker
is removed and the reboot requested. -/
def evacuation : List World :=
  [{ node := sampleNode, pods := [samplePod], jobs := [sampleJob ["RUNNING"] ["worker"]] },
    { node := sampleNode, pods := [samplePod], jobs := [sampleJob ["RUNNING"] ["worker"]] },
    { node := sampleNode, pods := [samplePod], jobs := [sampleJob ["RUNNING"] ["worker"]]
      now := 200 * second },
    { node := sampleNode, pods := [samplePod], jobs := [sampleJob ["PENDING"] []] },
    { node := sampleNode, jobs := [sampleJob ["PENDING"] []] }]

theorem reboot_behind_barrier_evacuation :
    Run sampleConfig "node" (replay sampleConfig "node" [] (completed evacuation)) ∧
      (incidentTrail (replay sampleConfig "node" [] (completed evacuation))).countP requestsReboot = 1 ∧
      (incidentTrail (replay sampleConfig "node" [] (completed evacuation))).countP
        requestsReboot ≤ 1 :=
  have h := replay_run .start (completed evacuation)
  ⟨h, by decide +kernel, (reboot_behind_barrier h).2.2.1⟩

end HeteroCluster.RebootBarrier
