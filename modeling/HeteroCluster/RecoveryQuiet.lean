import HeteroCluster.RecoverySteps

namespace HeteroCluster.RecoveryQuiet

open GoStrings RecoveryIncident AffectedJobs CallProgram OperatorCalls RecoveryIsolation
open RecoveryEvacuation HardwareInventory RecoveryVerifier RecoveryReconcile RecoveryEvidence
open RecoverySteps

/-- Calls that neither touch the recorded state nor reach Slurm jobs. -/
def quiet : Call → Prop
  | .saveState _ | .deleteState _ | .signalJob _ _ _ | .requeueJob _ _ | .setHealthy => False
  | _ => True

/-- A function that makes quiet calls only, with what holds of its result. -/
abbrev Quietly {α : Type} (stored : Option RecoveryState) (p : Operator α) (log : OperatorLog)
    (post : α → OperatorLog → Prop) : Prop :=
  Ensures (allowed stored) (fun _ e => quiet e.1) p log post

variable {stored : Option RecoveryState} {log : OperatorLog}

theorem quiet_good {cfg : Config} (log : OperatorLog) (e : Event Reply) (h : quiet e.1) :
    Good cfg stored log e := by
  obtain ⟨c, r⟩ := e
  cases c <;> first | exact trivial | exact h.elim

theorem quiet_persist {e : Event Reply} (h : quiet e.1) : persist stored e = stored := by
  obtain ⟨c, r⟩ := e
  cases c <;> first | rfl | exact h.elim

theorem storedAfter_quiet {log' : OperatorLog} (h : Grows quiet log log') :
    storedAfter stored log' = storedAfter stored log := by
  obtain ⟨t, rfl, ht⟩ := h
  rw [storedAfter_append]
  induction t with
  | nil => rfl
  | cons e t ih =>
    rw [storedAfter, List.foldl_cons, quiet_persist (ht e (by simp))]
    exact ih fun e' he' => ht e' (by simp [he'])

theorem Quietly.perform {α : Type} {c : Call} {f : Reply c → Operator α}
    {post : α → OperatorLog → Prop} (hc : quiet c)
    (hf : ∀ r, allowed stored log ⟨c, r⟩ → Quietly stored (f r) (log ++ [⟨c, r⟩]) post) :
    Quietly stored (Program.perform c >>= f) log post :=
  Ensures.perform (fun _ _ => hc) hf

theorem Quietly.last {c : Call} (hc : quiet c) :
    Quietly stored (OperatorCalls.perform c) log (fun _ _ => True) :=
  fun _ _ => ⟨hc, trivial⟩

theorem newRecoveryState_spec (node : Node) :
    Quietly stored (newRecoveryState node) log
      (fun r _ => ∀ s, r = .ok s → ∃ now incident, s = initialState node now incident) := by
  refine Quietly.perform trivial fun now _ => ?_
  refine Quietly.perform trivial fun r _ => ?_
  split
  · simp
  · rename_i incident _
    rintro s ⟨⟩
    exact ⟨now, incident, rfl⟩

theorem loadState_spec (cfg : Config) (node : Node) :
    Quietly stored (loadState cfg node) log (fun r _ =>
      (r = .ok none → storedAfter stored log = none) ∧
      ∀ object s, r = .ok (some (object, s)) → storedAfter stored log = some s) := by
  refine Quietly.perform trivial fun r hr => ?_
  split
  · exact ⟨fun _ => hr, by simp⟩
  · simp
  · split
    · simp
    · refine ⟨by simp, ?_⟩
      rintro object s ⟨⟩
      exact hr

theorem setNodeCondition_spec (name : String) (status : ConditionStatus) (reason message : String) :
    Quietly stored (setNodeCondition name status reason message) log (fun _ _ => True) := by
  refine Quietly.perform trivial fun r _ => ?_
  split
  · trivial
  · refine Quietly.perform trivial fun now _ => ?_
    split
    · trivial
    · exact Quietly.last trivial
    · exact Quietly.last trivial

theorem patchChanged_spec (node copy : Node) :
    Quietly stored (patchChanged node copy) log (fun _ _ => True) := by
  unfold patchChanged
  split
  · trivial
  · exact Quietly.last trivial

theorem ensureIsolation_spec (node : Node) (state : RecoveryState) :
    Quietly stored (ensureIsolation node state) log (fun _ _ => True) := by
  apply (patchChanged_spec _ _).bind
  intro r _ _
  split
  · trivial
  · apply (setNodeCondition_spec _ _ _ _).bind
    intro r _ _
    split <;> trivial

/-- What the loop over the Pods of the Node adds to the state. -/
structure Collected (s found : RecoveryState) (changed changed' : Bool) : Prop where
  same : found = { s with clusters := found.clusters, workers := found.workers }
  clusters : s.clusters ⊆ found.clusters
  workers : s.workers ⊆ found.workers
  covered : (∀ w ∈ s.workers, ∃ c ∈ s.clusters, c.key = w.cluster) →
    ∀ w ∈ found.workers, ∃ c ∈ found.clusters, c.key = w.cluster
  unchanged : changed' = false → changed = false ∧ found = s

theorem Collected.refl (s : RecoveryState) (changed : Bool) : Collected s s changed changed :=
  ⟨rfl, fun _ h => h, fun _ h => h, id, fun h => ⟨h, rfl⟩⟩

theorem Collected.trans {a b c : RecoveryState} {x y z : Bool} (h : Collected a b x y)
    (h' : Collected b c y z) : Collected a c x z where
  same := by rw [h'.same, h.same]
  clusters := List.Subset.trans h.clusters h'.clusters
  workers := List.Subset.trans h.workers h'.workers
  covered := fun hc => h'.covered (h.covered hc)
  unchanged := fun hz => by
    obtain ⟨hy, rfl⟩ := h'.unchanged hz
    exact h.unchanged hy

theorem addCluster_spec (clusters : List RecoveryCluster) (c : RecoveryCluster) :
    clusters ⊆ (addCluster clusters c).1 ∧ (∃ d ∈ (addCluster clusters c).1, d.key = c.key) ∧
      ((addCluster clusters c).2 = false → (addCluster clusters c).1 = clusters) := by
  unfold addCluster
  split
  · rename_i h
    obtain ⟨d, hd, he⟩ := List.any_eq_true.mp h
    refine ⟨fun _ hx => hx, ⟨d, hd, ?_⟩, fun _ => rfl⟩
    simp only [Bool.and_eq_true, beq_iff_eq] at he
    rw [RecoveryCluster.key, he.1, he.2, RecoveryCluster.key]
  · exact ⟨by simp, ⟨c, by simp, rfl⟩, by simp⟩

theorem addWorker_spec (workers : List RecoveryWorker) (w : RecoveryWorker) :
    workers ⊆ (addWorker workers w).1 ∧ (∀ v ∈ (addWorker workers w).1, v ∈ workers ∨ v = w) ∧
      ((addWorker workers w).2 = false → (addWorker workers w).1 = workers) := by
  unfold addWorker
  split
  · exact ⟨fun _ hx => hx, fun v hv => .inl hv, fun _ => rfl⟩
  · exact ⟨by simp, by simp, by simp⟩

theorem recordPod_collected (s : RecoveryState) (pod : Pod) (owner : OwnerReference)
    (cluster : Cluster) (changed : Bool) :
    Collected s (recordPod s pod owner cluster).1 changed
      (changed || (recordPod s pod owner cluster).2) := by
  obtain ⟨hc, ⟨d, hd, hk⟩, hcu⟩ := addCluster_spec s.clusters ⟨pod.ns, owner.name, cluster.uid⟩
  obtain ⟨hw, hwm, hwu⟩ := addWorker_spec s.workers
    ⟨pod.ns, owner.name, pod.ns, pod.name, get pod.annotations workerClaimAnnotation⟩
  refine ⟨rfl, hc, hw, ?_, ?_⟩
  · intro hcov w hm
    obtain hm | rfl := hwm w hm
    · obtain ⟨c, hcm, he⟩ := hcov w hm
      exact ⟨c, hc hcm, he⟩
    · exact ⟨d, hd, hk⟩
  · intro h
    simp only [recordPod, Bool.or_eq_false_iff] at h
    refine ⟨h.1, ?_⟩
    simp only [recordPod, hcu h.2.1, hwu h.2.2]

theorem discoverPods_spec (pods : List Pod) (s : RecoveryState) (changed : Bool) :
    Quietly stored (discoverPods s changed pods) log
      (fun r _ => ∀ found changed', r = .ok (found, changed') →
        Collected s found changed changed') := by
  induction pods generalizing s changed log with
  | nil =>
    rintro found changed' ⟨⟩
    exact Collected.refl s changed
  | cons pod rest ih =>
    unfold discoverPods
    split
    · exact ih s changed
    · split
      · simp
      · rename_i owner _
        refine Quietly.perform trivial fun r _ => ?_
        split
        · simp
        · rename_i cluster _
          have hnext : ∀ log', Quietly stored (discoverPods (recordPod s pod owner cluster).1
              (changed || (recordPod s pod owner cluster).2) rest) log' (fun r _ =>
                ∀ found changed', r = .ok (found, changed') → Collected s found changed changed') :=
            fun log' => (ih _ _).mono fun r _ hr found changed' he =>
              (recordPod_collected s pod owner cluster changed).trans (hr found changed' he)
          split
          · simp
          · split
            · refine Quietly.perform trivial fun r _ => ?_
              split
              · exact hnext _
              · simp
              · exact hnext _
            · exact hnext _

theorem clusterOrder_trans (a b c : RecoveryCluster) (hab : clusterOrder a b = true)
    (hbc : clusterOrder b c = true) : clusterOrder a c = true := by
  simp only [clusterOrder, decide_eq_true_eq] at *
  exact hab.trans hbc

theorem clusterOrder_total (a b : RecoveryCluster) :
    (clusterOrder a b || clusterOrder b a) = true := by
  simpa [clusterOrder] using le_total a.key b.key

theorem workerOrder_trans (a b c : RecoveryWorker) (hab : workerOrder a b = true)
    (hbc : workerOrder b c = true) : workerOrder a c = true := by
  simp only [workerOrder, decide_eq_true_eq] at *
  exact hab.trans hbc

theorem workerOrder_total (a b : RecoveryWorker) :
    (workerOrder a b || workerOrder b a) = true := by
  simpa [workerOrder] using le_total a.key b.key

theorem sortWorkers_discovered {s found : RecoveryState} {changed : Bool}
    (h : Collected s found false changed) : Discovered s (sortWorkers found) where
  same := by rw [sortWorkers, h.same]
  clusters := List.Subset.trans h.clusters (List.mergeSort_perm _ _).symm.subset
  workers := List.Subset.trans h.workers (List.mergeSort_perm _ _).symm.subset
  covered := by
    intro hc w hw
    obtain ⟨c, hcm, he⟩ := h.covered hc w (List.mem_mergeSort.mp hw)
    exact ⟨c, List.mem_mergeSort.mpr hcm, he⟩
  clustersSorted := List.pairwise_mergeSort clusterOrder_trans clusterOrder_total found.clusters
  workersSorted := List.pairwise_mergeSort workerOrder_trans workerOrder_total found.workers

theorem sortWorkers_of_sorted {s : RecoveryState} (h : WellFormed s) : sortWorkers s = s := by
  rw [sortWorkers, List.mergeSort_of_pairwise h.clustersSorted,
    List.mergeSort_of_pairwise h.workersSorted]

theorem discoverWorkers_spec (node : Node) (s : RecoveryState) :
    Quietly stored (discoverWorkers node s) log
      (fun r _ => ∀ found changed, r = .ok (found, changed) →
        Discovered s found ∧ (WellFormed s → changed = false → found = s)) := by
  refine Quietly.perform trivial fun r _ => ?_
  split
  · simp
  · apply (discoverPods_spec _ _ _).bind
    intro r _ hr
    split
    · simp
    · rename_i found changed
      rintro _ _ ⟨⟩
      have hc := hr found changed rfl
      refine ⟨sortWorkers_discovered hc, ?_⟩
      intro hw hu
      rw [(hc.unchanged hu).2, sortWorkers_of_sorted hw]

theorem slurmSnapshots_spec (cs : List RecoveryCluster) (result : Snapshots)
    (ha : ∀ p ∈ result, Answered log p) :
    Quietly stored (slurmSnapshots result cs) log
      (fun r log' => ∀ snapshots, r = .ok snapshots → (∀ p ∈ snapshots, Answered log' p) ∧
        (∀ p ∈ result, ∃ q ∈ snapshots, q.1 = p.1) ∧ ∀ c ∈ cs, ∃ q ∈ snapshots, q.1 = c.key) := by
  induction cs generalizing result log with
  | nil =>
    rintro snapshots ⟨⟩
    exact ⟨ha, fun p hp => ⟨p, hp, rfl⟩, by simp⟩
  | cons reference rest ih =>
    refine Quietly.perform trivial fun r _ => ?_
    split
    · simp
    split
    · simp
    refine Quietly.perform trivial fun r _ => ?_
    split
    · simp
    refine Quietly.perform trivial fun r _ => ?_
    split
    · simp
    refine Quietly.perform trivial fun r _ => ?_
    split
    · simp
    rename_i cluster _ _ _ _ _ nodes _ _ jobs _
    refine (ih _ ?_).mono fun r log' hr snapshots he => ?_
    · intro p hp
      obtain hp | hp := List.mem_append.mp hp
      · exact (ha p (List.mem_of_mem_filter hp)).mono (by simp)
      · obtain rfl := List.mem_singleton.mp hp
        exact ⟨clusterKey_slash _ _, by simp, by simp⟩
    · obtain ⟨h, hold, hnew⟩ := hr snapshots he
      have hkey : ∃ q ∈ snapshots, q.1 = reference.key :=
        hold (reference.key, ⟨cluster, nodes, jobs⟩) (by simp)
      refine ⟨h, ?_, ?_⟩
      · intro p hp
        by_cases hk : p.1 = reference.key
        · rwa [hk]
        · exact hold p (List.mem_append_left _ (by simpa [hp] using hk))
      · intro c hc
        obtain rfl | hc := List.mem_cons.mp hc
        · exact hkey
        · exact hnew c hc

theorem slurmSnapshots_observed (s : RecoveryState) :
    Quietly stored (slurmSnapshots [] s.clusters) log
      (fun r log' => ∀ snapshots, r = .ok snapshots → Observed log' s snapshots) := by
  apply (slurmSnapshots_spec s.clusters [] (by simp)).mono
  intro r log' hr snapshots he
  obtain ⟨ha, -, hc⟩ := hr snapshots he
  refine ⟨ha, fun c hm => Option.isSome_iff_exists.mp (List.lookup_isSome_iff.mpr ?_)⟩
  obtain ⟨q, hq, hk⟩ := hc c hm
  exact ⟨q, hq, by simp [hk]⟩

theorem drainRecoveryWorkers_spec (incident : String) (snapshots : Snapshots)
    (ws : List RecoveryWorker) :
    Quietly stored (drainRecoveryWorkers incident snapshots ws) log (fun _ _ => True) := by
  induction ws generalizing log with
  | nil => trivial
  | cons w rest ih =>
    unfold drainRecoveryWorkers
    split
    · exact ih
    · split
      · exact ih
      · refine Quietly.perform trivial fun r _ => ?_
        split
        · trivial
        · exact ih

theorem graceOver_spec (job : RecoveryJob) (since : Time) :
    Quietly stored (graceOver job since) log (fun _ _ => True) := by
  unfold graceOver
  split
  · trivial
  · exact Quietly.perform trivial fun _ _ => trivial

theorem deleteSlurmNodes_spec (snapshots : Snapshots) (ws : List RecoveryWorker) :
    Quietly stored (deleteSlurmNodes snapshots ws) log (fun _ _ => True) := by
  induction ws generalizing log with
  | nil => trivial
  | cons w rest ih =>
    unfold deleteSlurmNodes
    split
    · exact ih
    · refine Quietly.perform trivial fun r _ => ?_
      split
      · trivial
      · exact ih

theorem removePod_spec (pod : Pod) :
    Quietly stored (removePod pod) log (fun _ _ => True) := by
  have hf : Quietly stored (removeFinalizer pod) log (fun _ _ => True) := by
    unfold removeFinalizer
    split
    · refine Quietly.perform trivial fun r _ => ?_
      split <;> trivial
    · trivial
  apply hf.bind
  intro r _ _
  split
  · trivial
  · split
    · trivial
    · refine Quietly.perform trivial fun r _ => ?_
      split <;> trivial

/-- The result `true` of the removal loop: every Pod and every claim was
observed absent. -/
theorem removeWorkers_spec (ws : List RecoveryWorker) (complete : Bool) :
    Quietly stored (removeWorkers complete ws) log
      (fun r log' => r = .ok true → complete = true ∧ ∀ w ∈ ws, Gone log' w) := by
  induction ws generalizing complete log with
  | nil =>
    intro h
    exact ⟨by simpa using h, by simp⟩
  | cons w rest ih =>
    have hskip : ∀ log', Quietly stored (removeWorkers false rest) log'
        (fun r log'' => r = .ok true → complete = true ∧ ∀ v ∈ w :: rest, Gone log'' v) :=
      fun log' => (ih false).mono fun r _ hr he => absurd (hr he).1 (by simp)
    have hkeep : ∀ log', Gone log' w → Quietly stored (removeWorkers complete rest) log'
        (fun r log'' => r = .ok true → complete = true ∧ ∀ v ∈ w :: rest, Gone log'' v) := by
      intro log' hg
      apply (ih complete).subset.mono
      intro r log'' hr he
      obtain ⟨hc, hrest⟩ := hr.1 he
      exact ⟨hc, List.forall_mem_cons.mpr ⟨hg.mono hr.2, hrest⟩⟩
    refine Quietly.perform trivial fun r _ => ?_
    split
    · apply (removePod_spec _).bind
      intro r log' _
      split
      · simp
      · exact hskip log'
    · split
      · rename_i hc
        exact hkeep _ ⟨by simp, fun h => absurd hc h⟩
      · refine Quietly.perform trivial fun r _ => ?_
        split
        · exact hskip _
        · exact hkeep _ ⟨by simp, fun _ => by simp⟩
        · simp
    · simp

theorem cleanupEvacuatedWorkers_spec (s : RecoveryState) (snapshots : Snapshots) :
    Quietly stored (cleanupEvacuatedWorkers s snapshots) log
      (fun r log' => r = .ok true →
        (∀ j ∈ s.jobs, jobEvacuated j s (snapshotOf snapshots j.cluster).jobs = true) ∧
        ∀ w ∈ s.workers, Gone log' w) := by
  unfold cleanupEvacuatedWorkers
  split
  · rename_i hj
    apply (deleteSlurmNodes_spec _ _).bind
    intro r log' _
    split
    · simp
    · exact (removeWorkers_spec _ _).mono fun r log' hr he =>
        ⟨List.all_eq_true.mp hj, (hr he).2⟩
  · simp

theorem ensureObject_ensures {α : Type} {good allowed : OperatorLog → Event Reply → Prop}
    {labels : α → StringMap} {owners : α → List OwnerReference} {kind owner incident name : String}
    {find : Operator (Except ApiError α)} {create : Operator (Except ApiError Unit)} {cfg : Config}
    (hfind : Ensures allowed good find log (fun _ _ => True))
    (hcreate : ∀ log, Ensures allowed good create log (fun _ _ => True)) :
    Ensures allowed good (ensureObject labels owners kind find create cfg owner incident name) log
      (fun _ _ => True) := by
  apply hfind.bind
  intro r log' _
  split
  · exact (hcreate log').bind fun _ _ _ => trivial
  · trivial
  · split <;> trivial

theorem ensureClaim_spec (cfg : Config) (owner incident : String) (object : VerifierObject) :
    Quietly stored (ensureClaim cfg owner incident object) log (fun _ _ => True) :=
  ensureObject_ensures (Quietly.perform trivial fun _ _ => trivial)
    (fun _ => Quietly.perform trivial fun _ _ => trivial)

theorem ensureJob_spec (cfg : Config) (owner incident : String) (object : VerifierObject) :
    Quietly stored (ensureJob cfg owner incident object) log (fun _ _ => True) :=
  ensureObject_ensures (Quietly.perform trivial fun _ _ => trivial)
    (fun _ => Quietly.perform trivial fun _ _ => trivial)

theorem ensureCells_spec (cfg : Config) (node : Node) (owner : String) (s : RecoveryState)
    (cells : List Cell) :
    Quietly stored (ensureCells cfg node owner s cells) log (fun _ _ => True) := by
  induction cells generalizing log with
  | nil => trivial
  | cons cell rest ih =>
    unfold ensureCells
    split
    · trivial
    · apply (ensureClaim_spec _ _ _ _).bind
      intro r _ _
      split
      · trivial
      · apply (ensureJob_spec _ _ _ _).bind
        intro r _ _
        split
        · trivial
        · exact ih

theorem ensureVerifierResources_spec (cfg : Config) (node : Node) (owner : String)
    (s : RecoveryState) :
    Quietly stored (ensureVerifierResources cfg node owner s) log (fun _ _ => True) := by
  unfold ensureVerifierResources
  split
  · trivial
  · exact ensureCells_spec _ _ _ _ _

theorem scanVerifiers_spec (cfg : Config) (incident : String) (cells : List Cell) (all : Bool) :
    Quietly stored (scanVerifiers cfg incident all cells) log
      (fun r log' => r = .finished true → all = true ∧ ∀ cell ∈ cells,
        ∃ job : JobObject, job.succeeded = 1 ∧ job.failed = 0 ∧
          (⟨.getJob cfg.ns (verifierName incident cell.numa), .ok job⟩ : Event Reply) ∈ log') := by
  induction cells generalizing all log with
  | nil =>
    intro h
    exact ⟨by simpa using h, by simp⟩
  | cons cell rest ih =>
    refine Quietly.perform trivial fun r _ => ?_
    split
    · simp
    · simp
    · split
      · simp
      · rename_i job _ hf
        apply (ih _).subset.mono
        intro r log' hr he
        obtain ⟨hall, hrest⟩ := hr.1 he
        simp only [Bool.and_eq_true, beq_iff_eq] at hall
        refine ⟨hall.1, List.forall_mem_cons.mpr ⟨⟨job, hall.2, ?_, hr.2 (by simp)⟩, hrest⟩⟩
        exact not_not.mp hf

theorem deleteVerifierResources_spec (cfg : Config) (incident : String) (cells : List Cell)
    (complete : Bool) :
    Quietly stored (deleteVerifierResources cfg incident complete cells) log
      (fun r log' => r = .ok true → complete = true ∧
        ∀ cell ∈ cells, VerifierGone cfg log' incident cell) := by
  induction cells generalizing complete log with
  | nil =>
    intro h
    exact ⟨by simpa using h, by simp⟩
  | cons cell rest ih =>
    have hskip : ∀ log', Quietly stored (deleteVerifierResources cfg incident false rest) log'
        (fun r log'' => r = .ok true → complete = true ∧
          ∀ c ∈ cell :: rest, VerifierGone cfg log'' incident c) :=
      fun log' => (ih false).mono fun r _ hr he => absurd (hr he).1 (by simp)
    refine Quietly.perform trivial fun r _ => ?_
    split
    · refine Quietly.perform trivial fun r _ => ?_
      split
      · apply (ih complete).subset.mono
        intro r log' hr he
        obtain ⟨hc, hrest⟩ := hr.1 he
        exact ⟨hc, List.forall_mem_cons.mpr ⟨⟨hr.2 (by simp), hr.2 (by simp)⟩, hrest⟩⟩
      · simp
      · exact hskip _
    · simp
    · refine Quietly.perform trivial fun r _ => ?_
      split
      · exact hskip _
      · simp
      · exact hskip _

end HeteroCluster.RecoveryQuiet
