import HeteroCluster.RecoveryIncident
import Mathlib.Data.List.Sort

namespace HeteroCluster.AffectedJobs

open GoStrings SlurmJob RecoveryIncident

structure Cluster where
  uid : String
  checkpointing : Bool
  deriving DecidableEq, Repr

structure Snapshot where
  cluster : Cluster := ⟨"", false⟩
  nodes : List Node := []
  jobs : List Job := []
  deriving DecidableEq, Repr

/-- The snapshots by cluster key, in the order in which they are visited. -/
abbrev Snapshots := List (String × Snapshot)

def snapshotOf (snapshots : Snapshots) (key : String) : Snapshot :=
  (snapshots.lookup key).getD {}

def Snapshot.node (s : Snapshot) (name : String) : Option Node :=
  s.nodes.reverse.find? (fun n => n.name == name)

def newJob (key : String) (root : UInt32) : RecoveryJob :=
  let parts := cut key '/'
  { clusterNamespace := parts.1, clusterName := parts.2.1, id := root }

def addSnapshotJobs (key : String) (workers : List String) :
    List RecoveryJob × Bool → List Job → List RecoveryJob × Bool
  | acc, [] => acc
  | (jobs, changed), job :: rest =>
    if job.terminal || !job.usesAnyNode workers then
      addSnapshotJobs key workers (jobs, changed) rest
    else if jobs.any (fun item => item.cluster == key && item.id == job.rootID) then
      addSnapshotJobs key workers (jobs, changed) rest
    else addSnapshotJobs key workers (jobs ++ [newJob key job.rootID], true) rest

def jobOrder (a b : RecoveryJob) : Bool :=
  decide (a.cluster < b.cluster) || (a.cluster == b.cluster && decide (a.id.toNat ≤ b.id.toNat))

def addAllJobs (state : RecoveryState) :
    List RecoveryJob × Bool → Snapshots → List RecoveryJob × Bool
  | acc, [] => acc
  | acc, (key, snapshot) :: rest =>
    addAllJobs state (addSnapshotJobs key (workerNames state key) acc snapshot.jobs) rest

def addAffectedJobs (state : RecoveryState) (snapshots : Snapshots) : RecoveryState × Bool :=
  let result := addAllJobs state (state.jobs, false) snapshots
  ({ state with jobs := result.1.mergeSort jobOrder }, result.2)

/-- The root of a job that is not finished and uses one of the workers. -/
def Affects (workers : List String) (job : Job) : Prop :=
  job.terminal = false ∧ job.usesAnyNode workers = true

theorem newJob_cluster {key : String} (hk : '/' ∈ key.toList) (root : UInt32) :
    (newJob key root).cluster = key := by
  obtain ⟨before, after, hc, he⟩ := cut_of_mem key '/' hk
  simpa [newJob, RecoveryJob.cluster, clusterKey, hc] using he

theorem clusterKey_slash (ns name : String) : '/' ∈ (clusterKey ns name).toList := by
  simp [clusterKey]

theorem newJob_ident {key : String} (hk : '/' ∈ key.toList) (root : UInt32) :
    RecoveryJob.ident (newJob key root) = (key, root) := by
  rw [RecoveryJob.ident, newJob_cluster hk]
  rfl

section Extends

/-- The entries `new` behind the entries `jobs`, for the roots that are wanted. -/
structure Extends (wanted : String × UInt32 → Prop) (jobs new : List RecoveryJob) : Prop where
  fresh : ∀ e ∈ new, ∃ k, wanted k ∧ e = newJob k.1 k.2
  covered : ∀ k, wanted k → k ∈ (jobs ++ new).map RecoveryJob.ident
  once : (jobs.map RecoveryJob.ident).Nodup → ((jobs ++ new).map RecoveryJob.ident).Nodup

variable {wanted wanted' both : String × UInt32 → Prop} {jobs new more : List RecoveryJob}

theorem Extends.nil (h : ∀ k, wanted k → k ∈ jobs.map RecoveryJob.ident) :
    Extends wanted jobs [] := by
  refine ⟨by simp, ?_, ?_⟩
  · rw [List.append_nil]
    exact h
  · rw [List.append_nil]
    exact id

theorem Extends.single {key : String} {root : UInt32} (hk : '/' ∈ key.toList)
    (h : (key, root) ∉ jobs.map RecoveryJob.ident) (hw : ∀ k, wanted k ↔ k = (key, root)) :
    Extends wanted jobs [newJob key root] := by
  refine ⟨?_, ?_, ?_⟩
  · intro e he
    exact ⟨(key, root), (hw _).mpr rfl, List.mem_singleton.mp he⟩
  · intro k hwanted
    rw [(hw k).mp hwanted, List.map_append, List.map_singleton, newJob_ident hk]
    simp
  · intro hnd
    rw [List.map_append, List.map_singleton, newJob_ident hk, ← List.concat_eq_append]
    exact hnd.concat h

theorem Extends.append (h : Extends wanted jobs new) (h' : Extends wanted' (jobs ++ new) more)
    (hw : ∀ k, both k ↔ wanted k ∨ wanted' k) : Extends both jobs (new ++ more) := by
  refine ⟨?_, ?_, ?_⟩
  · intro e he
    cases List.mem_append.mp he with
    | inl he =>
      obtain ⟨k, hk, hr⟩ := h.fresh e he
      exact ⟨k, (hw k).mpr (Or.inl hk), hr⟩
    | inr he =>
      obtain ⟨k, hk, hr⟩ := h'.fresh e he
      exact ⟨k, (hw k).mpr (Or.inr hk), hr⟩
  · intro k hk
    rw [← List.append_assoc]
    cases (hw k).mp hk with
    | inl hk =>
      rw [List.map_append]
      exact List.mem_append_left _ (h.covered k hk)
    | inr hk => exact h'.covered k hk
  · intro hnd
    rw [← List.append_assoc]
    exact h'.once (h.once hnd)

end Extends

theorem addSnapshotJobs_cons {key : String} (hk : '/' ∈ key.toList) (workers : List String)
    (jobs : List RecoveryJob) (changed : Bool) (j : Job) (js : List Job) :
    ∃ new, addSnapshotJobs key workers (jobs, changed) (j :: js) =
        addSnapshotJobs key workers (jobs ++ new, changed || !new.isEmpty) js ∧
      Extends (fun k => Affects workers j ∧ k = (key, j.rootID)) jobs new := by
  rw [addSnapshotJobs]
  split
  next hskip =>
    refine ⟨[], by simp, Extends.nil ?_⟩
    rintro k ⟨⟨ht, hu⟩, -⟩
    simp [ht, hu] at hskip
  next hkeep =>
    have hj : Affects workers j := by simpa [Affects] using hkeep
    have hin : jobs.any (fun item => item.cluster == key && item.id == j.rootID) = true ↔
        (key, j.rootID) ∈ jobs.map RecoveryJob.ident := by
      simp [RecoveryJob.ident]
    split
    next hthere =>
      refine ⟨[], by simp, Extends.nil ?_⟩
      rintro k ⟨-, rfl⟩
      exact hin.mp hthere
    next hmissing =>
      refine ⟨[newJob key j.rootID], by simp, Extends.single hk (fun h => hmissing (hin.mpr h)) ?_⟩
      intro k
      exact and_iff_right hj

theorem addSnapshotJobs_spec {key : String} (hk : '/' ∈ key.toList) (workers : List String)
    (jobs : List RecoveryJob) (changed : Bool) (js : List Job) :
    ∃ new, addSnapshotJobs key workers (jobs, changed) js = (jobs ++ new, changed || !new.isEmpty) ∧
      Extends (fun k => ∃ j ∈ js, Affects workers j ∧ k = (key, j.rootID)) jobs new := by
  induction js generalizing jobs changed with
  | nil => exact ⟨[], by simp [addSnapshotJobs], Extends.nil (by simp)⟩
  | cons j js ih =>
    obtain ⟨new, he, hnew⟩ := addSnapshotJobs_cons hk workers jobs changed j js
    obtain ⟨more, he', hmore⟩ := ih (jobs ++ new) (changed || !new.isEmpty)
    refine ⟨new ++ more, ?_, hnew.append hmore (by simp)⟩
    rw [he, he', List.append_assoc]
    cases new <;> simp

theorem addAllJobs_spec (state : RecoveryState) (snapshots : Snapshots)
    (hk : ∀ p ∈ snapshots, '/' ∈ p.1.toList) (jobs : List RecoveryJob) (changed : Bool) :
    ∃ new, addAllJobs state (jobs, changed) snapshots = (jobs ++ new, changed || !new.isEmpty) ∧
      Extends (fun k => ∃ p ∈ snapshots, ∃ j ∈ p.2.jobs, Affects (workerNames state p.1) j ∧
        k = (p.1, j.rootID)) jobs new := by
  induction snapshots generalizing jobs changed with
  | nil => exact ⟨[], by simp [addAllJobs], Extends.nil (by simp)⟩
  | cons p rest ih =>
    obtain ⟨new, he, hnew⟩ := addSnapshotJobs_spec (hk p (by simp)) (workerNames state p.1) jobs
      changed p.2.jobs
    obtain ⟨more, he', hmore⟩ := ih (fun q hq => hk q (by simp [hq])) (jobs ++ new)
      (changed || !new.isEmpty)
    refine ⟨new ++ more, ?_, hnew.append hmore (by simp)⟩
    rw [addAllJobs, he, he', List.append_assoc]
    cases new <;> simp

theorem jobOrder_trans (a b c : RecoveryJob) (hab : jobOrder a b = true)
    (hbc : jobOrder b c = true) : jobOrder a c = true := by
  simp only [jobOrder, Bool.or_eq_true, Bool.and_eq_true, decide_eq_true_eq, beq_iff_eq] at *
  cases hab with
  | inl h =>
    cases hbc with
    | inl h' => exact Or.inl (h.trans h')
    | inr h' => exact Or.inl (h'.1 ▸ h)
  | inr h =>
    cases hbc with
    | inl h' => exact Or.inl (h.1 ▸ h')
    | inr h' => exact Or.inr ⟨h.1.trans h'.1, h.2.trans h'.2⟩

theorem jobOrder_total (a b : RecoveryJob) : (jobOrder a b || jobOrder b a) = true := by
  simp only [jobOrder, Bool.or_eq_true, Bool.and_eq_true, decide_eq_true_eq, beq_iff_eq]
  obtain h | h | h := lt_trichotomy a.cluster b.cluster
  · exact .inl (.inl h)
  · obtain hi | hi := Nat.le_total a.id.toNat b.id.toNat
    · exact .inl (.inr ⟨h, hi⟩)
    · exact .inr (.inr ⟨h.symm, hi⟩)
  · exact .inr (.inl h)

/-- The affected jobs after a pass: the earlier entries, then one fresh entry
for each root that was missing, all in order. -/
theorem addAffectedJobs_spec (state : RecoveryState) (snapshots : Snapshots)
    (hk : ∀ p ∈ snapshots, '/' ∈ p.1.toList) :
    ∃ new, (addAffectedJobs state snapshots).1 =
        { state with jobs := (state.jobs ++ new).mergeSort jobOrder } ∧
      (addAffectedJobs state snapshots).2 = !new.isEmpty ∧
      (∀ e ∈ new, ∃ p ∈ snapshots, ∃ j ∈ p.2.jobs,
        Affects (workerNames state p.1) j ∧ e = newJob p.1 j.rootID) ∧
      (∀ p ∈ snapshots, ∀ j ∈ p.2.jobs, Affects (workerNames state p.1) j →
        (p.1, j.rootID) ∈ (state.jobs ++ new).map RecoveryJob.ident) ∧
      ((state.jobs.map RecoveryJob.ident).Nodup →
        ((state.jobs ++ new).map RecoveryJob.ident).Nodup) := by
  obtain ⟨new, he, hnew⟩ := addAllJobs_spec state snapshots hk state.jobs false
  refine ⟨new, by simp [addAffectedJobs, he], by simp [addAffectedJobs, he], ?_, ?_, hnew.once⟩
  · intro e hm
    obtain ⟨k, ⟨p, hp, j, hj, ha, rfl⟩, hr⟩ := hnew.fresh e hm
    exact ⟨p, hp, j, hj, ha, hr⟩
  · intro p hp j hj ha
    exact hnew.covered _ ⟨p, hp, j, hj, ha, rfl⟩

end HeteroCluster.AffectedJobs
