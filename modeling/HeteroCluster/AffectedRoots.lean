import HeteroCluster.AffectedJobs
import HeteroCluster.SortedBy
import Mathlib.Data.Prod.Lex

namespace HeteroCluster.AffectedRoots

open GoStrings SlurmJob RecoveryIncident AffectedJobs SortedBy

/-- A snapshot is kept under its namespace and name, in which there is no slash. -/
def Keyed (snapshots : Snapshots) : Prop :=
  ∀ p ∈ snapshots, ∃ ns name, p.1 = clusterKey ns name ∧ '/' ∉ ns.toList ∧ '/' ∉ name.toList

/-- The root of a job that must leave the failed workers, with its cluster. -/
def Affected (state : RecoveryState) (snapshots : Snapshots) (k : String × UInt32) : Prop :=
  ∃ p ∈ snapshots, ∃ j ∈ p.2.jobs, Affects (workerNames state p.1) j ∧ k = (p.1, j.rootID)

def Sorted (jobs : List RecoveryJob) : Prop :=
  jobs.Pairwise (fun a b => a.cluster < b.cluster ∨ a.cluster = b.cluster ∧ a.id < b.id)

structure Extended (state : RecoveryState) (snapshots : Snapshots) (jobs : List RecoveryJob) :
    Prop where
  once : (jobs.map RecoveryJob.ident).Nodup
  sorted : Sorted jobs
  kept : ∀ job ∈ state.jobs, job ∈ jobs
  covered : ∀ k, Affected state snapshots k → k ∈ jobs.map RecoveryJob.ident
  new : ∀ job ∈ jobs, job ∉ state.jobs → ∃ ns name root, '/' ∉ ns.toList ∧ '/' ∉ name.toList ∧
    Affected state snapshots (clusterKey ns name, root) ∧
    job = { clusterNamespace := ns, clusterName := name, id := root }

section Members

variable {state : RecoveryState} {snapshots snapshots' : Snapshots}
  {wanted : String × UInt32 → Prop} {jobs new : List RecoveryJob} {job : RecoveryJob}

theorem Keyed.slash (h : Keyed snapshots) : ∀ p ∈ snapshots, '/' ∈ p.1.toList := by
  intro p hp
  obtain ⟨ns, name, hkey, -⟩ := h p hp
  rw [hkey]
  exact clusterKey_slash ns name

theorem newJob_clusterKey {ns name : String} (h : '/' ∉ ns.toList) (root : UInt32) :
    newJob (clusterKey ns name) root =
      { clusterNamespace := ns, clusterName := name, id := root } := by
  have hcut : cut (clusterKey ns name) '/' = (ns, name, true) := cut_append ns name '/' h
  rw [newJob, hcut]

theorem mem_new_iff (h : Extends wanted jobs new) (hslash : ∀ k, wanted k → '/' ∈ k.1.toList)
    (hnd : (jobs.map RecoveryJob.ident).Nodup) : job ∈ new ↔
      ∃ k, wanted k ∧ k ∉ jobs.map RecoveryJob.ident ∧ job = newJob k.1 k.2 := by
  have hall := h.once hnd
  rw [List.map_append, List.nodup_append] at hall
  constructor
  · intro hjob
    obtain ⟨k, hk, rfl⟩ := h.fresh job hjob
    refine ⟨k, hk, ?_, rfl⟩
    intro hold
    have hident : RecoveryJob.ident (newJob k.1 k.2) = k := newJob_ident (hslash k hk) k.2
    exact hall.2.2 k hold _ (List.mem_map_of_mem hjob) hident.symm
  · rintro ⟨k, hk, hnot, rfl⟩
    have hmem := h.covered k hk
    rw [List.map_append, List.mem_append] at hmem
    obtain ⟨e, he, hident⟩ := List.mem_map.mp (hmem.resolve_left hnot)
    obtain ⟨k', hk', rfl⟩ := h.fresh e he
    have hsame : k' = k := (newJob_ident (hslash k' hk') k'.2).symm.trans hident
    rw [← hsame]
    exact he

theorem newJob_of_affected (hkeys : Keyed snapshots) {k : String × UInt32}
    (hk : Affected state snapshots k) : ∃ ns name, '/' ∉ ns.toList ∧ '/' ∉ name.toList ∧
      k.1 = clusterKey ns name ∧
      newJob k.1 k.2 = { clusterNamespace := ns, clusterName := name, id := k.2 } := by
  obtain ⟨p, hp, j, -, -, rfl⟩ := hk
  obtain ⟨ns, name, hkey, hns, hname⟩ := hkeys p hp
  refine ⟨ns, name, hns, hname, hkey, ?_⟩
  rw [hkey]
  exact newJob_clusterKey hns j.rootID

end Members

section Order

variable {jobs jobs' : List RecoveryJob}

def rank (job : RecoveryJob) : String ×ₗ Nat := toLex (job.cluster, job.id.toNat)

theorem sorted_iff : Sorted jobs ↔ jobs.Pairwise (fun a b => rank a < rank b) := by
  simp only [Sorted, rank, Prod.Lex.toLex_lt_toLex, UInt32.lt_iff_toNat_lt]

theorem sorted_mergeSort (h : (jobs.map RecoveryJob.ident).Nodup) :
    Sorted (jobs.mergeSort jobOrder) := by
  have hle := List.pairwise_mergeSort jobOrder_trans jobOrder_total jobs
  have hnd := (((List.mergeSort_perm jobs jobOrder).map RecoveryJob.ident).nodup_iff).mpr h
  refine (hle.and (List.pairwise_map.mp hnd)).imp ?_
  rintro a b ⟨horder, hne⟩
  simp only [jobOrder, Bool.or_eq_true, Bool.and_eq_true, decide_eq_true_eq, beq_iff_eq] at horder
  refine horder.imp_right ?_
  rintro ⟨hcluster, hid⟩
  refine ⟨hcluster, UInt32.lt_iff_toNat_lt.mpr (lt_of_le_of_ne hid ?_)⟩
  intro heq
  exact hne (Prod.ext hcluster (UInt32.toNat_inj.mp heq))

end Order

section Pass

variable {state : RecoveryState} {snapshots snapshots' : Snapshots} {jobs jobs' : List RecoveryJob}

theorem clusterKey_inj {ns ns' name name' : String} (hns : '/' ∉ ns.toList)
    (hns' : '/' ∉ ns'.toList) (h : clusterKey ns name = clusterKey ns' name') :
    ns = ns' ∧ name = name' := by
  have hcut : cut (clusterKey ns name) '/' = (ns, name, true) := cut_append ns name '/' hns
  have hcut' : cut (clusterKey ns' name') '/' = (ns', name', true) := cut_append ns' name' '/' hns'
  rw [h, hcut'] at hcut
  simpa [eq_comm] using hcut

theorem Extended.subset (h : Extended state snapshots jobs) (h' : Extended state snapshots jobs') :
    jobs ⊆ jobs' := by
  intro job hjob
  by_cases hold : job ∈ state.jobs
  · exact h'.kept job hold
  · obtain ⟨ns, name, root, hns, -, haffected, rfl⟩ := h.new job hjob hold
    obtain ⟨job', hjob', hident⟩ := List.mem_map.mp (h'.covered _ haffected)
    by_cases hold' : job' ∈ state.jobs
    · -- two entries of the first list would have one cluster and ID
      have hsame := List.inj_on_of_nodup_map h.once (h.kept job' hold') hjob hident
      rw [hsame] at hold'
      exact absurd hold' hold
    · obtain ⟨ns', name', root', hns', -, -, rfl⟩ := h'.new job' hjob' hold'
      obtain ⟨hkey, hroot⟩ := Prod.mk.inj hident
      obtain ⟨rfl, rfl⟩ := clusterKey_inj hns' hns hkey
      obtain rfl : root' = root := hroot
      exact hjob'

theorem Extended.unique (h : Extended state snapshots jobs) (h' : Extended state snapshots jobs') :
    jobs = jobs' := by
  refine eq_of_pairwise_lt (sorted_iff.mp h.sorted) (sorted_iff.mp h'.sorted) ?_
  intro job
  exact ⟨fun hjob => h.subset h' hjob, fun hjob => h'.subset h hjob⟩

theorem extended_addAffectedJobs (hnd : (state.jobs.map RecoveryJob.ident).Nodup)
    (hkeys : Keyed snapshots) :
    Extended state snapshots (addAffectedJobs state snapshots).1.jobs ∧
      ((addAffectedJobs state snapshots).2 = true ↔
        ∃ job ∈ (addAffectedJobs state snapshots).1.jobs, job ∉ state.jobs) := by
  obtain ⟨new, hrun, hnew⟩ := addAllJobs_spec state snapshots hkeys.slash state.jobs false
  have hslash : ∀ k, Affected state snapshots k → '/' ∈ k.1.toList := by
    rintro k ⟨p, hp, j, -, -, rfl⟩
    exact hkeys.slash p hp
  have hjobs : (addAffectedJobs state snapshots).1.jobs =
      (state.jobs ++ new).mergeSort jobOrder := by
    rw [addAffectedJobs, hrun]
  have hchanged : (addAffectedJobs state snapshots).2 = !new.isEmpty := by
    rw [addAffectedJobs, hrun, Bool.false_or]
  have hperm := List.mergeSort_perm (state.jobs ++ new) jobOrder
  have hall := hnew.once hnd
  have hfresh : ∀ job ∈ new, job ∉ state.jobs := by
    intro job hjob hold
    obtain ⟨k, hk, hnot, rfl⟩ := (mem_new_iff hnew hslash hnd).mp hjob
    have hident : RecoveryJob.ident (newJob k.1 k.2) = k := newJob_ident (hslash k hk) k.2
    apply hnot
    rw [← hident]
    exact List.mem_map_of_mem hold
  rw [hjobs, hchanged]
  refine ⟨⟨?_, sorted_mergeSort hall, ?_, ?_, ?_⟩, ?_⟩
  · exact ((hperm.map RecoveryJob.ident).nodup_iff).mpr hall
  · intro job hjob
    exact hperm.mem_iff.mpr (List.mem_append_left _ hjob)
  · intro k hk
    exact ((hperm.map RecoveryJob.ident).mem_iff).mpr (hnew.covered k hk)
  · intro job hjob hnot
    have hmem := (List.mem_append.mp (hperm.mem_iff.mp hjob)).resolve_left hnot
    obtain ⟨k, hk, -, rfl⟩ := (mem_new_iff hnew hslash hnd).mp hmem
    obtain ⟨ns, name, hns, hname, hkey, hrecord⟩ := newJob_of_affected hkeys hk
    refine ⟨ns, name, k.2, hns, hname, ?_, hrecord⟩
    rw [← hkey]
    exact hk
  · cases new with
    | nil =>
      simp only [List.append_nil, List.mem_mergeSort]
      simp
    | cons job new =>
      refine iff_of_true rfl ⟨job, hperm.mem_iff.mpr (by simp), hfresh job List.mem_cons_self⟩

theorem addAffectedJobs_state (state : RecoveryState) (snapshots : Snapshots) :
    (addAffectedJobs state snapshots).1 =
      { state with jobs := (addAffectedJobs state snapshots).1.jobs } := rfl

theorem Extended.of_perm (h : Extended state snapshots jobs) (hp : snapshots'.Perm snapshots) :
    Extended state snapshots' jobs := by
  have haffected : ∀ k, Affected state snapshots' k ↔ Affected state snapshots k := by
    intro k
    simp only [Affected, hp.mem_iff]
  refine ⟨h.once, h.sorted, h.kept, fun k hk => h.covered k ((haffected k).mp hk), ?_⟩
  intro job hjob hnot
  simp only [haffected]
  exact h.new job hjob hnot

theorem Extended.again (h : Extended state snapshots jobs) :
    Extended { state with jobs } snapshots jobs :=
  ⟨h.once, h.sorted, fun _ hjob => hjob, h.covered, fun _ hjob hnot => absurd hjob hnot⟩

end Pass

/-- A pass adds the missing roots and nothing else, in whatever order it visits the
clusters, and finds nothing to add afterwards. -/
theorem addAffectedJobs_once (state : RecoveryState) (snapshots : Snapshots)
    (hnd : (state.jobs.map RecoveryJob.ident).Nodup) (hkeys : Keyed snapshots) :
    Extended state snapshots (addAffectedJobs state snapshots).1.jobs ∧
      (∀ jobs, Extended state snapshots jobs →
        jobs = (addAffectedJobs state snapshots).1.jobs) ∧
      (addAffectedJobs state snapshots).1 =
        { state with jobs := (addAffectedJobs state snapshots).1.jobs } ∧
      (∀ snapshots', snapshots'.Perm snapshots →
        addAffectedJobs state snapshots' = addAffectedJobs state snapshots) ∧
      ((addAffectedJobs state snapshots).2 = true ↔
        ∃ job ∈ (addAffectedJobs state snapshots).1.jobs, job ∉ state.jobs) ∧
      addAffectedJobs (addAffectedJobs state snapshots).1 snapshots =
        ((addAffectedJobs state snapshots).1, false) := by
  obtain ⟨hextended, hchanged⟩ := extended_addAffectedJobs hnd hkeys
  refine ⟨hextended, fun jobs h => h.unique hextended, rfl, ?_, hchanged, ?_⟩
  · intro snapshots' hp
    have hkeys' : Keyed snapshots' := fun p hmem => hkeys p (hp.mem_iff.mp hmem)
    obtain ⟨hextended', hchanged'⟩ := extended_addAffectedJobs hnd hkeys'
    have hjobs := (hextended'.of_perm hp.symm).unique hextended
    refine Prod.ext ?_ ?_
    · rw [addAffectedJobs_state, hjobs, ← addAffectedJobs_state]
    · rw [Bool.eq_iff_iff, hchanged', hchanged, hjobs]
  · obtain ⟨hagain, hflag⟩ :=
      @extended_addAffectedJobs (addAffectedJobs state snapshots).1 snapshots hextended.once hkeys
    have hjobs := hagain.unique hextended.again
    refine Prod.ext ?_ ?_
    · rw [addAffectedJobs_state, hjobs]
    · rw [Bool.eq_false_iff, Ne, hflag, hjobs]
      rintro ⟨job, hjob, hnot⟩
      exact hnot hjob

def runningJob (id hetJobID : UInt32) (node : String) : Job :=
  ⟨id, hetJobID, ["RUNNING"], "", [node]⟩

/-- A worker in each of two clusters, and a job that was signalled before. -/
def twoClusters : RecoveryState :=
  { version := 1, incident := "00000000-0000-4000-8000-000000000000", nodeName := "node"
    nodeUID := "uid", phase := .draining, startedAt := 0, phaseStartedAt := 0
    preBootID := "boot-1", preInventory := "", preInventoryHash := ""
    workers := [⟨"team", "c", "team", "w0", "claim"⟩, ⟨"team", "d", "team", "w1", "claim"⟩]
    jobs := [{ clusterNamespace := "team", clusterName := "d", id := 7, signalSent := true }] }

def twoSnapshots : Snapshots :=
  [("team/d", { jobs := [runningJob 7 0 "w1", runningJob 3 0 "other"] }),
    ("team/c", { jobs := [runningJob 9 8 "w0", runningJob 8 8 "w0"] })]

theorem addAffectedJobs_once_two : (addAffectedJobs twoClusters twoSnapshots).2 = true ∧
    ("team/c", 8) ∈ (addAffectedJobs twoClusters twoSnapshots).1.jobs.map RecoveryJob.ident ∧
    (addAffectedJobs (addAffectedJobs twoClusters twoSnapshots).1 twoSnapshots).2 = false := by
  have hkeys : Keyed twoSnapshots := by
    intro p hp
    simp only [twoSnapshots, List.mem_cons, List.not_mem_nil, or_false] at hp
    obtain rfl | rfl := hp
    · exact ⟨"team", "d", rfl, by decide, by decide⟩
    · exact ⟨"team", "c", rfl, by decide, by decide⟩
  obtain ⟨hextended, -, -, -, -, hagain⟩ :=
    addAffectedJobs_once twoClusters twoSnapshots (by decide) hkeys
  refine ⟨by decide, hextended.covered _ ?_, congrArg Prod.snd hagain⟩
  exact ⟨_, .tail _ (.head _), runningJob 8 8 "w0", by decide, ⟨by decide, by decide⟩, rfl⟩

end HeteroCluster.AffectedRoots
