import HeteroCluster.HetDemand
import HeteroCluster.WorkerPlanning
import HeteroCluster.WorkerSettling

namespace HeteroCluster.WorkerMatching

open CallProgram FailFast GoStrings OperatorCalls RecoveryEvacuation RecoveryVerifier WorkerDemand
open WorkerPods WorkerPlan WorkerCleanup WorkerReconcile WorkerPlanning WorkerSettling

/-- A pass up to the end of its planning. The log is that of the calls before
the planning, and the plan is what there is at its end, also after an error. -/
inductive Pass (cluster : Cluster) (jobs : List PendingJob)
    (pods : { pods : List WorkerPod // (pods.map (fun pod => pod.name)).Nodup })
    (nodes : List SlurmNode) : WorkerLog → Plan → Prop
  | plan {log log' : WorkerLog} {settled : List WorkerPod} {footprints : Footprints}
      {counts : String → Nat} {candidates : List WorkerCandidate} {r : Plan × Option ApiError}
      (hsettle : Executes anyReply (settlePods cluster nodes pods.1)
        [⟨.listPods, .ok pods⟩, ⟨.slurmNodes, .ok nodes⟩] log (some (.ok settled)))
      (hcandidates : settled.foldlM (addCandidate cluster (nodesByName nodes)) (fun _ => 0, []) =
        .ok (counts, candidates))
      (hplan : Executes anyReply (planGroups cluster candidates
        (demands wrapInt64 cluster.quantity jobs cluster.pools footprints).1
        (groups (demands wrapInt64 cluster.quantity jobs cluster.pools footprints).1)
        ⟨[], counts, []⟩) (log ++ [⟨.openTPUFootprints, .ok footprints⟩]) log' (some r)) :
      Pass cluster jobs pods nodes log r.1

def Assigned (plan : Plan) (w : WorkerCandidate) : Prop :=
  ∃ p ∈ accepted plan.decisions, p.worker = some w

structure Available (pod : WorkerPod) (node : SlurmNode) : Prop where
  ready : podReady pod = true
  idle : nodeIdle node = true
  undrained : node.state.contains "DRAIN" = false
  up : node.state.contains "DOWN" = false

/-- The worker can serve a demand: it is not on its way out, and it either is
not yet registered or is there for a job. -/
structure CanServe (nodeByName : String → Option SlurmNode) (log : WorkerLog) (pod : WorkerPod) :
    Prop where
  staying : pod.draining = false
  kept : ¬ Deleted pod.name log
  available : ∀ node, nodeByName pod.name = some node → Available pod node

/-- The Pod as it was listed gives no reason to remove it, and if it has a node,
the Pod is ready and the node neither drained nor down. -/
structure Sound (cluster : Cluster) (nodeByName : String → Option SlurmNode) (log : WorkerLog)
    (pod : WorkerPod) : Prop where
  live : pod.deleting = false
  running : pod.phase ≠ .failed
  staying : pod.draining = false
  claimed : ∀ node, nodeByName pod.name = some node → Held cluster pod log
  ready : ∀ node, nodeByName pod.name = some node → podReady pod = true
  undrained : ∀ node, nodeByName pod.name = some node → node.state.contains "DRAIN" = false
  up : ∀ node, nodeByName pod.name = some node → node.state.contains "DOWN" = false

variable {cluster : Cluster} {nodeByName : String → Option SlurmNode} {pod : WorkerPod}
variable {log log' : WorkerLog}

section Candidates

/-- A Pod that counts, and is not at work as far as the pass can see. -/
structure Eligible (nodeByName : String → Option SlurmNode) (pod : WorkerPod) : Prop where
  live : pod.deleting = false
  running : pod.phase ≠ .failed
  unrecovering : pod.recovering = false
  free : podReady pod = false ∨ nodeByName pod.name = none ∨
    ∃ node, nodeByName pod.name = some node ∧ nodeIdle node = true

theorem Eligible.idle {node : SlurmNode} (h : Eligible nodeByName pod)
    (hready : podReady pod = true) (hnode : nodeByName pod.name = some node) :
    nodeIdle node = true := by
  obtain hnot | hnone | ⟨node', hsome, hidle⟩ := h.free
  · exact absurd (hready.symm.trans hnot) (by decide)
  · exact absurd (hnode.symm.trans hnone) (by simp)
  · rw [Option.some.inj (hnode.symm.trans hsome)]
    exact hidle

theorem addCandidate_eligible {state state' : (String → Nat) × List WorkerCandidate}
    (h : addCandidate cluster nodeByName state pod = .ok state') {w : WorkerCandidate}
    (hw : w ∈ state'.2) : w ∈ state.2 ∨ w.pod = pod ∧ Eligible nodeByName pod := by
  unfold addCandidate at h
  split at h
  · rw [← Except.ok.inj h] at hw
    exact Or.inl hw
  next hcounts =>
    rw [bind_eq_ok] at h
    obtain ⟨shape, -, h⟩ := h
    dsimp only at h
    split at h
    next hfree =>
      rw [pure_eq_ok] at h
      rw [← h] at hw
      cases List.mem_append.mp hw with
      | inl hw => exact Or.inl hw
      | inr hw =>
        rw [List.mem_singleton.mp hw]
        refine Or.inr ⟨rfl, ?_⟩
        rw [not_or, not_or, not_or, Bool.not_eq_true, Bool.not_eq_true] at hcounts
        refine ⟨hcounts.2.1, hcounts.2.2.1, hcounts.2.2.2, ?_⟩
        obtain hready | hnone | hidle := hfree
        · exact Or.inl hready
        · exact Or.inr (Or.inl (Option.isNone_iff_eq_none.mp hnone))
        · rw [Bool.and_eq_true, Option.any_eq_true] at hidle
          exact Or.inr (Or.inr hidle.2)
    · rw [pure_eq_ok] at h
      rw [← h] at hw
      exact Or.inl hw

theorem candidates_eligible {pods : List WorkerPod} {counts : String → Nat}
    {candidates : List WorkerCandidate}
    (h : pods.foldlM (addCandidate cluster nodeByName) (fun _ => 0, []) =
      .ok (counts, candidates)) :
    ∀ w ∈ candidates, w.pod ∈ pods ∧ Eligible nodeByName w.pod := by
  apply foldlM_invariant
    (fun done state => ∀ w ∈ state.2, w.pod ∈ done ∧ Eligible nodeByName w.pod) h
  · simp
  · intro done pod state state' _ ih hstep w hw
    obtain hold | ⟨rfl, he⟩ := addCandidate_eligible hstep hw
    · exact ⟨List.mem_append_left _ (ih w hold).1, (ih w hold).2⟩
    · exact ⟨by simp, he⟩

theorem planGroups_candidates {candidates : List WorkerCandidate} {demands : List Demand}
    (groups : List UInt32) {plan : Plan} (h : ∀ w, Assigned plan w → w ∈ candidates) :
    Ensures anyReply (fun _ _ => True) (planGroups cluster candidates demands groups plan) log
      (fun r _ => ∀ w, Assigned r.1 w → w ∈ candidates) := by
  induction groups generalizing plan log with
  | nil => exact h
  | cons group groups ih =>
    have hplaced := place_placed candidates plan.used (byGroup demands group)
    unfold planGroups
    dsimp only
    split
    · apply ih
      rintro w ⟨p, hp, hw⟩
      exact h w ⟨p, by simpa [accepted, Plan.refuseGroup] using hp, hw⟩
    · apply (ensures_trivial _ log).bind
      intro r log' _
      split
      · exact h
      · apply ih
        rintro w ⟨p, hp, hw⟩
        have hor : p ∈ accepted plan.decisions ∨
            p ∈ place candidates plan.used (byGroup demands group) := by
          simpa [accepted, Plan.acceptGroup] using hp
        cases hor with
        | inl hp => exact h w ⟨p, hp, hw⟩
        | inr hp => exact (hplaced.suits p hp w hw).1

end Candidates

theorem canServe_iff_sound {pod' : WorkerPod} (h : Settled cluster (nodeByName pod.name) pod log pod')
    (he : Eligible nodeByName pod') :
    CanServe nodeByName log pod' ↔ Sound cluster nodeByName log pod := by
  cases h with
  | recovering hr => exact absurd (he.unrecovering.symm.trans hr) (by decide)
  | stays hlive hrunning hstaying hkept hclaimed =>
    constructor
    · intro hc
      exact ⟨hlive, hrunning, hstaying, hclaimed, fun n hn => (hc.available n hn).ready,
        fun n hn => (hc.available n hn).undrained, fun n hn => (hc.available n hn).up⟩
    · intro hs
      refine ⟨hstaying, hkept, fun n hn => ?_⟩
      exact ⟨hs.ready n hn, he.idle (hs.ready n hn) hn, hs.undrained n hn, hs.up n hn⟩
  | removed hname hgone hreason =>
    apply iff_of_false
    · intro hc
      obtain hd | hd | hd := hgone
      · exact absurd (hc.staying.symm.trans hd) (by decide)
      · exact absurd (he.live.symm.trans hd) (by decide)
      · rw [← hname] at hd
        exact hc.kept hd
    · intro hs
      obtain hd | hd | hd | ⟨⟨n, hn⟩, hheld⟩ := hreason
      · exact absurd (hs.live.symm.trans hd) (by decide)
      · exact hs.running hd
      · exact absurd (hs.staying.symm.trans hd) (by decide)
      · exact hheld (hs.claimed n hn)

theorem forall₂_right {α β : Type} {R : α → β → Prop} {as : List α} {bs : List β}
    (h : List.Forall₂ R as bs) {b : β} (hb : b ∈ bs) : ∃ a ∈ as, R a b := by
  induction h with
  | nil => cases hb
  | cons hr _ ih =>
    cases hb with
    | head => exact ⟨_, by simp, hr⟩
    | tail _ hb =>
      obtain ⟨a, ha, hab⟩ := ih hb
      exact ⟨a, by simp [ha], hab⟩

/-- A worker that a pass assigns to a demand can serve it exactly if its Pod,
as it was listed, was sound. -/
theorem assigned_can_serve_iff {jobs : List PendingJob}
    {pods : { pods : List WorkerPod // (pods.map (fun pod => pod.name)).Nodup }}
    {nodes : List SlurmNode} {plan : Plan} (h : Pass cluster jobs pods nodes log plan)
    {w : WorkerCandidate} (hw : Assigned plan w) :
    ∃ pod ∈ pods.1, pod.name = w.pod.name ∧
      (CanServe (nodesByName nodes) log w.pod ↔ Sound cluster (nodesByName nodes) log pod) := by
  cases h with
  | @plan log' settled footprints counts candidates r hsettle hcandidates hplan =>
    have hfresh : ∀ pod ∈ pods.1,
        Fresh pod [⟨.listPods, .ok pods⟩, ⟨.slurmNodes, .ok nodes⟩] := by
      intro pod _ e he
      rw [List.mem_cons, List.mem_singleton] at he
      obtain rfl | rfl := he
      · exact general_subject rfl
      · exact general_subject rfl
    have hsettled := (settlePods_settled nodes pods.2 hfresh).result hsettle
    have hassigned : ∀ w, Assigned ⟨[], counts, []⟩ w → w ∈ candidates := by
      rintro w ⟨p, hp, -⟩
      cases hp
    have hin := (planGroups_candidates _ hassigned).result hplan
    obtain ⟨hmem, heligible⟩ := candidates_eligible hcandidates w (hin w hw)
    obtain ⟨pod, hpod, hs⟩ := forall₂_right (hsettled settled rfl) hmem
    exact ⟨pod, hpod, hs.name.symm, canServe_iff_sound hs heligible⟩

theorem reconcileWorkers_pass {jobs : List PendingJob} {result : WorkerResult}
    (h : Executes anyReply (reconcileWorkers cluster jobs) [] log (some (.ok result))) :
    (∃ pods e, log = [⟨.listPods, .ok pods⟩, ⟨.slurmNodes, .error e⟩]) ∨
      ∃ pods nodes before plan, before <+: log ∧ Pass cluster jobs pods nodes before plan := by
  unfold reconcileWorkers at h
  obtain ⟨r, h⟩ := h.of_perform
  cases r with
  | error e => cases h
  | ok pods =>
    obtain ⟨r, h⟩ := h.of_perform
    cases r with
    | error e =>
      cases h
      exact Or.inl ⟨pods, e, rfl⟩
    | ok nodes =>
      obtain ⟨r, before, hsettle, h⟩ := h.of_bind
      cases r with
      | error e => cases h
      | ok settled =>
        obtain ⟨t, ht⟩ := h.append
        refine Or.inr ⟨pods, nodes, before, ?_⟩
        obtain ⟨r, mid, hplan, h⟩ := h.of_bind
        cases r with
        | error e => cases h
        | ok planning =>
          unfold planWorkers at hplan
          obtain ⟨r, hplan⟩ := hplan.of_perform
          cases r with
          | error e => cases hplan
          | ok footprints =>
            dsimp only at hplan
            split at hplan
            · cases hplan
            next counts candidates hc =>
              obtain ⟨⟨plan, err⟩, mid, hgroups, -⟩ := hplan.of_bind
              exact ⟨plan, ⟨t, ht.symm⟩, .plan hsettle hc hgroups⟩

section Samples

def passOf (answer : WorkerLog → (c : WorkerCall) → WorkerReply c) (cluster : Cluster)
    (jobs : List PendingJob)
    (pods : { pods : List WorkerPod // (pods.map (fun pod => pod.name)).Nodup })
    (nodes : List SlurmNode) : Option (WorkerLog × Plan) :=
  match follow answer 10 (settlePods cluster nodes pods.1)
      [⟨.listPods, .ok pods⟩, ⟨.slurmNodes, .ok nodes⟩] with
  | (log, some (.ok settled)) =>
    match settled.foldlM (addCandidate cluster (nodesByName nodes)) (fun _ => 0, []) with
    | .ok (counts, candidates) =>
      let demands := (demands wrapInt64 cluster.quantity jobs cluster.pools ∅).1
      match follow answer 10 (planGroups cluster candidates demands (groups demands)
          ⟨[], counts, []⟩) (log ++ [⟨.openTPUFootprints, .ok ∅⟩]) with
      | (_, some r) => some (log, r.1)
      | _ => none
    | .error _ => none
  | _ => none

theorem passOf_pass {answer : WorkerLog → (c : WorkerCall) → WorkerReply c}
    {jobs : List PendingJob}
    {pods : { pods : List WorkerPod // (pods.map (fun pod => pod.name)).Nodup }}
    {nodes : List SlurmNode} {plan : Plan}
    (h : passOf answer cluster jobs pods nodes = some (log, plan)) :
    Pass cluster jobs pods nodes log plan := by
  have hany : ∀ (log : WorkerLog) (c : WorkerCall), anyReply log ⟨c, answer log c⟩ :=
    fun _ _ => trivial
  unfold passOf at h
  split at h
  next log' settled hsettle =>
    have hs := follow_executes hany 10 (settlePods cluster nodes pods.1)
      [⟨.listPods, .ok pods⟩, ⟨.slurmNodes, .ok nodes⟩]
    rw [hsettle] at hs
    split at h
    next counts candidates hc =>
      dsimp only at h
      split at h
      next log'' r hgroups =>
        have hp := follow_executes hany 10 (planGroups cluster candidates
          (demands wrapInt64 cluster.quantity jobs cluster.pools ∅).1
          (groups (demands wrapInt64 cluster.quantity jobs cluster.pools ∅).1) ⟨[], counts, []⟩)
          (log' ++ [⟨.openTPUFootprints, .ok ∅⟩])
        rw [hgroups] at hp
        cases h
        exact .plan hs hc hp
      · cases h
    · cases h
  · cases h

def sampleNode (state : List String) : SlurmNode where
  name := "c-cpu-a"
  state := state
  reservation := ""
  allocCPUs := 0
  allocMemory := 0
  gresUsed := ""

def oneJob : List PendingJob := [{ HetDemand.component 7 "Resources" with hetJobID := 0 }]

def onePod (pod : WorkerPod) :
    { pods : List WorkerPod // (pods.map (fun pod => pod.name)).Nodup } :=
  ⟨[pod], List.nodup_singleton _⟩

def assigns (check : WorkerLog → WorkerPod → Bool) : Option (WorkerLog × Plan) → Bool
  | some (log, plan) =>
    (accepted plan.decisions).any (fun p => p.worker.any (fun w => check log w.pod))
  | none => false

theorem exists_of_assigns {answer : WorkerLog → (c : WorkerCall) → WorkerReply c}
    {jobs : List PendingJob}
    {pods : { pods : List WorkerPod // (pods.map (fun pod => pod.name)).Nodup }}
    {nodes : List SlurmNode} {check : WorkerLog → WorkerPod → Bool}
    (h : assigns check (passOf answer cluster jobs pods nodes) = true) :
    ∃ log plan w, Pass cluster jobs pods nodes log plan ∧ Assigned plan w ∧
      check log w.pod = true := by
  unfold assigns at h
  split at h
  next log plan hp =>
    obtain ⟨p, hmem, hw⟩ := List.any_eq_true.mp h
    obtain ⟨w, hworker, hcheck⟩ := (Option.any_eq_true _ _).mp hw
    exact ⟨log, plan, w, passOf_pass hp, ⟨p, hmem, hworker⟩, hcheck⟩
  · cases h

def deletes (name : String) (e : WorkerEvent) : Bool :=
  match e.1 with
  | .deletePod n => n == name
  | _ => false

theorem deleted_of_any {name : String} (h : log.any (deletes name) = true) : Deleted name log := by
  obtain ⟨⟨c, r⟩, he, hd⟩ := List.any_eq_true.mp h
  unfold deletes at hd
  split at hd
  next n hc =>
    obtain rfl : c = .deletePod n := hc
    rw [eq_of_beq hd] at he
    exact ⟨r, he⟩
  · cases hd

def heldAnswer (log : WorkerLog) : (c : WorkerCall) → WorkerReply c
  | .getClaim _ _ => .ok ⟨true, [⟨"Pod", "v1", "c-cpu-a", "p", true⟩]⟩
  | c => sampleAnswer log c

end Samples

/-- A worker that is about to register serves the demand. -/
theorem assigned_can_serve_new : ∃ log plan w,
    Pass sampleCluster oneJob (onePod samplePod) [] log plan ∧ Assigned plan w ∧
      CanServe (nodesByName []) log w.pod := by
  have hassigns : assigns (fun _ _ => true)
      (passOf sampleAnswer sampleCluster oneJob (onePod samplePod) []) = true := by decide +kernel
  obtain ⟨log, plan, w, hpass, hw, -⟩ := exists_of_assigns hassigns
  obtain ⟨pod, hpod, -, hiff⟩ := assigned_can_serve_iff hpass hw
  rw [List.mem_singleton.mp hpod] at hiff
  refine ⟨log, plan, w, hpass, hw, hiff.mpr ?_⟩
  exact ⟨rfl, by decide, by decide, by rintro node ⟨⟩, by rintro node ⟨⟩, by rintro node ⟨⟩,
    by rintro node ⟨⟩⟩

/-- A worker whose node is busy, a worker whose node is down, and a ready
worker whose node is drained. -/
def unfit : List (WorkerPod × SlurmNode) :=
  [(samplePod, sampleNode ["ALLOCATED"]), (samplePod, sampleNode ["DOWN"]),
    ({ samplePod with conditions := [⟨"Ready", .conditionTrue⟩] }, sampleNode ["IDLE", "DRAIN"])]

/-- A draining worker is deleted and assigned in the same pass, and the unfit
workers take the place of a new one. -/
theorem unfit_workers_assigned :
    (∃ log plan w, Pass sampleCluster oneJob
      (onePod { samplePod with annotations := set [] workerDrainAnnotation "true" }) [] log plan ∧
      Assigned plan w ∧ w.pod.draining = true ∧ Deleted w.pod.name log) ∧
    ∀ p ∈ unfit, ∃ log plan w, Pass sampleCluster oneJob (onePod p.1) [p.2] log plan ∧
      Assigned plan w ∧ ¬ CanServe (nodesByName [p.2]) log w.pod := by
  constructor
  · have hassigns : assigns (fun log pod => pod.draining && log.any (deletes pod.name))
        (passOf sampleAnswer sampleCluster oneJob
          (onePod { samplePod with annotations := set [] workerDrainAnnotation "true" }) []) =
        true := by
      decide +kernel
    obtain ⟨log, plan, w, hpass, hw, hcheck⟩ := exists_of_assigns hassigns
    rw [Bool.and_eq_true] at hcheck
    exact ⟨log, plan, w, hpass, hw, hcheck.1, deleted_of_any hcheck.2⟩
  · intro p hp
    have hassigns : unfit.all (fun p => assigns
        (fun _ pod => p.2.name == pod.name && !(podReady pod && !p.2.state.contains "DRAIN"))
          (passOf heldAnswer sampleCluster oneJob (onePod p.1) [p.2])) = true := by
      decide +kernel
    obtain ⟨log, plan, w, hpass, hw, hcheck⟩ :=
      exists_of_assigns (List.all_eq_true.mp hassigns p hp)
    rw [Bool.and_eq_true] at hcheck
    refine ⟨log, plan, w, hpass, hw, ?_⟩
    intro hserve
    have hnode : nodesByName [p.2] w.pod.name = some p.2 := by
      simp [nodesByName, hcheck.1]
    have ha := hserve.available p.2 hnode
    rw [ha.ready, ha.undrained] at hcheck
    exact absurd hcheck.2 (by decide)

end HeteroCluster.WorkerMatching
