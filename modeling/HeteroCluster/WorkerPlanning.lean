import HeteroCluster.WorkerReconcile
import Mathlib.Data.List.Induction

namespace HeteroCluster.WorkerPlanning

open CallProgram FailFast GoStrings OperatorCalls RecoveryEvacuation RecoveryVerifier WorkerDemand
open WorkerPods WorkerPlan WorkerReconcile

variable {cluster : Cluster} {candidates : List WorkerCandidate} {demands : List Demand}
variable {counts : String → Nat} {log : WorkerLog}

section Place

theorem bestCandidate_eligible {used : List String} {d : Demand} {w : WorkerCandidate}
    (h : bestCandidate candidates used d = some w) : w ∈ candidates ∧ eligible used d w = true := by
  have hall : ∀ b, bestCandidate candidates used d = some b →
      b ∈ candidates ∧ eligible used d b = true := by
    apply List.foldlRecOn (motive := fun best => ∀ b, best = some b →
      b ∈ candidates ∧ eligible used d b = true)
    · simp
    · intro best hbest c hc
      unfold keepBest
      split
      next hc' =>
        intro b hb
        cases hb
        exact ⟨hc, hc'.1⟩
      next => exact hbest
  exact hall w h

@[simp] theorem localUsed_append (a b : List Placement) :
    localUsed (a ++ b) = localUsed a ++ localUsed b := by
  simp [localUsed]

@[simp] theorem creates_append (a b : List Placement) :
    creates (a ++ b) = creates a ++ creates b := by
  simp [creates]

/-- The worker of a placement is a candidate of the demand's pool that can serve it. -/
def Suits (candidates : List WorkerCandidate) (p : Placement) : Prop :=
  ∀ w, p.worker = some w → w ∈ candidates ∧ w.pod.pool = p.demand.poolName ∧
    shapeFits w.shape p.demand.shape = true

/-- A group's placements: every unit has one, and no worker is taken twice. -/
structure Placed (candidates : List WorkerCandidate) (used : List String) (units : List Demand)
    (placements : List Placement) : Prop where
  whole : placements.map Placement.demand = units
  suits : ∀ p ∈ placements, Suits candidates p
  fresh : ∀ name ∈ localUsed placements, name ∉ used
  once : (localUsed placements).Nodup

theorem Placed.snoc {used : List String} {us : List Demand} {ps : List Placement}
    (h : Placed candidates used us ps) (d : Demand) :
    Placed candidates used (us ++ [d])
      (ps ++ [⟨d, bestCandidate candidates (used ++ localUsed ps) d⟩]) := by
  cases hb : bestCandidate candidates (used ++ localUsed ps) d with
  | none =>
    have hlocal : localUsed (ps ++ [⟨d, none⟩]) = localUsed ps := by simp [localUsed]
    refine ⟨by simp [h.whole], ?_, by rw [hlocal]; exact h.fresh, by rw [hlocal]; exact h.once⟩
    intro p hp
    obtain hp | hp := List.mem_append.mp hp
    · exact h.suits p hp
    · rw [List.mem_singleton.mp hp]
      intro w hw
      cases hw
  | some w =>
    obtain ⟨hw, he⟩ := bestCandidate_eligible hb
    have hlocal : localUsed (ps ++ [⟨d, some w⟩]) = localUsed ps ++ [w.pod.name] := by
      simp [localUsed]
    obtain ⟨⟨hfree, hpool⟩, hfit⟩ : (w.pod.name ∉ used ++ localUsed ps ∧
        w.pod.pool = d.poolName) ∧ shapeFits w.shape d.shape = true := by
      simpa [eligible] using he
    rw [List.mem_append, not_or] at hfree
    refine ⟨by simp [h.whole], ?_, ?_, ?_⟩
    · intro p hp
      obtain hp | hp := List.mem_append.mp hp
      · exact h.suits p hp
      · rw [List.mem_singleton.mp hp]
        intro w' hw'
        cases hw'
        exact ⟨hw, hpool, hfit⟩
    · intro name hn
      rw [hlocal] at hn
      obtain hn | hn := List.mem_append.mp hn
      · exact h.fresh name hn
      · rw [List.mem_singleton.mp hn]
        exact hfree.1
    · rw [hlocal]
      apply List.Nodup.append h.once (List.nodup_singleton _)
      simpa using hfree.2

theorem place_placed (candidates : List WorkerCandidate) (used : List String)
    (demands : List Demand) :
    Placed candidates used (units demands) (place candidates used demands) := by
  unfold place
  generalize units demands = us
  induction us using List.reverseRecOn with
  | nil => exact ⟨rfl, by simp, by simp [localUsed], by simp [localUsed]⟩
  | append_singleton us d ih =>
    rw [List.foldl_append]
    exact ih.snoc d

end Place

section Create

/-- No call of a creation fails: the Pod is made, and its claim, which bears a
random name, is absent or its own. -/
def Succeeds (cluster : Cluster) : WorkerEvent → Prop
  | ⟨.createPod _, reply⟩ => ∃ uid, reply = .ok uid
  | ⟨.getClaim _ pod, reply⟩ => reply = .error .notFound ∨
      ∃ claim, reply = .ok claim ∧ cluster.ownership.isControlledBy claim.owners pod.uid = true
  | ⟨.createClaim _ _ _, reply⟩ => reply = .ok () ∨ reply = .error .alreadyExists
  | _ => True

def allowed (cluster : Cluster) (_ : WorkerLog) (e : WorkerEvent) : Prop := Succeeds cluster e

def createdPod? : WorkerEvent → Option WorkerPod
  | ⟨.createPod pod, .ok _⟩ => some pod
  | _ => none

def createdPods (log : WorkerLog) : List WorkerPod := log.filterMap createdPod?

theorem createdPods_snoc (log : WorkerLog) (e : WorkerEvent) :
    createdPods (log ++ [e]) = createdPods log ++ (createdPod? e).toList := by
  cases h : createdPod? e <;> simp [createdPods, h]

def podKind (pod : WorkerPod) : String × Option ShapeJSON := (pod.pool, pod.shape)

def demandKind (d : Demand) : String × Option ShapeJSON := (d.poolName, some (shapeJSON d.shape))

/-- The pool has room, and the claim of the new worker can be made. -/
structure Creatable (cluster : Cluster) (d : Demand) : Prop where
  claim : ∃ requests, resourceClaim cluster.quantity d.shape (poolSpec cluster d.poolName)
    cluster.workerMemoryHeadroom = .ok requests
  room : 0 < (poolSpec cluster d.poolName).scaling.maxWorkers

theorem poolSpec_known {name : String} (h : 0 < (poolSpec cluster name).scaling.maxWorkers) :
    knownPool cluster name = true ∧ (poolSpec cluster name).name = name := by
  unfold poolSpec at h ⊢
  cases hf : cluster.pools.find? (fun pool => pool.name == name) with
  | none =>
    rw [hf] at h
    simp at h
  | some pool =>
    have hname : pool.name = name := by simpa using List.find?_some hf
    refine ⟨?_, hname⟩
    rw [knownPool, List.any_eq_true]
    exact ⟨pool, List.mem_of_find?_eq_some hf, by simp [hname]⟩

theorem newWorker_shape (pool : WorkerPoolSpec) (d : Demand) (text uid : String) :
    podShape { newWorker cluster pool d text with uid := uid } = .ok d.shape := by
  have hpos : 1 ≤ d.shape.cpus ∧ 1 ≤ d.shape.memoryBytes := ⟨d.shape.cpus_pos, d.shape.memory_pos⟩
  simp only [podShape, newWorker, shapeJSON, hpos, and_self, dite_true]

theorem newWorker_claim (pool : WorkerPoolSpec) (d : Demand) (text : String) :
    get (newWorker cluster pool d text).annotations workerClaimAnnotation =
      cluster.name ++ "-" ++ pool.name ++ "-" ++ text ++ "-resources" :=
  get_set _ _ _

theorem newWorker_pool (pool : WorkerPoolSpec) (d : Demand) (text : String) :
    (newWorker cluster pool d text).pool = pool.name := by
  simp [WorkerPod.pool, GoStrings.get, newWorker, workerLabels]

theorem ensureWorkerClaim_ok {d : Demand} (h : Creatable cluster d) (text uid : String) :
    Ensures (allowed cluster) (fun _ _ => True)
      (ensureWorkerClaim cluster
        { newWorker cluster (poolSpec cluster d.poolName) d text with uid := uid }) log
      (fun r log' => r = .ok () ∧ createdPods log' = createdPods log) := by
  obtain ⟨hknown, hname⟩ := poolSpec_known h.room
  obtain ⟨requests, hclaim⟩ := h.claim
  have hpool : WorkerPod.pool
      { newWorker cluster (poolSpec cluster d.poolName) d text with uid := uid } = d.poolName := by
    have hp : (newWorker cluster (poolSpec cluster d.poolName) d text).pool =
        (poolSpec cluster d.poolName).name := newWorker_pool (poolSpec cluster d.poolName) d text
    rwa [hname] at hp
  have hne : cluster.name ++ "-" ++ (poolSpec cluster d.poolName).name ++ "-" ++ text ++
      "-resources" ≠ "" := by
    intro he
    have hlen := congrArg (fun s => s.toList.length) he
    simp at hlen
  unfold ensureWorkerClaim
  dsimp only
  rw [newWorker_claim, if_neg hne]
  apply Ensures.perform
  · intro reply _
    trivial
  · intro reply hreply
    have hlog : ∀ e : WorkerEvent, createdPod? e = none →
        createdPods (log ++ [e]) = createdPods log := by
      intro e he
      rw [createdPods_snoc, he, Option.toList_none, List.append_nil]
    obtain rfl | ⟨claim, rfl, hc⟩ := hreply
    · dsimp only
      rw [newWorker_shape]
      dsimp only
      rw [hpool, hknown, if_neg (by decide), hclaim]
      apply Ensures.perform
      · intro reply _
        trivial
      · intro reply hreply
        obtain rfl | rfl := hreply
        · exact ⟨rfl, by rw [createdPods_snoc]; simpa [createdPod?] using hlog _ rfl⟩
        · exact ⟨rfl, by rw [createdPods_snoc]; simpa [createdPod?] using hlog _ rfl⟩
    · refine ⟨?_, hlog _ rfl⟩
      rw [refuse_eq_ok, hc]
      decide

theorem createWorker_ok {d : Demand} (h : Creatable cluster d) :
    Ensures (allowed cluster) (fun _ _ => True)
      (createWorker cluster (poolSpec cluster d.poolName) d) log
      (fun r log' => r = .ok () ∧ (createdPods log').map podKind =
        (createdPods log).map podKind ++ [demandKind d]) := by
  have hvalid : ¬ (d.shape.cpus < 1 ∨ d.shape.memoryBytes < 1) := by
    have h1 := d.shape.cpus_pos
    have h2 := d.shape.memory_pos
    omega
  unfold createWorker
  apply Ensures.perform
  · intro text _
    trivial
  · intro text _
    rw [if_neg hvalid]
    apply Ensures.perform
    · intro reply _
      trivial
    · intro reply hreply
      obtain ⟨uid, rfl⟩ := hreply
      apply (ensureWorkerClaim_ok h text uid).mono
      intro r log' hr
      refine ⟨hr.1, ?_⟩
      have hkind : podKind (newWorker cluster (poolSpec cluster d.poolName) d text) =
          demandKind d := by
        rw [podKind, newWorker_pool, (poolSpec_known h.room).2, demandKind]
        rfl
      rw [hr.2, createdPods_snoc, createdPods_snoc, List.map_append, List.map_append]
      simp [createdPod?, hkind]

theorem createWorkers_spec (new : List Demand) (h : ∀ d ∈ new, Creatable cluster d) :
    Ensures (allowed cluster) (fun _ _ => True) (createWorkers cluster new) log (fun r log' =>
      (r = .ok () ∧ (new ≠ [] → cluster.workerImage ≠ "") ∧ (createdPods log').map podKind =
        (createdPods log).map podKind ++ new.map demandKind) ∨
      (∃ e, r = .error e) ∧ cluster.workerImage = "" ∧ log' = log) := by
  induction new generalizing log with
  | nil => exact Or.inl ⟨rfl, by simp, by simp⟩
  | cons d new ih =>
    unfold createWorkers
    by_cases himage : cluster.workerImage = ""
    · rw [if_pos himage]
      exact Or.inr ⟨⟨_, rfl⟩, himage, rfl⟩
    · rw [if_neg himage]
      apply (createWorker_ok (h d (by simp))).bind
      rintro r log' ⟨rfl, hlog⟩
      apply (ih (fun d' hd => h d' (List.mem_cons_of_mem d hd))).mono
      rintro r log'' (⟨hr, -, hlog'⟩ | ⟨-, he, -⟩)
      · refine Or.inl ⟨hr, fun _ => himage, ?_⟩
        rw [hlog', hlog, List.map_cons, List.append_assoc, List.singleton_append]
      · exact absurd he himage

end Create

section Groups

def accepted (decisions : List Decision) : List Placement :=
  decisions.flatMap (fun x => x.placements.getD [])

theorem fits_creatable {new : List Demand} (h : fits cluster counts new = true) {d : Demand}
    (hd : d ∈ new) : Creatable cluster d ∧
      ((counts d.poolName + new.countP (inPool d.poolName) : Nat) : Int) ≤
        (poolSpec cluster d.poolName).scaling.maxWorkers := by
  unfold fits at h
  rw [Bool.and_eq_true, List.all_eq_true, List.all_eq_true] at h
  have hlimit := of_decide_eq_true (h.2 d hd)
  have hone : 0 < new.countP (inPool d.poolName) :=
    List.countP_pos_iff.mpr ⟨d, hd, by simp [inPool]⟩
  refine ⟨⟨?_, by omega⟩, hlimit⟩
  have hok := h.1 d hd
  cases hr : resourceClaim cluster.quantity d.shape (poolSpec cluster d.poolName)
      cluster.workerMemoryHeadroom with
  | error e =>
    rw [hr] at hok
    cases hok
  | ok requests => exact ⟨requests, rfl⟩

/-- What holds of the loop over the groups: the decisions on the groups done,
the workers taken by them, and the workers made. -/
structure PlanInv (cluster : Cluster) (candidates : List WorkerCandidate) (demands : List Demand)
    (counts : String → Nat) (done : List UInt32) (plan : Plan) (log : WorkerLog) : Prop where
  order : plan.decisions.map Decision.group = done
  whole : ∀ x ∈ plan.decisions, ∀ ps, x.placements = some ps →
    ps.map Placement.demand = units (byGroup demands x.group)
  suits : ∀ p ∈ accepted plan.decisions, Suits candidates p
  used : plan.used = localUsed (accepted plan.decisions)
  once : plan.used.Nodup
  counted : ∀ pool, plan.counts pool =
    counts pool + (creates (accepted plan.decisions)).countP (inPool pool)
  created : (createdPods log).map podKind =
    (creates (accepted plan.decisions)).map demandKind
  within : ∀ d ∈ creates (accepted plan.decisions),
    (plan.counts d.poolName : Int) ≤ (poolSpec cluster d.poolName).scaling.maxWorkers
  image : creates (accepted plan.decisions) ≠ [] → cluster.workerImage ≠ ""

theorem PlanInv.refuse {done : List UInt32} {plan : Plan}
    (h : PlanInv cluster candidates demands counts done plan log) (group : UInt32) :
    PlanInv cluster candidates demands counts (done ++ [group]) (plan.refuseGroup group) log := by
  have haccepted : accepted (plan.refuseGroup group).decisions = accepted plan.decisions := by
    simp [accepted, Plan.refuseGroup]
  refine ⟨by simp [Plan.refuseGroup, h.order], ?_, by rw [haccepted]; exact h.suits,
    by rw [haccepted]; exact h.used, h.once, by rw [haccepted]; exact h.counted,
    by rw [haccepted]; exact h.created, by rw [haccepted]; exact h.within,
    by rw [haccepted]; exact h.image⟩
  intro x hx ps hps
  obtain hx | hx := List.mem_append.mp hx
  · exact h.whole x hx ps hps
  · rw [List.mem_singleton.mp hx] at hps
    cases hps

/-- A pool that gets a worker now was checked now, the others have not changed. -/
theorem PlanInv.within_accept {done : List UInt32} {plan : Plan} {ps : List Placement}
    (h : PlanInv cluster candidates demands counts done plan log) (group : UInt32)
    (hf : fits cluster plan.counts (creates ps) = true) {d : Demand}
    (hd : d ∈ creates (accepted plan.decisions) ++ creates ps) :
    ((plan.acceptGroup group ps).counts d.poolName : Int) ≤
      (poolSpec cluster d.poolName).scaling.maxWorkers := by
  by_cases hnew : ∃ d' ∈ creates ps, d'.poolName = d.poolName
  · obtain ⟨d', hd', hpool⟩ := hnew
    have hlimit := (fits_creatable hf hd').2
    rw [hpool] at hlimit
    exact hlimit
  · have hzero : (creates ps).countP (inPool d.poolName) = 0 := by
      rw [List.countP_eq_zero]
      intro d' hd' hin
      exact hnew ⟨d', hd', by simpa [inPool] using hin⟩
    have hold : d ∈ creates (accepted plan.decisions) := by
      cases List.mem_append.mp hd with
      | inl hd => exact hd
      | inr hd => exact absurd ⟨d, hd, rfl⟩ hnew
    have hsame : (plan.acceptGroup group ps).counts d.poolName = plan.counts d.poolName := by
      change plan.counts d.poolName + (creates ps).countP (inPool d.poolName) = _
      rw [hzero, Nat.add_zero]
    rw [hsame]
    exact h.within d hold

theorem PlanInv.accept {done : List UInt32} {plan : Plan} {log' : WorkerLog} {group : UInt32}
    {ps : List Placement} (h : PlanInv cluster candidates demands counts done plan log)
    (hp : Placed candidates plan.used (units (byGroup demands group)) ps)
    (hf : fits cluster plan.counts (creates ps) = true)
    (himage : creates ps ≠ [] → cluster.workerImage ≠ "")
    (hlog : (createdPods log').map podKind =
      (createdPods log).map podKind ++ (creates ps).map demandKind) :
    PlanInv cluster candidates demands counts (done ++ [group]) (plan.acceptGroup group ps)
      log' := by
  have haccepted : accepted (plan.acceptGroup group ps).decisions =
      accepted plan.decisions ++ ps := by
    simp [accepted, Plan.acceptGroup]
  constructor
  · simp [Plan.acceptGroup, h.order]
  · intro x hx qs hqs
    obtain hx | hx := List.mem_append.mp hx
    · exact h.whole x hx qs hqs
    · rw [List.mem_singleton.mp hx] at hqs ⊢
      cases hqs
      exact hp.whole
  · intro p hp'
    rw [haccepted] at hp'
    obtain hp' | hp' := List.mem_append.mp hp'
    · exact h.suits p hp'
    · exact hp.suits p hp'
  · rw [haccepted, localUsed_append, ← h.used]
    rfl
  · apply List.Nodup.append h.once hp.once
    intro name hn hn'
    exact hp.fresh name hn' hn
  · intro pool
    rw [haccepted, creates_append, List.countP_append, ← Nat.add_assoc, ← h.counted pool]
    rfl
  · rw [haccepted, creates_append, List.map_append, ← h.created, hlog]
  · intro d hd
    rw [haccepted, creates_append] at hd
    exact h.within_accept group hf hd
  · intro hne
    rw [haccepted, creates_append] at hne
    by_cases hold : creates (accepted plan.decisions) = []
    · exact himage (fun hnil => hne (by rw [hold, hnil, List.append_nil]))
    · exact h.image hold

/-- The outcome of the planning of a pass. Every unit of an accepted group has
a worker of its own, found or made; a refused group has none. A pass that
stops with an error has made no worker. -/
structure Planned (cluster : Cluster) (candidates : List WorkerCandidate) (demands : List Demand)
    (counts : String → Nat) (r : Plan × Option ApiError) (log : WorkerLog) : Prop where
  decided : ∃ rest, groups demands = r.1.decisions.map Decision.group ++ rest ∧
    (r.2 = none → rest = [])
  whole : ∀ x ∈ r.1.decisions, ∀ ps, x.placements = some ps →
    ps.map Placement.demand = units (byGroup demands x.group)
  suits : ∀ p ∈ accepted r.1.decisions, Suits candidates p
  used : r.1.used = localUsed (accepted r.1.decisions)
  once : (localUsed (accepted r.1.decisions)).Nodup
  counted : ∀ pool, r.1.counts pool =
    counts pool + (creates (accepted r.1.decisions)).countP (inPool pool)
  created : (createdPods log).map podKind =
    (creates (accepted r.1.decisions)).map demandKind
  within : ∀ pod ∈ createdPods log,
    ((counts pod.pool + (createdPods log).countP (fun p => p.pool == pod.pool) : Nat) : Int) ≤
      (poolSpec cluster pod.pool).scaling.maxWorkers
  failed : r.2 ≠ none → createdPods log = []

theorem PlanInv.within_created {done : List UInt32} {plan : Plan}
    (h : PlanInv cluster candidates demands counts done plan log) :
    ∀ pod ∈ createdPods log,
      ((counts pod.pool + (createdPods log).countP (fun p => p.pool == pod.pool) : Nat) : Int) ≤
        (poolSpec cluster pod.pool).scaling.maxWorkers := by
  intro pod hpod
  have hpools : (createdPods log).map WorkerPod.pool =
      (creates (accepted plan.decisions)).map Demand.poolName := by
    have hmap := congrArg (List.map Prod.fst) h.created
    simpa [List.map_map, Function.comp_def, podKind, demandKind] using hmap
  have hcount : ∀ pool, (createdPods log).countP (fun p => p.pool == pool) =
      (creates (accepted plan.decisions)).countP (inPool pool) := by
    intro pool
    have h1 := congrArg (List.countP (fun name => name == pool)) hpools
    rw [List.countP_map, List.countP_map] at h1
    exact h1
  obtain ⟨d, hd, hpool⟩ : ∃ d ∈ creates (accepted plan.decisions), d.poolName = pod.pool := by
    have hmem : pod.pool ∈ (createdPods log).map WorkerPod.pool := List.mem_map.mpr ⟨pod, hpod, rfl⟩
    rw [hpools] at hmem
    exact List.mem_map.mp hmem
  have hbound := h.within d hd
  rw [h.counted, hpool] at hbound
  rw [hcount]
  exact hbound

theorem PlanInv.planned {done rest : List UInt32} {plan : Plan} {err : Option ApiError}
    (h : PlanInv cluster candidates demands counts done plan log)
    (hdone : groups demands = done ++ rest) (hrest : err = none → rest = [])
    (hfail : err ≠ none → cluster.workerImage = "") :
    Planned cluster candidates demands counts (plan, err) log := by
  refine ⟨⟨rest, by rw [h.order]; exact hdone, hrest⟩, h.whole, h.suits, h.used,
    by rw [← h.used]; exact h.once, h.counted, h.created, h.within_created, ?_⟩
  intro herr
  have hnone : creates (accepted plan.decisions) = [] := by
    by_cases hnil : creates (accepted plan.decisions) = []
    · exact hnil
    · exact absurd (hfail herr) (h.image hnil)
  have hcreated := h.created
  rw [hnone] at hcreated
  exact List.map_eq_nil_iff.mp hcreated

theorem planGroups_ensures (rest : List UInt32) {done : List UInt32} {plan : Plan}
    (hdone : groups demands = done ++ rest)
    (h : PlanInv cluster candidates demands counts done plan log) :
    Ensures (allowed cluster) (fun _ _ => True) (planGroups cluster candidates demands rest plan) log
      (Planned cluster candidates demands counts) := by
  induction rest generalizing done plan log with
  | nil => exact h.planned hdone (fun _ => rfl) (fun hn => absurd rfl hn)
  | cons group rest ih =>
    have hp := place_placed candidates plan.used (byGroup demands group)
    have hnext : groups demands = (done ++ [group]) ++ rest := by
      rw [hdone, List.append_assoc, List.singleton_append]
    unfold planGroups
    dsimp only
    by_cases hf : fits cluster plan.counts (creates (place candidates plan.used
        (byGroup demands group))) = false
    · rw [if_pos hf]
      exact ih hnext (h.refuse group)
    · rw [if_neg hf]
      have hfit := Bool.not_eq_false _ ▸ hf
      apply (createWorkers_spec _ (fun d hd => (fits_creatable hfit hd).1)).bind
      rintro r log' (⟨rfl, himage, hlog⟩ | ⟨⟨e, rfl⟩, himage, rfl⟩)
      · exact ih hnext (h.accept hp hfit himage hlog)
      · exact h.planned hdone (fun he => nomatch he) (fun _ => himage)

end Groups

/-- Worker planning, for any demands, candidates, counts and pool limits: in a
pass whose creations do not fail, groups are all or nothing, no worker is used
twice, and no pool grows beyond its limit. -/
theorem worker_planning {r : Plan × Option ApiError}
    (he : Executes (allowed cluster)
      (planGroups cluster candidates demands (groups demands) ⟨[], counts, []⟩) [] log (some r)) :
    Planned cluster candidates demands counts r log := by
  have hstart : PlanInv cluster candidates demands counts [] ⟨[], counts, []⟩ [] :=
    ⟨rfl, by simp, by simp [accepted], rfl, List.nodup_nil, by simp [accepted, creates],
      by simp [accepted, creates, createdPods], by simp [accepted, creates],
      by simp [accepted, creates]⟩
  exact (planGroups_ensures (groups demands) rfl hstart).result he

def sampleShape : Shape := ⟨2, 1024, 0, ∅, by decide, by decide⟩

def samplePool : WorkerPoolSpec := ⟨"cpu", "batch", "1Ki", ⟨0, 2, 0⟩, []⟩

def sampleCluster : Cluster where
  ns := "jobs"
  name := "c"
  uid := "u"
  pools := [samplePool]
  pools_distinct := by decide
  workerImage := "worker"
  workerMemoryHeadroom := 0
  quantity _ := some 1024
  parseTime _ := none
  formatTime _ := ""
  ownership := firstController

def samplePod : WorkerPod :=
  { newWorker sampleCluster samplePool ⟨1, 1, "cpu", 1, sampleShape⟩ "a" with uid := "p" }

/-- Two units, of which one goes to the worker that is there. -/
def sampleDemand : Demand := ⟨7, 7, "cpu", 2, sampleShape⟩

def sampleAnswer (_ : WorkerLog) : (c : WorkerCall) → WorkerReply c
  | .createPod _ => .ok "q"
  | .getClaim _ _ => .error .notFound
  | .createClaim _ _ _ => .ok ()
  | .listPods => .ok ⟨[], List.nodup_nil⟩
  | .slurmNodes => .ok []
  | .updatePod pod => .ok ⟨pod, rfl, rfl, rfl, rfl, rfl, rfl⟩
  | .openTPUFootprints => .ok ∅
  | .randomText => "b"
  | .now => 0
  | .deletePod _ | .drainNode _ _ | .deleteNode _ => .ok ()

theorem sampleAnswer_allowed (log : WorkerLog) (c : WorkerCall) :
    allowed sampleCluster log ⟨c, sampleAnswer log c⟩ := by
  cases c with
  | createPod pod => exact ⟨"q", rfl⟩
  | getClaim name pod => exact Or.inl rfl
  | createClaim name pod requests => exact Or.inl rfl
  | _ => trivial

def samplePlanning : WorkerLog × Option (Plan × Option ApiError) :=
  follow sampleAnswer 4 (planGroups sampleCluster [⟨samplePod, sampleShape⟩] [sampleDemand]
    (groups [sampleDemand]) ⟨[], fun _ => 1, []⟩) []

theorem worker_planning_sample : ∃ r, samplePlanning.2 = some r ∧ r.1.used = ["c-cpu-a"] ∧
    (createdPods samplePlanning.1).map (fun pod => pod.name) = ["c-cpu-b"] ∧
    Planned sampleCluster [⟨samplePod, sampleShape⟩] [sampleDemand] (fun _ => 1) r
      samplePlanning.1 := by
  have hrun := follow_executes sampleAnswer_allowed 4 (planGroups sampleCluster
    [⟨samplePod, sampleShape⟩] [sampleDemand] (groups [sampleDemand]) ⟨[], fun _ => 1, []⟩) []
  have hsome : samplePlanning.2.isSome = true := by decide +kernel
  obtain ⟨r, hr⟩ := Option.isSome_iff_exists.mp hsome
  have hused : (samplePlanning.2.map (fun r => r.1.used)) = some ["c-cpu-a"] := by decide +kernel
  rw [hr] at hused
  refine ⟨r, hr, Option.some.inj hused, by decide +kernel, ?_⟩
  apply worker_planning
  rw [← hr]
  exact hrun

end HeteroCluster.WorkerPlanning
