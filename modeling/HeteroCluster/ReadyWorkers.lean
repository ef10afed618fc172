import HeteroCluster.WorkerMatching

namespace HeteroCluster.ReadyWorkers

open CallProgram GoStrings OperatorCalls RecoveryEvacuation WorkerDemand WorkerPods WorkerCleanup
open WorkerReconcile WorkerMatching WorkerPlanning

section Removal

def target : WorkerCall → Option String
  | .updatePod pod => some pod.name
  | .deletePod name | .drainNode name _ | .deleteNode name => some name
  | _ => none

/-- The call starts or goes on with the removal of a worker. -/
def removes (pod : WorkerPod) : WorkerCall → Bool
  | .deletePod name | .drainNode name _ | .deleteNode name => name == pod.name
  | .updatePod update => update.name == pod.name &&
      (update.draining || pod.finalizers.contains workerFinalizer &&
        !update.finalizers.contains workerFinalizer)
  | _ => false

def removed (log : WorkerLog) (pod : WorkerPod) : Bool := log.any (fun e => removes pod e.1)

def serving (pod : WorkerPod) : Bool := podReady pod && !pod.deleting && !pod.draining

def readyIn (pool : String) (pods : List WorkerPod) : Nat :=
  pods.countP (fun pod => pod.pool == pool && serving pod)

/-- The ready workers of a pool whose removal has not been started. -/
def left (pool : String) (pods : List WorkerPod) (log : WorkerLog) : Nat :=
  pods.countP (fun pod => pod.pool == pool && serving pod && !removed log pod)

structure MayRemove (cluster : Cluster) (nodeByName : String → Option SlurmNode)
    (assigned : List String) (log : WorkerLog) (pod : WorkerPod) : Prop where
  unassigned : pod.name ∉ assigned
  idle : podReady pod = false ∨ ∃ node, nodeByName pod.name = some node ∧ nodeIdle node = true
  waited : podReady pod = true → ∃ since now,
    cluster.parseTime (get pod.annotations workerIdleAnnotation) = some since ∧
    (⟨.now, now⟩ : WorkerEvent) ∈ log ∧ (poolSpec cluster pod.pool).scaling.idleTimeout ≤ now - since

variable {pod : WorkerPod} {pods : List WorkerPod} {log log' : WorkerLog} {pool : String}

theorem target_of_removes {c : WorkerCall} (h : removes pod c = true) : target c = some pod.name := by
  cases c with
  | updatePod update => exact congrArg some (eq_of_beq (Bool.and_eq_true_iff.mp h).1)
  | deletePod name => exact congrArg some (eq_of_beq h)
  | drainNode name reason => exact congrArg some (eq_of_beq h)
  | deleteNode name => exact congrArg some (eq_of_beq h)
  | _ => cases h

theorem removed_append (log t : WorkerLog) :
    removed (log ++ t) pod = (removed log pod || removed t pod) :=
  List.any_append

theorem removed_of_grows {name : String} (hg : Grows (fun c => target c = some name) log log')
    (hname : pod.name ≠ name) : removed log' pod = removed log pod := by
  obtain ⟨t, rfl, ht⟩ := hg
  have hnone : removed t pod = false := by
    rw [removed, List.any_eq_false]
    intro e he hremoves
    exact hname (Option.some.inj ((target_of_removes hremoves).symm.trans (ht e he)))
  rw [removed_append, hnone, Bool.or_false]

theorem left_append (a b : List WorkerPod) :
    left pool (a ++ b) log = left pool a log + left pool b log :=
  List.countP_append

theorem left_congr (h : ∀ q ∈ pods, removed log' q = removed log q) :
    left pool pods log' = left pool pods log := by
  apply List.countP_congr
  intro q hq
  rw [h q hq]

end Removal

section Calls

variable {pod : WorkerPod} {log : WorkerLog}

abbrev about (name : String) (c : WorkerCall) : Prop := target c = some name

theorem deleteWorker_about {name : String} (hname : pod.name = name) :
    Calls (about name) (deleteWorker pod) log (fun _ _ => True) := by
  unfold deleteWorker
  split
  · trivial
  · apply Ensures.perform (fun _ _ => congrArg some hname)
    intro r _
    split <;> trivial

theorem releaseWorker_about (pod : WorkerPod) :
    Calls (about pod.name) (releaseWorker pod) log (fun _ _ => True) := by
  unfold releaseWorker
  split
  · apply Ensures.perform (fun _ _ => rfl)
    intro r _
    split
    · exact deleteWorker_about rfl
    · trivial
    next stored _ => exact deleteWorker_about stored.2.name
  · exact deleteWorker_about rfl

theorem setWorkerAnnotation_about (pod : WorkerPod) (key value : String) :
    Calls (about pod.name) (do setWorkerAnnotation pod key value) log (fun _ _ => True) := by
  unfold setWorkerAnnotation
  apply Ensures.perform (fun _ _ => rfl)
  intro r _
  split <;> trivial

theorem cleanupWorker_about (pod : WorkerPod) (node : Option SlurmNode) :
    Calls (about pod.name) (cleanupWorker pod node) log (fun _ _ => True) := by
  cases node with
  | none => exact releaseWorker_about pod
  | some node =>
    rw [cleanupWorker]
    split
    · apply Ensures.perform (fun _ _ => rfl)
      intro r _
      split
      · trivial
      · exact setWorkerAnnotation_about pod _ _
    · split
      · trivial
      · apply Ensures.perform (fun _ _ => rfl)
        intro r _
        split
        · trivial
        · exact releaseWorker_about pod

/-- Updates that leave the draining and the finalizers alone, and reading the
clock, remove nobody. -/
def quiet (pod : WorkerPod) : WorkerCall → Prop
  | .updatePod update => update.name = pod.name ∧ update.draining = pod.draining ∧
      update.finalizers = pod.finalizers
  | .now => True
  | _ => False

theorem setWorkerAnnotation_quiet (pod : WorkerPod) (value : String) :
    Calls (quiet pod) (do setWorkerAnnotation pod workerIdleAnnotation value) log
      (fun _ _ => True) := by
  unfold setWorkerAnnotation
  apply Ensures.perform
  · intro r _
    refine ⟨rfl, ?_, rfl⟩
    have hne : workerDrainAnnotation ≠ workerIdleAnnotation := by decide
    simp only [WorkerPod.draining]
    split
    · rw [get_delete_of_ne _ hne]
    · rw [get_set_of_ne _ _ hne]
  · intro r _
    split <;> trivial

end Calls

section Loop

variable {cluster : Cluster} {nodeByName : String → Option SlurmNode} {assigned : List String}
  {all done rest : List WorkerPod} {pod : WorkerPod} {ready : String → Int} {log log' : WorkerLog}

/-- A call may be made if it is about a Pod of the list, the worker it removes may
go, and the removal of a ready one has been started already or leaves enough of
them. -/
structure Justified (cluster : Cluster) (nodeByName : String → Option SlurmNode)
    (assigned : List String) (all : List WorkerPod) (log : WorkerLog) (e : WorkerEvent) : Prop where
  listed : ∀ name, target e.1 = some name → ∃ q ∈ all, q.name = name
  removal : ∀ q ∈ all, removes q e.1 = true → MayRemove cluster nodeByName assigned log q
  enough : ∀ q ∈ all, removes q e.1 = true → serving q = true → removed log q = true ∨
    (poolSpec cluster q.pool).scaling.minReady < left q.pool all log

/-- The state of the loop between two Pods: the counter of a pool does not exceed
the ready workers that are left among the Pods done. -/
structure Counted (done rest : List WorkerPod) (ready : String → Int) (log : WorkerLog) : Prop where
  ready_le : ∀ pool, ready pool ≤ left pool done log
  untouched : ∀ q ∈ rest, removed log q = false

def Distinct (pods : List WorkerPod) : Prop := (pods.map (fun pod => pod.name)).Nodup

theorem Distinct.eq_of_name (h : Distinct all) {p q : WorkerPod} (hp : p ∈ all) (hq : q ∈ all)
    (hname : p.name = q.name) : p = q :=
  List.inj_on_of_nodup_map h hp hq hname

theorem Distinct.ne_of_mem (h : Distinct (done ++ pod :: rest)) {q : WorkerPod}
    (hq : q ∈ done ∨ q ∈ rest) : q.name ≠ pod.name := by
  unfold Distinct at h
  simp only [List.map_append, List.map_cons, List.nodup_append, List.nodup_cons] at h
  obtain ⟨-, ⟨hrest, -⟩, hdone⟩ := h
  intro hname
  obtain hq | hq := hq
  · exact hdone _ (List.mem_map_of_mem hq) _ List.mem_cons_self hname
  · exact hrest (hname ▸ List.mem_map_of_mem hq)

theorem removes_quiet (h : Distinct all) (hpod : pod ∈ all) (hdraining : pod.draining = false)
    {c : WorkerCall} (hc : quiet pod c) {q : WorkerPod} (hq : q ∈ all) : removes q c = false := by
  cases c with
  | updatePod update =>
    obtain ⟨hname, hdrain, hfinalizers⟩ := hc
    by_cases hqname : q.name = pod.name
    · obtain rfl := h.eq_of_name hq hpod hqname
      simp [removes, hdrain, hdraining, hfinalizers]
    · have hne : (update.name == q.name) = false := by
        rw [hname, beq_eq_false_iff_ne]
        exact Ne.symm hqname
      simp [removes, hne]
  | now => rfl
  | _ => exact hc.elim

theorem removed_of_quiet (h : Distinct all) (hpod : pod ∈ all) (hdraining : pod.draining = false)
    (hg : Grows (quiet pod) log log') {q : WorkerPod} (hq : q ∈ all) :
    removed log' q = removed log q := by
  obtain ⟨t, rfl, ht⟩ := hg
  have hnone : removed t q = false := by
    rw [removed, List.any_eq_false]
    intro e he hremoves
    rw [removes_quiet h hpod hdraining (ht e he) hq] at hremoves
    cases hremoves
  rw [removed_append, hnone, Bool.or_false]

theorem quiet_target {c : WorkerCall} (hc : quiet pod c) {name : String} (h : target c = some name) :
    pod.name = name := by
  cases c with
  | updatePod update => exact hc.1.symm.trans (Option.some.inj h)
  | now => cases h
  | _ => exact hc.elim

theorem justified_of_quiet (h : Distinct all) (hpod : pod ∈ all) (hdraining : pod.draining = false)
    (l : WorkerLog) (e : WorkerEvent) (he : quiet pod e.1) :
    Justified cluster nodeByName assigned all l e := by
  have hnone : ∀ q ∈ all, ¬ removes q e.1 = true := by
    intro q hq
    rw [removes_quiet h hpod hdraining he hq]
    decide
  exact ⟨fun name hname => ⟨pod, hpod, quiet_target he hname⟩,
    fun q hq hremoves => absurd hremoves (hnone q hq),
    fun q hq hremoves => absurd hremoves (hnone q hq)⟩

theorem Counted.quiet (h : Distinct (done ++ rest)) (hpod : pod ∈ done ++ rest)
    (hdraining : pod.draining = false) (hcounted : Counted done rest ready log)
    (hg : Grows (quiet pod) log log') : Counted done rest ready log' := by
  constructor
  · intro pool
    rw [left_congr (fun q hq => removed_of_quiet h hpod hdraining hg (List.mem_append_left rest hq))]
    exact hcounted.ready_le pool
  · intro q hq
    rw [removed_of_quiet h hpod hdraining hg (List.mem_append_right done hq)]
    exact hcounted.untouched q hq

theorem Counted.next (h : Distinct (done ++ pod :: rest))
    (hcounted : Counted done (pod :: rest) ready log) (hg : Grows (about pod.name) log log') :
    Counted (done ++ [pod]) rest ready log' := by
  constructor
  · intro pool
    have hdone : left pool done log' = left pool done log :=
      left_congr (fun q hq => removed_of_grows hg (h.ne_of_mem (.inl hq)))
    have hle := hcounted.ready_le pool
    rw [left_append, hdone]
    omega
  · intro q hq
    rw [removed_of_grows hg (h.ne_of_mem (.inr hq))]
    exact hcounted.untouched q (List.mem_cons_of_mem pod hq)

theorem Counted.now (h : Distinct (done ++ rest)) (hpod : pod ∈ done ++ rest)
    (hdraining : pod.draining = false) (hcounted : Counted done rest ready log) (r : WorkerReply .now) :
    Counted done rest ready (log ++ [⟨.now, r⟩]) :=
  hcounted.quiet h hpod hdraining (Grows.snoc log ⟨.now, r⟩ trivial)

def countReady (ready : String → Int) (pod : WorkerPod) : String → Int :=
  if podReady pod then Function.update ready pod.pool (ready pod.pool + 1) else ready

theorem Counted.count (hcounted : Counted done (pod :: rest) ready log)
    (hdeleting : pod.deleting = false) (hdraining : pod.draining = false) :
    Counted (done ++ [pod]) rest (countReady ready pod) log := by
  refine ⟨fun pool => ?_, fun q hq => hcounted.untouched q (List.mem_cons_of_mem pod hq)⟩
  have hle := hcounted.ready_le pool
  have hnew : removed log pod = false := hcounted.untouched pod List.mem_cons_self
  rw [left_append, countReady]
  by_cases hready : podReady pod = true
  · rw [if_pos hready]
    by_cases hpool : pod.pool = pool
    · have hone : left pool [pod] log = 1 := by
        simp [left, hpool, serving, hready, hdeleting, hdraining, hnew]
      rw [← hpool, Function.update_self, hpool, hone]
      omega
    · rw [Function.update_of_ne (Ne.symm hpool)]
      omega
  · rw [if_neg hready]
    omega

/-- An error of the last call ends the round, and otherwise its Pod is kept. -/
theorem counted_of_stored {good : WorkerLog → WorkerEvent → Prop}
    {program : Run (Except ApiError WorkerPod)}
    (h : Ensures anyReply good program log (fun _ log' => Counted done rest ready log')) :
    Ensures anyReply good (do
      match ← program with
      | .error e => return .error e
      | .ok stored => return .ok (ready, stored) : Run (Except ApiError ((String → Int) × WorkerPod)))
      log (fun r log' => ∀ ready' pod', r = .ok (ready', pod') → Counted done rest ready' log') := by
  apply h.bind
  intro r log' hcounted
  cases r with
  | error e =>
    rintro ready' pod' ⟨⟩
  | ok stored =>
    rintro ready' pod' ⟨⟩
    exact hcounted

theorem setIdle_ensures (h : Distinct (done ++ pod :: rest)) (hdraining : pod.draining = false)
    (hcounted : Counted (done ++ [pod]) rest ready log) (value : String) :
    Ensures anyReply (Justified cluster nodeByName assigned (done ++ pod :: rest))
      (do setWorkerAnnotation pod workerIdleAnnotation value) log
      (fun _ log' => Counted (done ++ [pod]) rest ready log') := by
  have hpod : pod ∈ done ++ pod :: rest := by simp
  apply ((setWorkerAnnotation_quiet pod value).grows (justified_of_quiet h hpod hdraining)).mono
  rintro r log' ⟨-, hg⟩
  have hsame : done ++ pod :: rest = (done ++ [pod]) ++ rest := by simp
  rw [hsame] at h hpod
  exact hcounted.quiet h hpod hdraining hg

theorem clearIdle_ensures (h : Distinct (done ++ pod :: rest)) (hdraining : pod.draining = false)
    (hcounted : Counted (done ++ [pod]) rest ready log) :
    Ensures anyReply (Justified cluster nodeByName assigned (done ++ pod :: rest)) (clearIdle ready pod)
      log (fun r log' => ∀ ready' pod', r = .ok (ready', pod') →
        Counted (done ++ [pod]) rest ready' log') := by
  unfold clearIdle
  split
  · rintro ready' pod' ⟨⟩
    exact hcounted
  · exact counted_of_stored (setIdle_ensures h hdraining hcounted "")

theorem cleanupWorker_ensures (h : Distinct (done ++ pod :: rest)) (node : Option SlurmNode)
    (hmay : MayRemove cluster nodeByName assigned log pod)
    (henough : serving pod = true →
      (poolSpec cluster pod.pool).scaling.minReady < left pod.pool (done ++ pod :: rest) log)
    (hcounted : Counted done (pod :: rest) ready log) :
    Ensures anyReply (Justified cluster nodeByName assigned (done ++ pod :: rest))
      (cleanupWorker pod node) log (fun _ log' => Counted (done ++ [pod]) rest ready log') := by
  refine ((cleanupWorker_about pod node).within ?_).mono fun _ log' hlog => hcounted.next h hlog.2
  intro l e hl he
  have hpod : pod ∈ done ++ pod :: rest := by simp
  have hself : ∀ q ∈ done ++ pod :: rest, removes q e.1 = true → q = pod := by
    intro q hq hremoves
    have hname : q.name = pod.name := Option.some.inj ((target_of_removes hremoves).symm.trans he)
    exact h.eq_of_name hq hpod hname
  constructor
  · intro name hname
    exact ⟨pod, hpod, Option.some.inj (he.symm.trans hname)⟩
  · intro q hq hremoves
    rw [hself q hq hremoves]
    refine ⟨hmay.unassigned, hmay.idle, fun hready => ?_⟩
    obtain ⟨since, now, hsince, hnow, hwait⟩ := hmay.waited hready
    exact ⟨since, now, hsince, hl.subset hnow, hwait⟩
  · intro q hq hremoves hserving
    rw [hself q hq hremoves] at hserving ⊢
    by_cases hremoved : removed l pod = true
    · exact .inl hremoved
    · right
      have hbefore : removed log pod = false := hcounted.untouched pod List.mem_cons_self
      have hsame : left pod.pool (done ++ pod :: rest) l = left pod.pool (done ++ pod :: rest) log := by
        apply left_congr
        intro p hp
        by_cases hname : p.name = pod.name
        · rw [h.eq_of_name hp hpod hname, hbefore]
          exact Bool.not_eq_true _ ▸ hremoved
        · exact removed_of_grows hl hname
      rw [hsame]
      exact henough hserving

theorem poolSpec_name {name : String} (h : knownPool cluster name = true) :
    (poolSpec cluster name).name = name := by
  obtain ⟨pool, hpool, hname⟩ := List.any_eq_true.mp h
  unfold poolSpec
  cases hfind : cluster.pools.find? (fun pool => pool.name == name) with
  | none => exact absurd hname (List.find?_eq_none.mp hfind pool hpool)
  | some found => simpa using List.find?_some hfind

theorem countReady_undo (ready : String → Int) (hready : podReady pod = true) :
    Function.update (countReady ready pod) pod.pool (countReady ready pod pod.pool - 1) = ready := by
  rw [countReady, if_pos hready, Function.update_idem, Function.update_self, Int.add_sub_cancel,
    Function.update_eq_self]

theorem retireIdle_ensures {node : SlurmNode} (h : Distinct (done ++ pod :: rest))
    (hdeleting : pod.deleting = false) (hdraining : pod.draining = false)
    (hknown : knownPool cluster pod.pool = true) (hready : podReady pod = true)
    (hassigned : pod.name ∉ assigned) (hnode : nodeByName pod.name = some node)
    (hidle : nodeIdle node = true) (hcounted : Counted done (pod :: rest) ready log) :
    Ensures anyReply (Justified cluster nodeByName assigned (done ++ pod :: rest))
      (retireIdle cluster (poolSpec cluster pod.pool) (countReady ready pod) pod (some node)) log
      (fun r log' => ∀ ready' pod', r = .ok (ready', pod') →
        Counted (done ++ [pod]) rest ready' log') := by
  have hpod : pod ∈ done ++ pod :: rest := by simp
  have hsame : done ++ pod :: rest = (done ++ [pod]) ++ rest := by simp
  have hcount := hcounted.count hdeleting hdraining
  have hjustified : ∀ l e, quiet pod e.1 →
      Justified cluster nodeByName assigned (done ++ pod :: rest) l e :=
    justified_of_quiet h hpod hdraining
  unfold retireIdle
  rw [poolSpec_name hknown]
  split
  · rintro ready' pod' ⟨⟩
    exact hcount
  next hmore =>
    split
    · apply Ensures.perform (fun r _ => hjustified log ⟨.now, r⟩ trivial)
      intro now _
      have hnow := hcount.now (hsame ▸ h) (hsame ▸ hpod) hdraining now
      exact counted_of_stored (setIdle_ensures h hdraining hnow _)
    next since hsince =>
      apply Ensures.perform (fun r _ => hjustified log ⟨.now, r⟩ trivial)
      intro now _
      have hnow := hcounted.now h hpod hdraining now
      split
      · rintro ready' pod' ⟨⟩
        rw [hsame] at h hpod
        exact hcount.now h hpod hdraining now
      next hwait =>
        have hmay : MayRemove cluster nodeByName assigned (log ++ [⟨.now, now⟩]) pod := by
          refine ⟨hassigned, .inr ⟨node, hnode, hidle⟩, fun _ => ⟨since, now, hsince, by simp, ?_⟩⟩
          exact not_lt.mp hwait
        have henough : (poolSpec cluster pod.pool).scaling.minReady <
            left pod.pool (done ++ pod :: rest) (log ++ [⟨.now, now⟩]) := by
          have hle := (hnow.count hdeleting hdraining).ready_le pod.pool
          rw [hsame, left_append]
          omega
        rw [countReady_undo ready hready]
        exact counted_of_stored (cleanupWorker_ensures h (some node) hmay (fun _ => henough) hnow)

theorem scaleDownWorker_ensures (h : Distinct (done ++ pod :: rest))
    (hcounted : Counted done (pod :: rest) ready log) :
    Ensures anyReply (Justified cluster nodeByName assigned (done ++ pod :: rest))
      (scaleDownWorker cluster nodeByName assigned ready pod) log
      (fun r log' => ∀ ready' pod', r = .ok (ready', pod') →
        Counted (done ++ [pod]) rest ready' log') := by
  unfold scaleDownWorker
  split
  · rintro ready' pod' ⟨⟩
    exact hcounted.next h (Grows.refl log)
  next hlive =>
    rw [not_or, not_or, not_or, Bool.not_eq_false, Bool.not_eq_true, Bool.not_eq_true] at hlive
    obtain ⟨hknown, hdeleting, hdraining, -⟩ := hlive
    have hcount : (if podReady pod = true then Function.update ready (poolSpec cluster pod.pool).name
        (ready (poolSpec cluster pod.pool).name + 1) else ready) = countReady ready pod := by
      rw [poolSpec_name hknown, countReady]
    dsimp only
    rw [hcount]
    split
    · exact clearIdle_ensures h hdraining (hcounted.count hdeleting hdraining)
    next hcapacity =>
      simp only [Bool.or_eq_true, Bool.not_eq_true, not_or, Bool.not_eq_true', Bool.not_eq_false,
        List.contains_eq_mem, decide_eq_false_iff_not] at hcapacity
      obtain ⟨hassigned, hidle⟩ := hcapacity
      by_cases hready : podReady pod = true
      · obtain ⟨node, hnode, hidle⟩ :
            ∃ node, nodeByName pod.name = some node ∧ nodeIdle node = true := by
          rw [hready, Option.any_eq_true] at hidle
          simpa using hidle
        rw [hnode, if_neg (by simp [hready])]
        exact retireIdle_ensures h hdeleting hdraining hknown hready hassigned hnode hidle hcounted
      · -- a Pod that is not ready goes at once, and was not counted
        have hnot : podReady pod = false := Bool.not_eq_true _ ▸ hready
        have hmay : MayRemove cluster nodeByName assigned log pod :=
          ⟨hassigned, .inl hnot, fun hpos => absurd hpos hready⟩
        have hserving : serving pod = false := by simp [serving, hnot]
        rw [if_pos (.inl hnot), countReady, if_neg hready]
        exact counted_of_stored (cleanupWorker_ensures h (nodeByName pod.name) hmay
          (fun hpos => absurd (hserving.symm.trans hpos) (by decide)) hcounted)

theorem scaleDown_ensures (h : Distinct (done ++ rest)) (hcounted : Counted done rest ready log) :
    Ensures anyReply (Justified cluster nodeByName assigned (done ++ rest))
      (scaleDown cluster nodeByName assigned rest ready) log (fun _ _ => True) := by
  induction rest generalizing done ready log with
  | nil => trivial
  | cons pod rest ih =>
    rw [scaleDown]
    apply (scaleDownWorker_ensures h hcounted).bind
    intro r log' hlog
    have hsame : done ++ pod :: rest = (done ++ [pod]) ++ rest := by simp
    cases r with
    | error e => trivial
    | ok result =>
      rw [hsame] at h ⊢
      apply (ih h (hlog _ _ rfl)).bind
      intro r log'' _
      split <;> trivial

end Loop

section Counts

variable {cluster : Cluster} {nodeByName : String → Option SlurmNode} {assigned : List String}
  {pods : List WorkerPod} {log : WorkerLog} {pool : WorkerPoolSpec}

theorem countP_le_add {α : Type} {l : List α} {p q r : α → Bool}
    (h : ∀ a, p a = true → q a = true ∨ r a = true) : l.countP p ≤ l.countP q + l.countP r := by
  induction l with
  | nil => simp
  | cons a l ih =>
    simp only [List.countP_cons]
    by_cases hp : p a = true
    · obtain hq | hr := h a hp
      · rw [if_pos hp, if_pos hq]
        omega
      · rw [if_pos hp, if_pos hr]
        omega
    · rw [if_neg hp]
      omega

theorem countP_name_le_one (h : Distinct pods) (name : String) :
    pods.countP (fun pod => pod.name == name) ≤ 1 := by
  have hcount := List.nodup_iff_count_le_one.mp h name
  rwa [List.count, List.countP_map] at hcount

theorem left_snoc (h : Distinct pods) (name : String) (log : WorkerLog) (e : WorkerEvent) :
    left name pods log ≤ left name pods (log ++ [e]) + 1 := by
  have hone : pods.countP (fun pod => removes pod e.1) ≤ 1 := by
    cases htarget : target e.1 with
    | none =>
      have hzero : pods.countP (fun pod => removes pod e.1) = 0 := by
        rw [List.countP_eq_zero]
        intro pod _ hremoves
        rw [target_of_removes hremoves] at htarget
        cases htarget
      omega
    | some target =>
      refine le_trans (List.countP_mono_left ?_) (countP_name_le_one h target)
      intro pod _ hremoves
      rw [target_of_removes hremoves] at htarget
      simpa using Option.some.inj htarget
  have hsplit : left name pods log ≤
      left name pods (log ++ [e]) + pods.countP (fun pod => removes pod e.1) := by
    apply countP_le_add
    intro pod hcounted
    by_cases hremoves : removes pod e.1 = true
    · exact .inr hremoves
    · left
      rw [Bool.not_eq_true] at hremoves
      simpa [removed, hremoves] using hcounted
  omega

theorem poolSpec_of_mem (h : pool ∈ cluster.pools) : poolSpec cluster pool.name = pool := by
  unfold poolSpec
  cases hfind : cluster.pools.find? (fun p => p.name == pool.name) with
  | none => simpa using List.find?_eq_none.mp hfind pool h
  | some found =>
    have hname : found.name = pool.name := by simpa using List.find?_some hfind
    exact List.inj_on_of_nodup_map cluster.pools_distinct (List.mem_of_find?_eq_some hfind) h hname

theorem enough_left (h : Distinct pods) (hpool : pool ∈ cluster.pools) {e : WorkerEvent}
    (hleft : min pool.scaling.minReady (readyIn pool.name pods) ≤ left pool.name pods log)
    (hjustified : Justified cluster nodeByName assigned pods log e) :
    min pool.scaling.minReady (readyIn pool.name pods) ≤ left pool.name pods (log ++ [e]) := by
  by_cases hfirst : ∃ q ∈ pods, q.pool = pool.name ∧ serving q = true ∧ removes q e.1 = true ∧
      removed log q = false
  · obtain ⟨q, hq, hqpool, hserving, hremoves, hbefore⟩ := hfirst
    have hmore : (poolSpec cluster q.pool).scaling.minReady < left q.pool pods log := by
      obtain hremoved | hmore := hjustified.enough q hq hremoves hserving
      · exact absurd (hbefore.symm.trans hremoved) (by decide)
      · exact hmore
    rw [hqpool, poolSpec_of_mem hpool] at hmore
    have hone := left_snoc h pool.name log e
    omega
  · have hkept : left pool.name pods log ≤ left pool.name pods (log ++ [e]) := by
      apply List.countP_mono_left
      intro q hq hcounted
      simp only [Bool.and_eq_true, beq_iff_eq, Bool.not_eq_true'] at hcounted ⊢
      obtain ⟨⟨hqpool, hserving⟩, hbefore⟩ := hcounted
      refine ⟨⟨hqpool, hserving⟩, ?_⟩
      rw [removed_append, hbefore, Bool.false_or, removed, List.any_cons, List.any_nil, Bool.or_false]
      by_contra hremoves
      exact hfirst ⟨q, hq, hqpool, hserving, Bool.not_eq_false _ ▸ hremoves, hbefore⟩
    omega

end Counts

/-- One pass of the loop, complete or not: it removes only workers that may go,
and leaves enough ready ones in each pool. -/
theorem scale_down_keeps_ready (cluster : Cluster) (nodeByName : String → Option SlurmNode)
    (assigned : List String) (pods : List WorkerPod) (log : WorkerLog)
    (o : Option (Except ApiError (List WorkerPod)))
    (hnames : (pods.map (fun pod => pod.name)).Nodup)
    (he : Executes anyReply (scaleDown cluster nodeByName assigned pods (fun _ => 0)) [] log o) :
    (∀ before e after, log = before ++ e :: after →
      (∀ name, target e.1 = some name → ∃ pod ∈ pods, pod.name = name) ∧
      ∀ pod ∈ pods, removes pod e.1 = true → MayRemove cluster nodeByName assigned before pod) ∧
    ∀ pool ∈ cluster.pools,
      min pool.scaling.minReady (readyIn pool.name pods) ≤ left pool.name pods log := by
  have hcounted : Counted [] pods (fun _ => 0) [] := ⟨fun _ => le_rfl, fun _ _ => rfl⟩
  have hdistinct : Distinct ([] ++ pods) := hnames
  have hensures : Ensures anyReply (Justified cluster nodeByName assigned pods)
      (scaleDown cluster nodeByName assigned pods (fun _ => 0)) [] (fun _ _ => True) :=
    scaleDown_ensures hdistinct hcounted
  constructor
  · intro before e after hlog
    obtain ⟨t, ht, hgood, -⟩ := hensures.executes he
    obtain rfl : log = t := ht
    have hjustified := hgood before e after hlog
    exact ⟨hjustified.listed, hjustified.removal⟩
  · intro pool hpool
    apply hensures.invariant he (fun l =>
      min pool.scaling.minReady (readyIn pool.name pods : Int) ≤ left pool.name pods l)
    · exact fun l e hleft _ hjustified => enough_left hnames hpool hleft hjustified
    · have hall : left pool.name pods [] = readyIn pool.name pods := by simp [left, readyIn, removed]
      rw [hall]
      exact min_le_right _ _

section Samples

def retiringCluster : Cluster :=
  { sampleCluster with
    pools := [{ samplePool with scaling := ⟨1, 2, 60⟩ }]
    pools_distinct := List.nodup_singleton _
    parseTime := fun _ => some (-60) }

def readyWorker (name : String) : WorkerPod :=
  { samplePod with name := name, phase := .running, conditions := [⟨"Ready", .conditionTrue⟩] }

def readyWorkers : List WorkerPod := [readyWorker "c-cpu-a", readyWorker "c-cpu-b"]

def idleNode (_ : String) : Option SlurmNode := some (sampleNode ["IDLE"])

def retiring : WorkerLog × Option (Except ApiError (List WorkerPod)) :=
  follow sampleAnswer 9 (scaleDown retiringCluster idleNode [] readyWorkers (fun _ => 0)) []

/-- Two ready workers, of which the second may go. -/
theorem scale_down_sample : retiring.2.isSome = true ∧
    readyWorkers.map (removed retiring.1) = [false, true] ∧
    ∀ pool ∈ retiringCluster.pools,
      min pool.scaling.minReady (readyIn pool.name readyWorkers) ≤
        left pool.name readyWorkers retiring.1 := by
  have hrun : Executes anyReply (scaleDown retiringCluster idleNode [] readyWorkers (fun _ => 0)) []
      retiring.1 retiring.2 := follow_executes (fun _ _ => trivial) 9 _ []
  have hnames : (readyWorkers.map (fun pod => pod.name)).Nodup := by decide
  exact ⟨by decide +kernel, by decide +kernel,
    (scale_down_keeps_ready retiringCluster idleNode [] readyWorkers _ _ hnames hrun).2⟩

end Samples

end HeteroCluster.ReadyWorkers
