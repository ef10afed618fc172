import HeteroCluster.WorkerCleanup

namespace HeteroCluster.WorkerSettling

open CallProgram GoStrings OperatorCalls RecoveryEvacuation WorkerCleanup WorkerPods
open WorkerReconcile

/-- The claim of the Pod was found, allocated and its own. -/
def Held (cluster : Cluster) (pod : WorkerPod) (log : WorkerLog) : Prop :=
  ∃ reader claim, (⟨.getClaim (get pod.annotations workerClaimAnnotation) reader, .ok claim⟩ :
      WorkerEvent) ∈ log ∧ reader.name = pod.name ∧ claim.allocated = true ∧
    cluster.ownership.isControlledBy claim.owners pod.uid = true

/-- The reasons for which the first loop takes a Pod down. -/
def Removable (cluster : Cluster) (node : Option SlurmNode) (pod : WorkerPod) (log : WorkerLog) :
    Prop :=
  pod.deleting = true ∨ pod.phase = .failed ∨ pod.draining = true ∨
    (∃ n, node = some n) ∧ ¬ Held cluster pod log

/-- What has become of a Pod after the first loop: it belongs to a recovery
incident, or it stays, or it is taken down for a reason. -/
inductive Settled (cluster : Cluster) (node : Option SlurmNode) (pod : WorkerPod)
    (log : WorkerLog) : WorkerPod → Prop
  | recovering (h : pod.recovering = true) : Settled cluster node pod log pod
  | stays {finalizers : List String} (hlive : pod.deleting = false)
      (hrunning : pod.phase ≠ .failed) (hstaying : pod.draining = false)
      (hkept : ¬ Deleted pod.name log) (hclaimed : ∀ n, node = some n → Held cluster pod log) :
      Settled cluster node pod log { pod with finalizers := finalizers }
  | removed {pod' : WorkerPod} (hname : pod'.name = pod.name) (hgone : Gone pod' pod.name log)
      (hreason : Removable cluster node pod log) : Settled cluster node pod log pod'

variable {cluster : Cluster} {nodeByName : String → Option SlurmNode} {pod : WorkerPod}
variable {log log' : WorkerLog} {finalizers : List String} {node : Option SlurmNode}

theorem Settled.name {pod' : WorkerPod}
    (h : Settled cluster node pod log pod') : pod'.name = pod.name := by
  cases h with
  | recovering => rfl
  | stays => rfl
  | removed hname => exact hname

theorem Held.mono (h : Held cluster pod log) (hl : log ⊆ log') : Held cluster pod log' := by
  obtain ⟨reader, claim, he, hrest⟩ := h
  exact ⟨reader, claim, hl he, hrest⟩

theorem held_grows (hg : Grows (fun c => ∀ name reader, c = .getClaim name reader →
    reader.name ≠ pod.name) log log') (h : Held cluster pod log') : Held cluster pod log := by
  obtain ⟨t, rfl, ht⟩ := hg
  obtain ⟨reader, claim, he, hname, hrest⟩ := h
  cases List.mem_append.mp he with
  | inl he => exact ⟨reader, claim, he, hname, hrest⟩
  | inr he => exact absurd hname (ht _ he _ reader rfl)

/-- The answer to a last call is the only one that can show the claim. -/
theorem held_snoc {name : String} {reader : WorkerPod} {r : WorkerReply (.getClaim name reader)}
    (hheld : ¬ Held cluster pod log) (h : Held cluster pod (log ++ [⟨.getClaim name reader, r⟩])) :
    ∃ claim, r = .ok claim ∧ claim.allocated = true ∧
      cluster.ownership.isControlledBy claim.owners pod.uid = true := by
  obtain ⟨reader', claim, he, hname, hok⟩ := h
  cases List.mem_append.mp he with
  | inl he => exact absurd ⟨reader', claim, he, hname, hok⟩ hheld
  | inr he =>
    have heq := List.mem_singleton.mp he
    cases heq
    exact ⟨claim, rfl, hok⟩

theorem Removable.lasts (h : Removable cluster node pod log)
    (hheld : Held cluster pod log' → Held cluster pod log) : Removable cluster node pod log' := by
  obtain hdeleting | hfailed | hdraining | ⟨hn, hnot⟩ := h
  · exact Or.inl hdeleting
  · exact Or.inr (Or.inl hfailed)
  · exact Or.inr (Or.inr (Or.inl hdraining))
  · exact Or.inr (Or.inr (Or.inr ⟨hn, fun h => hnot (hheld h)⟩))

theorem settled_stays (hlive : pod.deleting = false) (hrunning : pod.phase ≠ .failed)
    (hstaying : pod.draining = false) (hkept : ¬ Deleted pod.name log)
    (hclaimed : ∀ n, node = some n → Held cluster pod log)
    (hg : Grows (fun c => c ≠ .deletePod pod.name) log log') :
    Settled cluster node pod log' { pod with finalizers := finalizers } := by
  refine .stays hlive hrunning hstaying ?_ (fun n hn => (hclaimed n hn).mono hg.subset)
  intro hd
  exact hkept (deleted_grows hg hd)

theorem Settled.grows {pod' : WorkerPod} (h : Settled cluster node pod log pod')
    (hg : Grows (fun c => subject c ≠ some pod.name) log log') :
    Settled cluster node pod log' pod' := by
  have hheld : Held cluster pod log' → Held cluster pod log := by
    apply held_grows
    apply hg.imp
    rintro _ hc name reader rfl hname
    exact hc (congrArg some hname)
  cases h with
  | recovering hr => exact .recovering hr
  | stays hlive hrunning hstaying hkept hclaimed =>
    apply settled_stays hlive hrunning hstaying hkept hclaimed
    apply hg.imp
    rintro _ hc rfl
    exact hc rfl
  | removed hname hgone hreason =>
    refine .removed hname ?_ (hreason.lasts hheld)
    obtain hd | hd | hd := hgone
    · exact Or.inl hd
    · exact Or.inr (Or.inl hd)
    · exact Or.inr (Or.inr (hd.mono hg.subset))

theorem cleanupWorker_settled (hreason : Removable cluster node pod log) :
    Calls (own pod.name) (cleanupWorker { pod with finalizers := finalizers } node) log
      (fun r log' => ∀ pod', r = .ok pod' → Settled cluster node pod log' pod') := by
  have hgone : Calls (cleaning pod.name) (cleanupWorker { pod with finalizers := finalizers } node)
    log _ := cleanupWorker_gone { pod with finalizers := finalizers } node
  apply (hgone.grows (fun _ _ => own_of_cleaning)).mono
  rintro r log' ⟨hr, hg⟩ pod' hpod
  obtain ⟨hname, hgone⟩ := hr pod' hpod
  refine .removed hname hgone (hreason.lasts ?_)
  apply held_grows
  apply hg.imp
  rintro c hc name reader rfl
  exact hc.elim

theorem ensureClaimOf_settled (hlive : pod.deleting = false) (hrunning : pod.phase ≠ .failed)
    (hstaying : pod.draining = false) (hkept : ¬ Deleted pod.name log)
    (hclaimed : ∀ n, node = some n → Held cluster pod log) :
    Calls (own pod.name) (ensureClaimOf cluster { pod with finalizers := finalizers }) log
      (fun r log' => ∀ pod', r = .ok pod' → Settled cluster node pod log' pod') := by
  have hclaims : Calls (claiming pod.name)
    (ensureWorkerClaim cluster { pod with finalizers := finalizers }) log _ :=
    ensureWorkerClaim_claims { pod with finalizers := finalizers }
  unfold ensureClaimOf
  apply (hclaims.grows (fun _ _ => own_of_claiming)).bind
  rintro r log' ⟨-, hg⟩
  split
  · rintro pod' ⟨⟩
  · rintro pod' ⟨⟩
    apply settled_stays hlive hrunning hstaying hkept hclaimed
    apply hg.imp
    rintro _ hc rfl
    exact hc

theorem checkRegistered_settled {n : SlurmNode} (hlive : pod.deleting = false)
    (hrunning : pod.phase ≠ .failed) (hstaying : pod.draining = false)
    (hkept : ¬ Deleted pod.name log) (hheld : ¬ Held cluster pod log) :
    Calls (own pod.name) (checkRegistered cluster { pod with finalizers := finalizers } n) log
      (fun r log' => ∀ pod', r = .ok pod' → Settled cluster (some n) pod log' pod') := by
  have hreason : ∀ {l : WorkerLog}, ¬ Held cluster pod l → Removable cluster (some n) pod l :=
    fun h => Or.inr (Or.inr (Or.inr ⟨⟨n, rfl⟩, h⟩))
  unfold checkRegistered
  dsimp only
  split
  · exact cleanupWorker_settled (hreason hheld)
  · apply Ensures.perform (fun _ _ => Or.inr rfl)
    intro r _
    cases r with
    | error e =>
      have hnot : ¬ Held cluster pod (log ++ [⟨.getClaim (get pod.annotations workerClaimAnnotation)
          { pod with finalizers := finalizers }, .error e⟩]) := by
        intro h
        obtain ⟨claim, hc, -⟩ := held_snoc hheld h
        cases hc
      cases e with
      | notFound => exact cleanupWorker_settled (hreason hnot)
      | _ =>
        rintro pod' ⟨⟩
    | ok claim =>
      dsimp only
      split
      next hbad =>
        apply cleanupWorker_settled
        apply hreason
        intro h
        obtain ⟨claim', hc, hallocated, hcontrolled⟩ := held_snoc hheld h
        cases hc
        cases hbad with
        | inl hbad => exact absurd (hallocated.symm.trans hbad) (by decide)
        | inr hbad => exact absurd (hcontrolled.symm.trans hbad) (by decide)
      next hgood =>
        rw [not_or, Bool.not_eq_false, Bool.not_eq_false] at hgood
        apply ensureClaimOf_settled hlive hrunning hstaying
        · intro hd
          apply hkept
          apply deleted_grows ⟨_, rfl, ?_⟩ hd
          simp
        · intro m _
          exact ⟨_, claim, List.mem_append_right log (List.mem_singleton_self _), rfl, hgood⟩

/-- No call so far was about the Pod. -/
def Fresh (pod : WorkerPod) (log : WorkerLog) : Prop := ∀ e ∈ log, subject e.1 ≠ some pod.name

theorem Fresh.grows (h : Fresh pod log) (hg : Grows (fun c => subject c ≠ some pod.name) log log') :
    Fresh pod log' := by
  obtain ⟨t, rfl, ht⟩ := hg
  intro e he
  cases List.mem_append.mp he with
  | inl he => exact h e he
  | inr he => exact ht e he

theorem Fresh.not_deleted (h : Fresh pod log) : ¬ Deleted pod.name log := by
  rintro ⟨r, hr⟩
  exact h _ hr rfl

theorem Fresh.not_held (h : Fresh pod log) : ¬ Held cluster pod log := by
  rintro ⟨reader, claim, he, hname, -⟩
  exact h _ he (congrArg some hname)

theorem settleWorker_settled (hfresh : Fresh pod log) :
    Calls (own pod.name) (settleWorker cluster nodeByName pod) log
      (fun r log' => ∀ pod', r = .ok pod' → Settled cluster (nodeByName pod.name) pod log' pod') := by
  unfold settleWorker
  split
  · rintro pod' ⟨⟩
  split
  next hrecovering =>
    rintro pod' ⟨⟩
    exact .recovering hrecovering
  split
  next hdeleting =>
    have hself : { pod with finalizers := pod.finalizers } = pod := rfl
    rw [← hself]
    exact cleanupWorker_settled (Or.inl hdeleting)
  next hlive =>
    rw [Bool.not_eq_true] at hlive
    apply ((restoreFinalizer_keeps pod).grows (fun _ _ => own_of_general)).bind
    rintro r log' ⟨hr, hg⟩
    have hfresh' : Fresh pod log' := hfresh.grows (hg.imp fun _ => general_subject)
    split
    · rintro pod' ⟨⟩
    next pod1 =>
      obtain ⟨fs, rfl⟩ := hr pod1 rfl
      split
      next hout =>
        apply cleanupWorker_settled
        cases hout with
        | inl hd => exact Or.inr (Or.inr (Or.inl hd))
        | inr hf => exact Or.inr (Or.inl hf)
      next hin =>
        have hstaying : pod.draining = false := by
          rw [not_or, Bool.not_eq_true] at hin
          exact hin.1
        have hrunning : pod.phase ≠ .failed := fun h => hin (Or.inr h)
        dsimp only
        split
        next n hn =>
          rw [hn]
          exact checkRegistered_settled hlive hrunning hstaying hfresh'.not_deleted hfresh'.not_held
        next hn =>
          rw [hn]
          apply ensureClaimOf_settled hlive hrunning hstaying hfresh'.not_deleted
          rintro n ⟨⟩

theorem settleWorkers_settled {pods : List WorkerPod}
    (hnames : (pods.map (fun pod => pod.name)).Nodup)
    (hfresh : ∀ pod ∈ pods, Fresh pod log) :
    Calls (ownAny pods) (settleWorkers cluster nodeByName pods) log (fun r log' =>
      ∀ settled, r = .ok settled →
        List.Forall₂ (fun pod pod' => Settled cluster (nodeByName pod.name) pod log' pod') pods
          settled) := by
  induction pods generalizing log with
  | nil =>
    rintro settled ⟨⟩
    exact .nil
  | cons pod pods ih =>
    rw [List.map_cons, List.nodup_cons] at hnames
    have hother : ∀ p ∈ pods, p.name ≠ pod.name := by
      intro p hp heq
      exact hnames.1 (List.mem_map.mpr ⟨p, hp, heq⟩)
    unfold settleWorkers
    apply ((settleWorker_settled (hfresh pod List.mem_cons_self)).grows
      (fun _ _ => ownAny_of_own)).bind
    rintro r log' ⟨hr, hg⟩
    split
    · rintro settled ⟨⟩
    next pod' =>
      have hsettled := hr pod' rfl
      have hfresh' : ∀ p ∈ pods, Fresh p log' := by
        intro p hp
        apply (hfresh p (List.mem_cons_of_mem pod hp)).grows
        apply hg.imp
        intro c hc
        exact own_subject hc (hother p hp).symm
      apply ((ih hnames.2 hfresh').grows (fun _ _ => ownAny_cons)).bind
      rintro r log'' ⟨hrest, hg'⟩
      split
      · rintro settled ⟨⟩
      next settled =>
        rintro all ⟨⟩
        refine .cons (hsettled.grows (hg'.imp ?_)) (hrest settled rfl)
        intro c hc
        exact ownAny_subject hc hother

theorem settlePods_settled {pods : List WorkerPod} (nodes : List SlurmNode)
    (hnames : (pods.map (fun pod => pod.name)).Nodup)
    (hfresh : ∀ pod ∈ pods, Fresh pod log) :
    Calls (ownAny pods) (settlePods cluster nodes pods) log (fun r log' =>
      ∀ settled, r = .ok settled → List.Forall₂
        (fun pod pod' => Settled cluster (nodesByName nodes pod.name) pod log' pod') pods settled) := by
  unfold settlePods
  apply (settleWorkers_settled hnames hfresh).bind
  intro r log' hr
  split
  · rintro settled ⟨⟩
  next settled =>
    have hgeneral : ∀ (l : WorkerLog) (e : WorkerEvent), general e.1 → ownAny pods e.1 :=
      fun _ _ => Or.inl
    apply ((removeOrphans_general _ nodes).grows hgeneral).bind
    rintro r log'' ⟨-, hg⟩
    split
    · rintro settled ⟨⟩
    · rintro settled ⟨⟩
      apply (hr settled rfl).imp
      intro pod pod' hs
      apply hs.grows
      apply hg.imp
      intro c hc
      exact general_subject hc

end HeteroCluster.WorkerSettling
