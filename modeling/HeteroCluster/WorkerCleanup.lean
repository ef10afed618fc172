import HeteroCluster.WorkerReconcile

namespace HeteroCluster.WorkerCleanup

open CallProgram GoStrings OperatorCalls WorkerPods WorkerReconcile

def anyReply (_ : WorkerLog) (_ : WorkerEvent) : Prop := True

def Deleted (name : String) (log : WorkerLog) : Prop :=
  ∃ r, (⟨.deletePod name, r⟩ : WorkerEvent) ∈ log

variable {cluster : Cluster} {pod : WorkerPod} {log log' : WorkerLog}

def subject : WorkerCall → Option String
  | .deletePod name => some name
  | .getClaim _ pod => some pod.name
  | _ => none

def general (c : WorkerCall) : Prop := subject c = none

theorem general_subject {c : WorkerCall} {name : String} (h : general c) :
    subject c ≠ some name := by
  rw [h]
  simp

def cleaning (name : String) : WorkerCall → Prop
  | .deletePod n => n = name
  | .updatePod _ | .drainNode _ _ | .deleteNode _ => True
  | _ => False

def claiming (name : String) : WorkerCall → Prop
  | .getClaim _ pod => pod.name = name
  | .createClaim _ _ _ => True
  | _ => False

def Gone (pod : WorkerPod) (name : String) (log : WorkerLog) : Prop :=
  pod.draining = true ∨ pod.deleting = true ∨ Deleted name log

theorem Deleted.mono {name : String} (h : Deleted name log) (hl : log ⊆ log') :
    Deleted name log' := by
  obtain ⟨r, hr⟩ := h
  exact ⟨r, hl hr⟩

theorem deleted_grows {name : String} (hg : Grows (fun c => c ≠ .deletePod name) log log')
    (h : Deleted name log') : Deleted name log := by
  obtain ⟨t, rfl, ht⟩ := hg
  obtain ⟨r, hr⟩ := h
  cases List.mem_append.mp hr with
  | inl hr => exact ⟨r, hr⟩
  | inr hr => exact absurd rfl (ht _ hr)

abbrev Calls {α : Type} (kind : WorkerCall → Prop) (p : Run α) (log : WorkerLog)
    (post : α → WorkerLog → Prop) : Prop :=
  Ensures anyReply (fun _ e => kind e.1) p log post

theorem deleteWorker_gone {name : String} (hname : pod.name = name) :
    Calls (cleaning name) (deleteWorker pod) log
      (fun r log' => ∀ pod', r = .ok pod' → pod'.name = name ∧ Gone pod' name log') := by
  subst hname
  unfold deleteWorker
  split
  next hd =>
    rintro pod' ⟨⟩
    exact ⟨rfl, Or.inr (Or.inl hd)⟩
  · apply Ensures.perform (fun _ _ => rfl)
    intro r _
    split
    · rintro pod' ⟨⟩
    · rintro pod' ⟨⟩
      exact ⟨rfl, Or.inr (Or.inr ⟨r, by simp⟩)⟩

theorem releaseWorker_gone (pod : WorkerPod) :
    Calls (cleaning pod.name) (releaseWorker pod) log
      (fun r log' => ∀ pod', r = .ok pod' → pod'.name = pod.name ∧ Gone pod' pod.name log') := by
  unfold releaseWorker
  split
  · apply Ensures.perform (fun _ _ => trivial)
    intro r _
    split
    · exact deleteWorker_gone rfl
    · rintro pod' ⟨⟩
    next stored _ => exact deleteWorker_gone stored.2.name
  · exact deleteWorker_gone rfl

theorem setWorkerAnnotation_drains (pod : WorkerPod) :
    Calls (cleaning pod.name) (do setWorkerAnnotation pod workerDrainAnnotation "true") log
      (fun r _ => ∀ pod', r = .ok pod' → pod'.name = pod.name ∧ pod'.draining = true) := by
  unfold setWorkerAnnotation
  apply Ensures.perform (fun _ _ => trivial)
  intro r _
  split
  · rintro pod' ⟨⟩
  next stored _ =>
    rintro pod' ⟨⟩
    refine ⟨rfl, ?_⟩
    rw [WorkerPod.draining, stored.2.annotations, if_neg (by decide), get_set]
    rfl

theorem cleanupWorker_gone (pod : WorkerPod) (node : Option SlurmNode) :
    Calls (cleaning pod.name) (cleanupWorker pod node) log
      (fun r log' => ∀ pod', r = .ok pod' → pod'.name = pod.name ∧ Gone pod' pod.name log') := by
  cases node with
  | none => exact releaseWorker_gone pod
  | some node =>
    rw [cleanupWorker]
    split
    · apply Ensures.perform (fun _ _ => trivial)
      intro r _
      split
      · rintro pod' ⟨⟩
      · apply (setWorkerAnnotation_drains pod).mono
        intro r log' hr pod' hpod
        obtain ⟨hname, hd⟩ := hr pod' hpod
        exact ⟨hname, Or.inl hd⟩
    next hd =>
      split
      · rintro pod' ⟨⟩
        exact ⟨rfl, Or.inl (Bool.not_eq_false _ ▸ hd)⟩
      · apply Ensures.perform (fun _ _ => trivial)
        intro r _
        split
        · rintro pod' ⟨⟩
        · exact releaseWorker_gone pod

theorem ensureWorkerClaim_claims (pod : WorkerPod) :
    Calls (claiming pod.name) (ensureWorkerClaim cluster pod) log (fun _ _ => True) := by
  unfold ensureWorkerClaim
  dsimp only
  split
  · trivial
  · apply Ensures.perform (fun _ _ => rfl)
    intro r _
    split
    · trivial
    · split
      · trivial
      · split
        · trivial
        · split
          · trivial
          · apply Ensures.perform (fun _ _ => trivial)
            intro r _
            split <;> trivial
    · trivial

theorem restoreFinalizer_keeps (pod : WorkerPod) :
    Calls general (restoreFinalizer pod) log
      (fun r _ => ∀ pod', r = .ok pod' →
        ∃ finalizers, pod' = { pod with finalizers := finalizers }) := by
  unfold restoreFinalizer
  split
  · rintro pod' ⟨⟩
    exact ⟨pod.finalizers, rfl⟩
  · apply Ensures.perform (fun _ _ => rfl)
    intro r _
    split
    · rintro pod' ⟨⟩
    next stored _ =>
      rintro pod' ⟨⟩
      exact ⟨stored.1.finalizers, rfl⟩

def own (name : String) (c : WorkerCall) : Prop := general c ∨ subject c = some name

theorem own_of_general {name : String} {c : WorkerCall} (h : general c) : own name c := Or.inl h

theorem own_of_cleaning {name : String} {c : WorkerCall} (h : cleaning name c) : own name c := by
  cases c with
  | deletePod n => exact Or.inr (congrArg some h)
  | updatePod | drainNode | deleteNode => exact Or.inl rfl
  | _ => exact h.elim

theorem own_of_claiming {name : String} {c : WorkerCall} (h : claiming name c) : own name c := by
  cases c with
  | getClaim n reader => exact Or.inr (congrArg some h)
  | createClaim => exact Or.inl rfl
  | _ => exact h.elim

theorem own_subject {name name' : String} {c : WorkerCall} (h : own name c) (hne : name ≠ name') :
    subject c ≠ some name' := by
  cases h with
  | inl hg => exact general_subject hg
  | inr hs =>
    rw [hs]
    intro heq
    exact hne (Option.some.inj heq)

def ownAny (pods : List WorkerPod) (c : WorkerCall) : Prop :=
  general c ∨ ∃ pod ∈ pods, subject c = some pod.name

theorem ownAny_of_own {pods : List WorkerPod} {c : WorkerCall} (h : own pod.name c) :
    ownAny (pod :: pods) c := by
  cases h with
  | inl hg => exact Or.inl hg
  | inr hs => exact Or.inr ⟨pod, List.mem_cons_self, hs⟩

theorem ownAny_cons {pods : List WorkerPod} {c : WorkerCall} (h : ownAny pods c) :
    ownAny (pod :: pods) c := by
  obtain hg | ⟨p, hp, hs⟩ := h
  · exact Or.inl hg
  · exact Or.inr ⟨p, List.mem_cons_of_mem pod hp, hs⟩

theorem ownAny_subject {pods : List WorkerPod} {c : WorkerCall} (h : ownAny pods c)
    (hp : ∀ p ∈ pods, p.name ≠ pod.name) : subject c ≠ some pod.name := by
  cases h with
  | inl hg => exact general_subject hg
  | inr h =>
    obtain ⟨p, hmem, hs⟩ := h
    exact own_subject (Or.inr hs) (hp p hmem)

theorem removeOrphans_general (podNames : List String) (nodes : List SlurmNode) :
    Calls general (removeOrphans cluster podNames nodes) log (fun _ _ => True) := by
  induction nodes generalizing log with
  | nil => trivial
  | cons node nodes ih =>
    unfold removeOrphans
    split
    · exact ih
    · split
      · apply Ensures.perform (fun _ _ => rfl)
        intro r _
        split
        · trivial
        · exact ih
      · apply Ensures.perform (fun _ _ => rfl)
        intro r _
        split
        · trivial
        · exact ih

end HeteroCluster.WorkerCleanup
