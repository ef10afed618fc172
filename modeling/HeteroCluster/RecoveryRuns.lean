import HeteroCluster.RecoveryReconcileKeeps
import Mathlib.Data.List.Induction

namespace HeteroCluster.RecoveryRuns

open GoStrings RecoveryIncident AffectedJobs CallProgram OperatorCalls RecoveryIsolation
open RecoveryReconcile RecoveryEvidence RecoverySteps RecoveryQuiet RecoveryEvacuationKeeps
open RecoveryReconcileKeeps

/-- What is recorded after the reconciles of a history, given their logs. -/
def recorded (hist : List OperatorLog) : Option RecoveryState := storedAfter none hist.flatten

/-- The runs of the controller on one Node. A reconcile may end at any call;
the next one starts from what was recorded. -/
inductive Run (cfg : Config) (name : String) : List OperatorLog → Prop
  | start : Run cfg name []
  | next {hist : List OperatorLog} {log : OperatorLog} {o : Option Outcome}
      (h : Run cfg name hist)
      (he : Executes (allowed (recorded hist)) (reconcile cfg name) [] log o) :
      Run cfg name (hist ++ [log])

variable {cfg : Config} {name : String} {hist : List OperatorLog} {log : OperatorLog}

theorem recorded_snoc (hist : List OperatorLog) (log : OperatorLog) :
    recorded (hist ++ [log]) = storedAfter (recorded hist) log := by
  simp [recorded, storedAfter_append]

theorem effect_save {e : Event Reply} {s : RecoveryState} (h : effect e = some (some s)) :
    ∃ r, e = ⟨.saveState s, r⟩ := by
  unfold effect at h
  split at h <;> simp_all

theorem storedAfter_snoc (stored : Option RecoveryState) (log : OperatorLog) (e : Event Reply) :
    storedAfter stored (log ++ [e]) = (effect e).getD (storedAfter stored log) :=
  storedAfter_append stored log [e]

theorem good_save {stored : Option RecoveryState} {e : Event Reply} {s : RecoveryState}
    (hg : Good cfg stored log e) (he : effect e = some (some s)) :
    Save cfg log (storedAfter stored log) s := by
  obtain ⟨r, rfl⟩ := effect_save he
  exact hg

theorem good_wellFormed {stored : Option RecoveryState} {e : Event Reply}
    (hg : Good cfg stored log e) (hw : ∀ s, storedAfter stored log = some s → WellFormed s) :
    ∀ s, storedAfter stored (log ++ [e]) = some s → WellFormed s := by
  intro s hs
  rw [storedAfter_snoc] at hs
  cases he : effect e with
  | none => exact hw s (by simpa [he] using hs)
  | some o =>
    obtain rfl : o = some s := by simpa [he] using hs
    exact (good_save hg he).wellFormed hw

/-- The induction for runs: a property of histories that holds at the start,
survives the start of a reconcile, and is kept by every good call. -/
theorem Run.invariant (h : Run cfg name hist) (I : List OperatorLog → Prop) (h0 : I [])
    (hnew : ∀ hist, I hist → I (hist ++ [[]]))
    (hstep : ∀ hist log e, I (hist ++ [log]) →
      (∀ s, recorded (hist ++ [log]) = some s → WellFormed s) →
      Good cfg (recorded hist) log e → I (hist ++ [log ++ [e]])) :
    I hist ∧ ∀ s, recorded hist = some s → WellFormed s := by
  induction h with
  | start => exact ⟨h0, by simp [recorded, storedAfter]⟩
  | @next hist log o _ he ih =>
    have hk : Keeps cfg (recorded hist) (reconcile cfg name) [] _ := reconcile_keeps name ih.2
    refine hk.invariant he
      (fun l => I (hist ++ [l]) ∧ ∀ s, recorded (hist ++ [l]) = some s → WellFormed s)
      ?_ ⟨hnew hist ih.1, ?_⟩
    · rintro l e ⟨hi, hw⟩ _ hg
      refine ⟨hstep hist l e hi hw hg, ?_⟩
      rw [recorded_snoc] at hw ⊢
      exact good_wellFormed hg hw
    · rw [recorded_snoc]
      exact ih.2

theorem Run.wellFormed (h : Run cfg name hist) : ∀ s, recorded hist = some s → WellFormed s :=
  (h.invariant (fun _ => True) trivial (fun _ _ => trivial) fun _ _ _ _ _ _ => trivial).2

theorem Run.last (h : Run cfg name (hist ++ [log])) :
    Run cfg name hist ∧ ∃ o, Executes (allowed (recorded hist)) (reconcile cfg name) [] log o := by
  generalize hh : hist ++ [log] = whole at h
  cases h with
  | start => simp at hh
  | @next hist' log' o hr he =>
    obtain ⟨rfl, hlog⟩ := List.append_inj' hh rfl
    obtain rfl : log = log' := by simpa using hlog
    exact ⟨hr, o, he⟩

theorem Run.initial {later : List OperatorLog} (h : Run cfg name (hist ++ later)) :
    Run cfg name hist := by
  induction later using List.reverseRecOn with
  | nil => simpa using h
  | append_singleton later log ih =>
    rw [← List.append_assoc] at h
    exact ih h.last.1

/-- A run could have ended at each of its calls, and each call is good. -/
theorem Run.good (h : Run cfg name hist) {earlier later : List OperatorLog}
    {before after : OperatorLog} {e : Event Reply}
    (hh : hist = earlier ++ (before ++ e :: after) :: later) :
    Good cfg (recorded earlier) before e ∧ Run cfg name (earlier ++ [before]) := by
  subst hh
  have hrun : Run cfg name (earlier ++ [before ++ e :: after] ++ later) := by simpa using h
  obtain ⟨hr, o, he⟩ := hrun.initial.last
  have hk : Keeps cfg (recorded earlier) (reconcile cfg name) [] _ :=
    reconcile_keeps name hr.wellFormed
  obtain ⟨t, ht, hgood, -⟩ := hk.executes he
  exact ⟨by simpa using hgood before e after ht.symm, hr.next (he.cut rfl)⟩

/-- A record of an incident, with the calls its reconcile had made before. -/
abbrev Entry := OperatorLog × RecoveryState

/-- Continue the list of records after a call. Manual repair is the end of an
incident: the next record starts another one. -/
def note (trail : List Entry) (before : OperatorLog) (e : Event Reply) : List Entry :=
  match effect e, trail with
  | none, trail => trail
  | some none, _ => []
  | some (some s), [] => [(before, s)]
  | some (some s), last :: older =>
    if last.2.phase = .manualRepair then [(before, s)] else (before, s) :: last :: older

def noteAll (trail : List Entry) (before : OperatorLog) : OperatorLog → List Entry
  | [] => trail
  | e :: rest => noteAll (note trail before e) (before ++ [e]) rest

/-- The records of the incident that is open after a history, newest first. -/
def incidentTrail (hist : List OperatorLog) : List Entry :=
  hist.foldl (fun trail log => noteAll trail [] log) []

theorem noteAll_snoc (trail : List Entry) (before log : OperatorLog) (e : Event Reply) :
    noteAll trail before (log ++ [e]) = note (noteAll trail before log) (before ++ log) e := by
  induction log generalizing trail before with
  | nil => simp [noteAll]
  | cons f log ih => simp [noteAll, ih]

theorem incidentTrail_new (hist : List OperatorLog) :
    incidentTrail (hist ++ [[]]) = incidentTrail hist := by
  simp [incidentTrail, noteAll]

theorem incidentTrail_snoc (hist : List OperatorLog) (log : OperatorLog) (e : Event Reply) :
    incidentTrail (hist ++ [log ++ [e]]) = note (incidentTrail (hist ++ [log])) log e := by
  simp [incidentTrail, noteAll_snoc]

/-- The life of an incident: a start, then steps, each with the evidence its
own reconcile had gathered. -/
inductive Incident (cfg : Config) : List Entry → Prop
  | none : Incident cfg []
  | start {log : OperatorLog} {old : Option RecoveryState} {s : RecoveryState}
      (h : Start cfg log old s) : Incident cfg [(log, s)]
  | step {log log' : OperatorLog} {s s' : RecoveryState} {older : List Entry}
      (hi : Incident cfg ((log, s) :: older)) (h : Step cfg log' s s') :
      Incident cfg ((log', s') :: (log, s) :: older)

theorem JobStep.phase {log : OperatorLog} {s : RecoveryState} {j j' : RecoveryJob}
    (h : JobStep log s j j') : s.phase = .draining ∨ s.phase = .checkpointing := by
  cases h <;> simp_all

theorem Step.not_manualRepair {s s' : RecoveryState} (h : Step cfg log s s') :
    s.phase ≠ .manualRepair := by
  intro hm
  cases h with
  | job _ hj =>
    have := JobStep.phase hj
    simp_all
  | move _ hp => cases hp <;> simp_all
  | _ => simp_all [Phase.evacuating, Phase.rebootOrLater]

theorem note_head (trail : List Entry) (e : Event Reply) {stored : Option RecoveryState}
    (hs : trail.head?.map Prod.snd = storedAfter stored log) :
    (note trail log e).head?.map Prod.snd = storedAfter stored (log ++ [e]) := by
  rw [storedAfter_snoc]
  unfold note
  split
  · rename_i he
    rw [he, hs]
    rfl
  · rename_i he
    rw [he]
    rfl
  · rename_i he
    rw [he]
    rfl
  · rename_i he
    rw [he]
    split <;> rfl

theorem note_incident {trail : List Entry} {e : Event Reply} {stored : Option RecoveryState}
    (hi : Incident cfg trail) (hs : trail.head?.map Prod.snd = storedAfter stored log)
    (hg : Good cfg stored log e) : Incident cfg (note trail log e) := by
  unfold note
  split
  · exact hi
  · exact .none
  · rename_i he
    have h := good_save hg he
    rw [← hs] at h
    cases h with
    | start h => exact .start h
  · rename_i s last older he
    have h := good_save hg he
    rw [← hs] at h
    cases h with
    | start h =>
      cases h with
      | request node now incident hr hn =>
        rw [if_pos hn.1]
        exact .start (.request node now incident hr hn)
    | step h =>
      rw [if_neg (Step.not_manualRepair h)]
      exact .step hi h

theorem Run.incident (h : Run cfg name hist) : Incident cfg (incidentTrail hist) ∧
    (incidentTrail hist).head?.map Prod.snd = recorded hist := by
  refine (h.invariant (fun hist => Incident cfg (incidentTrail hist) ∧
    (incidentTrail hist).head?.map Prod.snd = recorded hist) ⟨.none, rfl⟩ ?_ ?_).1
  · intro hist hi
    rw [incidentTrail_new, recorded_snoc]
    exact hi
  · intro hist log e hi _ hg
    rw [incidentTrail_snoc, recorded_snoc]
    rw [recorded_snoc] at hi
    exact ⟨note_incident hi.1 hi.2 hg, note_head _ e hi.2⟩

/-- Answers for a run: the record is read as it is, the rest is given. -/
def answer (stored : Option RecoveryState) (world : (c : Call) → Reply c) (log : OperatorLog) :
    (c : Call) → Reply c
  | .getState _ => match storedAfter stored log with
    | some s => .ok ("record", s)
    | none => .error .notFound
  | c => world c

theorem answer_allowed (stored : Option RecoveryState) (world : (c : Call) → Reply c)
    (log : OperatorLog) (c : Call) : allowed stored log ⟨c, answer stored world log c⟩ := by
  cases c with
  | getState n =>
    unfold answer
    cases hs : storedAfter stored log <;> exact hs
  | _ => trivial

/-- The logs of reconciles that are answered as planned and stopped after the
planned number of calls. -/
def replay (cfg : Config) (name : String) (hist : List OperatorLog) :
    List (Nat × ((c : Call) → Reply c)) → List OperatorLog
  | [] => hist
  | (n, world) :: plan =>
    replay cfg name
      (hist ++ [(follow (answer (recorded hist) world) n (reconcile cfg name) []).1]) plan

theorem replay_run (hr : Run cfg name hist) (plan : List (Nat × ((c : Call) → Reply c))) :
    Run cfg name (replay cfg name hist plan) := by
  induction plan generalizing hist with
  | nil => exact hr
  | cons p plan ih =>
    exact ih (hr.next (follow_executes (fun l c => answer_allowed _ _ l c) _ _ _))

/-- Surroundings in which every write succeeds and every removed object is
gone at once. -/
structure World where
  node : Node
  now : Time := 0
  pods : List Pod := []
  jobs : List SlurmJob.Job := []
  verifier : Except ApiError JobObject := .error .notFound

def World.reply (w : World) : (c : Call) → Reply c
  | .getNode _ => .ok w.node
  | .patchNode node => .ok node
  | .getState _ => .error .notFound
  | .saveState _ | .deleteState _ => .saved "record"
  | .now => w.now
  | .newRandom => .ok "00000000-0000-4000-8000-000000000000"
  | .listPods _ => .ok w.pods
  | .getCluster _ _ => .ok ⟨"cluster", false⟩
  | .slurmNodes _ => .ok []
  | .slurmJobs _ => .ok w.jobs
  | .checkpointCommittedSince _ _ _ => .ok false
  | .getPod _ _ | .updatePod _ | .getClaim _ _ => .error .notFound
  | .getJob _ _ => w.verifier
  | .deleteClaim _ _ | .deleteJob _ _ => .error .notFound
  | .setHealthy => ()
  | .patchNodeStatus _ _ | .patchPod _ | .slurmClient _ | .drainNode _ _ _ | .signalJob _ _ _
  | .requeueJob _ _ | .deleteNode _ _ | .deletePod _ _ | .createClaim _ | .createJob _ => .ok ()

def sampleConfig : Config :=
  ⟨"system", 900 * second, "", fun _ => none, canonicalOnly, firstController⟩

def sampleNode : Node :=
  { name := "node", uid := "uid", labels := [("orchestration.gputpu.io/compute", "true")]
    annotations := [], taints := [], bootID := "boot-1"
    conditions := [⟨hardwareFaultCondition, .conditionTrue, "", "", 0, 0⟩] }

def samplePod : Pod :=
  { ns := "team", name := "worker", annotations := [], finalizers := [], deleting := false
    labels := [("app.kubernetes.io/component", "slurmd"),
      ("app.kubernetes.io/managed-by", "slurm-operator")]
    owners := [⟨"HeterogeneousCluster", "orchestration.gputpu.io/v1alpha1", "c", "cluster", true⟩] }

def sampleJob (state : List String) (nodes : List String) : SlurmJob.Job := ⟨7, 0, state, "", nodes⟩

def completed (worlds : List World) : List (Nat × ((c : Call) → Reply c)) :=
  worlds.map (fun w => (100, w.reply))

end HeteroCluster.RecoveryRuns
