import HeteroCluster.RecoveryRuns

namespace HeteroCluster.JobActionsOnce

open GoStrings RecoveryIncident AffectedJobs CallProgram OperatorCalls RecoveryIsolation
open RecoveryEvacuation RecoveryEvidence RecoverySteps RecoveryRuns RecoveryEvacuationKeeps

/-- Continue the calls of an incident. The boundaries are those of its records. -/
def noteCall (acc : Option RecoveryState × OperatorLog) (e : Event Reply) :
    Option RecoveryState × OperatorLog :=
  match effect e, acc.1 with
  | none, stored => (stored, acc.2 ++ [e])
  | some none, _ => (none, [])
  | some (some s), none => (some s, [e])
  | some (some s), some old =>
    if old.phase = .manualRepair then (some s, [e]) else (some s, acc.2 ++ [e])

/-- The calls made since the incident that is open after a history started. -/
def incidentCalls (hist : List OperatorLog) : OperatorLog :=
  (hist.flatten.foldl noteCall (none, [])).2

def accepted : Event Reply → Bool
  | ⟨.signalJob _ _ _, .ok _⟩ => true
  | ⟨.requeueJob _ _, .ok _⟩ => true
  | _ => false

def success (act : JobAction) (e : Event Reply) : Option (String × UInt32) :=
  if accepted e then act.target e.1 else none

def successes (act : JobAction) (k : String × UInt32) (hist : List OperatorLog) : Nat :=
  (incidentCalls hist).countP (fun e => success act e == some k)

def Marked (act : JobAction) (s : RecoveryState) (k : String × UInt32) : Prop :=
  ∃ j ∈ s.jobs, j.ident = k ∧ act.marked j = true

instance (act : JobAction) (s : RecoveryState) (k : String × UInt32) : Decidable (Marked act s k) :=
  inferInstanceAs (Decidable (∃ j ∈ s.jobs, _))

def marks (act : JobAction) (k : String × UInt32) (e : Event Reply) : Bool :=
  match effect e with
  | some (some s) => decide (Marked act s k)
  | _ => false

/-- Every successful call of a reconcile is recorded before the reconcile ends. -/
def settled (act : JobAction) : OperatorLog → Bool
  | [] => true
  | e :: after => (success act e).all (fun k => after.any (marks act k)) && settled act after

variable {cfg : Config} {name : String} {hist : List OperatorLog} {log : OperatorLog}
variable {s s' : RecoveryState} {act : JobAction} {k : String × UInt32}

theorem noteCall_stored (acc : Option RecoveryState × OperatorLog) (e : Event Reply) :
    (noteCall acc e).1 = persist acc.1 e := by
  unfold noteCall persist
  cases effect e with
  | none => rfl
  | some o =>
    cases o with
    | none => rfl
    | some s =>
      cases acc.1 with
      | none => rfl
      | some old =>
        dsimp only
        split <;> rfl

theorem noteCalls_stored (acc : Option RecoveryState × OperatorLog) (log : OperatorLog) :
    (log.foldl noteCall acc).1 = storedAfter acc.1 log := by
  induction log generalizing acc with
  | nil => rfl
  | cons e log ih =>
    rw [List.foldl_cons, ih, noteCall_stored, storedAfter, storedAfter, List.foldl_cons]

theorem incidentCalls_new (hist : List OperatorLog) :
    incidentCalls (hist ++ [[]]) = incidentCalls hist := by
  simp [incidentCalls]

theorem incidentCalls_snoc (hist : List OperatorLog) (log : OperatorLog) (e : Event Reply) :
    incidentCalls (hist ++ [log ++ [e]]) =
      (noteCall (recorded (hist ++ [log]), incidentCalls (hist ++ [log])) e).2 := by
  have hs := noteCalls_stored (none, []) (hist ++ [log]).flatten
  rw [incidentCalls, recorded, ← hs]
  simp [incidentCalls]

/-- An action whose mark no step takes back. -/
def Lasting (act : JobAction) : Prop :=
  ∀ {log s j j'}, JobStep log s j j' → act.marked j = true → act.marked j' = true

theorem signalAction_lasting : Lasting signalAction := by
  intro log s j j' h hm
  cases h <;> first | exact hm | rfl

theorem requeueAction_lasting : Lasting requeueAction := by
  intro log s j j' h hm
  cases h <;> first | exact hm | rfl

theorem Step.marked (hl : Lasting act) (h : Step cfg log s s') (hm : Marked act s k) :
    Marked act s' k := by
  obtain ⟨j, hj, hid, hmark⟩ := hm
  cases h with
  | discover _ hd =>
    rw [hd.same]
    exact ⟨j, hj, hid, hmark⟩
  | addJobs snapshots _ ho =>
    obtain ⟨new, he, -⟩ := addAffectedJobs_spec s snapshots fun p hp => (ho.answered p hp).key
    rw [he]
    exact ⟨j, List.mem_mergeSort.mpr (List.mem_append_left _ hj), hid, hmark⟩
  | @job before rest i i' hs hstep =>
    rw [hs] at hj
    obtain hj | hj := List.mem_append.mp hj
    · exact ⟨j, List.mem_append_left _ hj, hid, hmark⟩
    · obtain rfl | hj := List.mem_cons.mp hj
      · exact ⟨i', by simp [withJobs], hstep.ident_eq.trans hid, hl hstep hmark⟩
      · exact ⟨j, by simp [withJobs, hj], hid, hmark⟩
  | _ => exact ⟨j, hj, hid, hmark⟩

theorem marks_iff {e : Event Reply} :
    marks act k e = true ↔ ∃ s, effect e = some (some s) ∧ Marked act s k := by
  unfold marks
  split <;> simp_all

theorem settled_append {before after : OperatorLog} {e : Event Reply}
    (h : settled act (before ++ e :: after) = true) (he : success act e = some k) :
    ∃ f ∈ after, marks act k f = true := by
  induction before with
  | nil =>
    simp only [List.nil_append, settled, he, Option.all_some, Bool.and_eq_true] at h
    exact List.any_eq_true.mp h.1
  | cons f before ih =>
    simp only [List.cons_append, settled, Bool.and_eq_true] at h
    exact ih h.2

/-- What holds of the successes of an action at any moment: there is one at
most, and it is either recorded or belongs to the reconcile in progress. -/
structure AtMostOnce (act : JobAction) (k : String × UInt32) (hist : List OperatorLog) : Prop where
  once : successes act k hist ≤ 1
  known : successes act k hist ≠ 0 → (∃ s, recorded hist = some s ∧ Marked act s k) ∨
    ∃ before e after, hist.getLast? = some (before ++ e :: after) ∧ success act e = some k ∧
      ∀ f ∈ after, marks act k f = false

theorem AtMostOnce.of_zero (h : successes act k hist = 0) : AtMostOnce act k hist :=
  ⟨by omega, fun hne => absurd h hne⟩

theorem AtMostOnce.new (h : AtMostOnce act k hist) (hs : ∀ log ∈ hist, settled act log = true) :
    AtMostOnce act k (hist ++ [[]]) := by
  have hsame : successes act k (hist ++ [[]]) = successes act k hist := by
    rw [successes, incidentCalls_new, successes]
  refine ⟨hsame ▸ h.once, fun hne => .inl ?_⟩
  rw [recorded_snoc]
  obtain hk | ⟨before, e, after, hlast, he, hn⟩ := h.known (hsame ▸ hne)
  · exact hk
  · obtain ⟨f, hf, hm⟩ := settled_append (hs _ (List.mem_of_getLast? hlast)) he
    rw [hn f hf] at hm
    exact absurd hm Bool.false_ne_true

theorem success_target {e : Event Reply} (h : success act e = some k) : act.target e.1 = some k := by
  unfold success at h
  split at h
  · exact h
  · cases h

theorem effect_of_success {e : Event Reply} (h : success act e = some k) : effect e = none := by
  have ha : accepted e = true := by
    by_contra hn
    simp [success, hn] at h
  obtain ⟨c, r⟩ := e
  cases c <;> simp_all [accepted, effect]

def Guarded (act : JobAction) : Prop :=
  ∀ {cfg stored log e k}, Good cfg stored log e → act.target e.1 = some k →
    FirstCall (storedAfter stored log) log act k

theorem signalAction_guarded : Guarded signalAction := by
  rintro cfg stored log ⟨c, r⟩ k hg hc
  cases c <;> simp only [signalAction, reduceCtorEq, Option.some.injEq] at hc
  exact hc ▸ hg.2

theorem requeueAction_guarded : Guarded requeueAction := by
  rintro cfg stored log ⟨c, r⟩ k hg hc
  cases c <;> simp only [requeueAction, reduceCtorEq, Option.some.injEq] at hc
  exact hc ▸ hg

theorem not_marked_of_firstCall (h : FirstCall (some s) log act k) (hw : WellFormed s) :
    ¬ Marked act s k := by
  rintro ⟨i, hi, hid, hm⟩
  obtain ⟨-, t, j, hs, hj, hjd, hn⟩ := h
  obtain rfl : s = t := Option.some.inj hs
  have hij : i = j := List.inj_on_of_nodup_map hw.jobsNodup hi hj (hid.trans hjd.symm)
  rw [hij, hn] at hm
  exact Bool.false_ne_true hm

theorem AtMostOnce.call {e : Event Reply} (h : AtMostOnce act k (hist ++ [log]))
    (hf : FirstCall (recorded (hist ++ [log])) log act k)
    (hw : ∀ s, recorded (hist ++ [log]) = some s → WellFormed s) (he : success act e = some k) :
    AtMostOnce act k (hist ++ [log ++ [e]]) := by
  have hzero : successes act k (hist ++ [log]) = 0 := by
    by_contra hne
    obtain ⟨s, hs, hm⟩ | ⟨before, f, after, hlast, hsucc, -⟩ := h.known hne
    · rw [hs] at hf
      exact not_marked_of_firstCall hf (hw s hs) hm
    · obtain rfl : log = before ++ f :: after := by simpa using hlast
      exact hf.1 f (by simp) (success_target hsucc)
  have hone : successes act k (hist ++ [log ++ [e]]) = 1 := by
    rw [successes] at hzero
    rw [successes, incidentCalls_snoc, noteCall, effect_of_success he]
    simp only [List.countP_append, hzero, List.countP_singleton, he, beq_self_eq_true, if_true]
  exact ⟨hone.le, fun _ => .inr ⟨log, e, [], by simp, he, by simp⟩⟩

theorem AtMostOnce.within {e : Event Reply} (h : AtMostOnce act k (hist ++ [log]))
    (he : success act e ≠ some k)
    (hc : incidentCalls (hist ++ [log ++ [e]]) = incidentCalls (hist ++ [log]) ++ [e])
    (hm : ∀ s, recorded (hist ++ [log]) = some s → Marked act s k →
      ∃ s', recorded (hist ++ [log ++ [e]]) = some s' ∧ Marked act s' k) :
    AtMostOnce act k (hist ++ [log ++ [e]]) := by
  have hsame : successes act k (hist ++ [log ++ [e]]) = successes act k (hist ++ [log]) := by
    simp [successes, hc, he]
  refine ⟨hsame ▸ h.once, fun hne => ?_⟩
  obtain ⟨s, hs, hk⟩ | ⟨before, f, after, hlast, hf, hn⟩ := h.known (hsame ▸ hne)
  · exact .inl (hm s hs hk)
  · obtain rfl : log = before ++ f :: after := by simpa using hlast
    cases hmark : marks act k e with
    | true =>
      obtain ⟨s, hs, hk⟩ := marks_iff.mp hmark
      refine .inl ⟨s, ?_, hk⟩
      rw [recorded_snoc, storedAfter_snoc, hs]
      rfl
    | false =>
      refine .inr ⟨before, f, after ++ [e], by simp, hf, ?_⟩
      intro g hg
      obtain hg | hg := List.mem_append.mp hg
      · exact hn g hg
      · exact List.mem_singleton.mp hg ▸ hmark

theorem AtMostOnce.other {e : Event Reply} (hl : Lasting act)
    (h : AtMostOnce act k (hist ++ [log])) (hg : Good cfg (recorded hist) log e)
    (he : success act e ≠ some k) : AtMostOnce act k (hist ++ [log ++ [e]]) := by
  have hrec : recorded (hist ++ [log ++ [e]]) = (effect e).getD (recorded (hist ++ [log])) := by
    rw [recorded_snoc, storedAfter_snoc, recorded_snoc]
  have hcalls := incidentCalls_snoc hist log e
  cases heff : effect e with
  | none =>
    rw [noteCall, heff] at hcalls
    refine h.within he hcalls fun s hs hk => ⟨s, ?_, hk⟩
    rw [hrec, heff, hs]
    rfl
  | some o =>
    cases o with
    | none =>
      rw [noteCall, heff] at hcalls
      exact .of_zero (by simp [successes, hcalls])
    | some s' =>
      have hsave := good_save hg heff
      rw [← recorded_snoc] at hsave
      cases hold : recorded (hist ++ [log]) with
      | none =>
        rw [noteCall, heff, hold] at hcalls
        exact .of_zero (by simp [successes, hcalls, he])
      | some s =>
        rw [hold] at hsave
        rw [noteCall, heff, hold] at hcalls
        dsimp only at hcalls
        cases hsave with
        | start hstart =>
          cases hstart with
          | request node now incident hr hn =>
            rw [if_pos hn.1] at hcalls
            exact .of_zero (by simp [successes, hcalls, he])
        | step hstep =>
          rw [if_neg (Step.not_manualRepair hstep)] at hcalls
          refine h.within he hcalls fun t ht hk => ⟨s', by rw [hrec, heff]; rfl, ?_⟩
          obtain rfl : s = t := Option.some.inj (hold.symm.trans ht)
          exact Step.marked hl hstep hk

theorem atMostOnce_of_settled (hl : Lasting act) (hgd : Guarded act) (h : Run cfg name hist)
    (hs : ∀ log ∈ hist.dropLast, settled act log = true) : AtMostOnce act k hist := by
  refine (h.invariant (fun hist => (∀ log ∈ hist.dropLast, settled act log = true) →
    AtMostOnce act k hist) ?_ ?_ ?_).1 hs
  · exact fun _ => .of_zero rfl
  · intro hist hi hs
    rw [List.dropLast_concat] at hs
    exact (hi fun log hm => hs log ((List.dropLast_sublist hist).subset hm)).new hs
  · intro hist log e hi hw hg hs
    rw [List.dropLast_concat] at hs hi
    by_cases he : success act e = some k
    · have hf := hgd hg (success_target he)
      rw [← recorded_snoc] at hf
      exact (hi hs).call hf hw he
    · exact (hi hs).other hl hg he

/-- While every reconcile records its successful calls before it ends, each job
is signalled once and requeued once at most. -/
theorem job_actions_once_of_settled (h : Run cfg name hist)
    (hs : ∀ log ∈ hist.dropLast, settled signalAction log = true ∧ settled requeueAction log = true)
    (k : String × UInt32) :
    successes signalAction k hist ≤ 1 ∧ successes requeueAction k hist ≤ 1 := by
  have hsignal : AtMostOnce signalAction k hist :=
    atMostOnce_of_settled signalAction_lasting signalAction_guarded h fun log hm => (hs log hm).1
  have hrequeue : AtMostOnce requeueAction k hist :=
    atMostOnce_of_settled requeueAction_lasting requeueAction_guarded h fun log hm => (hs log hm).2
  exact ⟨hsignal.once, hrequeue.once⟩

/-- A job on the worker, while the Node is isolated and drained, and after the
grace period. -/
def busy (now : Time) : World :=
  { node := sampleNode, now := now, pods := [samplePod], jobs := [sampleJob ["RUNNING"] ["worker"]] }

def busyRun : List OperatorLog :=
  replay sampleConfig "node" [] (completed [busy 0, busy 0, busy (200 * second), busy (300 * second)])

theorem job_actions_once_of_settled_busyRun :
    successes signalAction ("team/c", 7) busyRun = 1 ∧
      successes requeueAction ("team/c", 7) busyRun = 1 ∧
      successes signalAction ("team/c", 7) busyRun ≤ 1 ∧
      successes requeueAction ("team/c", 7) busyRun ≤ 1 :=
  ⟨by decide +kernel, by decide +kernel,
    job_actions_once_of_settled (replay_run .start _) (by decide +kernel) _⟩

def elsewhere (now : Time) : World := { busy now with jobs := [sampleJob ["RUNNING"] ["other"]] }

/-- The operator stops between an accepted call and the save that would record
it. The next reconcile signals the job again, or requeues it again although it
already runs on a healthy node. -/
theorem called_twice_after_crash :
    (∃ hist, Run sampleConfig "node" hist ∧ successes signalAction ("team/c", 7) hist = 2) ∧
      ∃ hist, Run sampleConfig "node" hist ∧ successes requeueAction ("team/c", 7) hist = 2 := by
  constructor
  · exact ⟨replay sampleConfig "node" [] [(100, (busy 0).reply), (16, (busy 0).reply),
      (100, (busy 0).reply)], replay_run .start _, by decide +kernel⟩
  · exact ⟨replay sampleConfig "node" [] [(100, (busy 0).reply), (100, (busy 0).reply),
      (17, (busy (200 * second)).reply), (100, (elsewhere (300 * second)).reply)],
      replay_run .start _, by decide +kernel⟩

end HeteroCluster.JobActionsOnce
