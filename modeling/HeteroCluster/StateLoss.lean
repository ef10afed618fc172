import HeteroCluster.RecoveryRuns

namespace HeteroCluster.StateLoss

open GoStrings RecoveryIncident CallProgram OperatorCalls RecoveryIsolation RecoveryReconcile
open RecoveryEvidence RecoveryQuiet RecoveryRuns

def rawStatus (node : Node) : ConditionStatus :=
  nodeConditionStatus node.conditions hardwareFaultCondition

def request (node : Node) : String := get node.annotations recoveryRequestKey

def Reads (name : String) (node : Node) (log : OperatorLog) : Prop :=
  ∃ rest, log = ⟨.getNode name, .ok node⟩ :: rest

/-- The reconcile finds that the fault is gone and that the administrator asks
for a new incident, with another request than the given one. -/
def Released (cfg : Config) (v : String) (log : OperatorLog) : Prop :=
  ∃ name node, Reads name node log ∧ rawStatus node = .conditionFalse ∧ request node ≠ v ∧
    validIncident cfg (request node) = true

/-- The Node as it is written in manual repair: tainted, and without a request
for a reboot that was not there. -/
structure Isolated (s : RecoveryState) (log : OperatorLog) (copy : Node) : Prop where
  tainted : copy.taints.any (fun t => Taint.same t degradedTaint) = true
  incident : get copy.annotations recoveryIncidentKey = s.incident
  phase : get copy.annotations recoveryPhaseKey = "ManualRepair"
  reboot : ∃ name node, (⟨.getNode name, .ok node⟩ : Event Reply) ∈ log ∧
    get copy.annotations rebootRequestKey = get node.annotations rebootRequestKey

def Closed (s : RecoveryState) (log : OperatorLog) : Event Reply → Prop
  | ⟨.saveState _, _⟩ | ⟨.deleteState _, _⟩ | ⟨.setHealthy, _⟩ => False
  | ⟨.patchNode copy, _⟩ => Isolated s log copy
  | _ => True

/-- No call of the kind failed, except that there is no record. -/
def fine : Event Reply → Bool
  | ⟨.getNode _, .error _⟩ | ⟨.newRandom, .error _⟩ => false
  | ⟨.getState _, .error e⟩ => e == .notFound
  | ⟨.saveState _, .failed _⟩ | ⟨.saveState _, .lost _⟩ => false
  | _ => true

/-- A reconcile that finds no record puts the Node in manual repair: it records
nothing else, and it records it if its calls succeed. -/
structure Enters (log : OperatorLog) (o : Option Outcome) : Prop where
  only : ∀ s, storedAfter none log = some s → s.phase = .manualRepair
  always : o ≠ none → (∀ e ∈ log, fine e = true) → ∃ s, storedAfter none log = some s

/-- The Node has the taint, either as it was read or as it was written. -/
def Marked (log : OperatorLog) : Prop :=
  ∃ node : Node, node.taints.any (fun t => Taint.same t degradedTaint) = true ∧
    ((∃ name, (⟨.getNode name, .ok node⟩ : Event Reply) ∈ log) ∨
      ∃ n, (⟨.patchNode node, .ok n⟩ : Event Reply) ∈ log)

/-- The record stays as it is, nothing but isolation happens to the Node, and a
reconcile that succeeds leaves it tainted unless it is gone. -/
structure Held (cfg : Config) (name : String) (s : RecoveryState) (hist later : List OperatorLog) :
    Prop where
  recorded : recorded (hist ++ later) = some s
  closed : ∀ log ∈ later, ∀ before e after, log = before ++ e :: after → Closed s before e
  tainted : ∀ log ∈ later, ∀ r, Executes (allowed (some s)) (reconcile cfg name) [] log
    (some (r, none)) → Marked log ∨ (⟨.getNode name, .error .notFound⟩ : Event Reply) ∈ log

/-- The loss of the record of a Node fails closed. -/
structure FailsClosed (cfg : Config) (name : String) (node : Node) : Prop where
  enters : ∀ log o, Executes (allowed none) (reconcile cfg name) [] log o →
    Reads name node log → Enters log o
  stays : ∀ hist log later s, Run cfg name (hist ++ log :: later) → recorded hist = none →
    Reads name node log → recorded (hist ++ [log]) = some s →
    (∀ l ∈ later, ¬ Released cfg (request node) l) →
    Held cfg name s (hist ++ [log]) later

variable {cfg : Config} {name v : String} {node : Node} {s : RecoveryState} {log : OperatorLog}

section Stays

theorem isolatedNode_isolated {n : String} (hp : s.phase = .manualRepair)
    (hr : (⟨.getNode n, .ok node⟩ : Event Reply) ∈ log) : Isolated s log (isolatedNode node s) := by
  have hnot : ¬ (s.phase = .rebootRequested ∨ s.phase = .rebooting) := by simp [hp]
  have hannotations : (isolatedNode node s).annotations =
      set (set node.annotations recoveryIncidentKey s.incident) recoveryPhaseKey s.phase.name :=
    if_neg hnot
  constructor
  · unfold isolatedNode
    dsimp only
    split
    next h => exact h
    · rw [List.any_append, Bool.or_eq_true]
      exact Or.inr (by decide)
  · rw [hannotations, get_set_of_ne _ _ (by decide), get_set]
  · rw [hannotations, get_set, hp]
    rfl
  · refine ⟨n, node, hr, ?_⟩
    rw [hannotations, get_set_of_ne _ _ (by decide), get_set_of_ne _ _ (by decide)]

theorem Released.append (h : Released cfg v log) (t : OperatorLog) : Released cfg v (log ++ t) := by
  obtain ⟨name, node, ⟨rest, rfl⟩, hr⟩ := h
  exact ⟨name, node, ⟨rest ++ t, rfl⟩, hr⟩

theorem ensures_released {α : Type} (p : Operator α) (h : Released cfg v log) :
    Ensures (allowed (some s)) (fun l e => Released cfg v l ∨ Closed s l e) p log
      (fun _ log' => Released cfg v log') := by
  induction p generalizing log with
  | done a => exact h
  | call i next ih =>
    intro r _
    exact ⟨Or.inl h, ih r (h.append _)⟩

abbrev Holds {α : Type} (cfg : Config) (v : String) (s : RecoveryState) (p : Operator α)
    (log : OperatorLog) (post : α → OperatorLog → Prop) : Prop :=
  Ensures (allowed (some s)) (fun l e => Released cfg v l ∨ Closed s l e) p log post

theorem setNodeCondition_holds (n : String) (status : ConditionStatus) (reason message : String) :
    Holds cfg v s (setNodeCondition n status reason message) log (fun _ _ => True) := by
  unfold setNodeCondition
  apply Ensures.perform (fun _ _ => Or.inr trivial)
  intro r _
  cases r with
  | error e => trivial
  | ok node =>
    apply Ensures.perform (fun _ _ => Or.inr trivial)
    intro now _
    split
    · trivial
    · exact fun _ _ => ⟨Or.inr trivial, trivial⟩
    · exact fun _ _ => ⟨Or.inr trivial, trivial⟩

theorem tainted_of_unchanged (h : sameTaints (isolatedNode node s).taints node.taints = true) :
    node.taints.any (fun t => Taint.same t degradedTaint) = true := by
  by_cases ht : node.taints.any (fun t => Taint.same t degradedTaint) = true
  · exact ht
  · have htaints : (isolatedNode node s).taints = node.taints ++ [degradedTaint] := if_neg ht
    rw [htaints, sameTaints, Bool.and_eq_true, beq_iff_eq] at h
    simp at h

theorem patchChanged_holds {n : String} (hp : s.phase = .manualRepair)
    (hr : (⟨.getNode n, .ok node⟩ : Event Reply) ∈ log) :
    Holds cfg v s (patchChanged node (isolatedNode node s)) log
      (fun r log' => (∃ m, r = .ok m) → Marked log') := by
  have hisolated := isolatedNode_isolated hp hr
  unfold patchChanged
  split
  next h =>
    intro _
    exact ⟨node, tainted_of_unchanged (Bool.and_eq_true_iff.mp h).2, Or.inl ⟨n, hr⟩⟩
  · intro r _
    refine ⟨Or.inr hisolated, ?_⟩
    rintro ⟨m, rfl⟩
    exact ⟨isolatedNode node s, hisolated.tainted, Or.inr ⟨m, by simp⟩⟩

theorem Marked.subset {log' : OperatorLog} (h : Marked log) (hl : log ⊆ log') : Marked log' := by
  obtain ⟨node, ht, ⟨n, hn⟩ | ⟨n, hn⟩⟩ := h
  · exact ⟨node, ht, Or.inl ⟨n, hl hn⟩⟩
  · exact ⟨node, ht, Or.inr ⟨n, hl hn⟩⟩

theorem ensureIsolation_holds {n : String} (hp : s.phase = .manualRepair)
    (hr : (⟨.getNode n, .ok node⟩ : Event Reply) ∈ log) :
    Holds cfg v s (ensureIsolation node s) log (fun r log' => (∃ m, r = .ok m) → Marked log') := by
  unfold ensureIsolation
  apply (patchChanged_holds hp hr).bind
  intro r log' hmarked
  cases r with
  | error e =>
    rintro ⟨m, hm⟩
    cases hm
  | ok node =>
    apply (setNodeCondition_holds _ _ _ _).subset.bind
    rintro r log'' ⟨-, hl⟩
    cases r with
    | error e =>
      rintro ⟨m, hm⟩
      cases hm
    | ok u =>
      intro _
      exact (hmarked ⟨node, rfl⟩).subset hl

theorem advance_holds {n : String} (raw : ConditionStatus) (object : String)
    (hp : s.phase = .manualRepair) (hr : (⟨.getNode n, .ok node⟩ : Event Reply) ∈ log) :
    Holds cfg v s (advance cfg node raw object s) log (fun o log' => o.2 = none → Marked log') := by
  unfold advance
  apply (ensureIsolation_holds hp hr).bind
  intro r log' hmarked
  cases r with
  | error e =>
    intro he
    cases he
  | ok node =>
    dsimp only
    rw [hp]
    intro _
    exact hmarked ⟨node, rfl⟩

theorem loadState_holds (hs : storedAfter (some s) log = some s) :
    Holds cfg v s (loadState cfg node) log (fun r log' => (∃ e, log' = log ++ [e]) ∧ r ≠ .ok none ∧
      ∀ object t, r = .ok (some (object, t)) → t = s) := by
  unfold loadState
  apply Ensures.perform (fun _ _ => Or.inr trivial)
  intro r hr
  cases r with
  | error e =>
    cases e with
    | notFound =>
      have hnone : storedAfter (some s) log = none := hr
      rw [hs] at hnone
      cases hnone
    | _ => exact ⟨⟨_, rfl⟩, by simp, by simp⟩
  | ok found =>
    have hfound : storedAfter (some s) log = some found.2 := hr
    rw [hs, Option.some.injEq] at hfound
    dsimp only
    split
    · exact ⟨⟨_, rfl⟩, by simp, by simp⟩
    · refine ⟨⟨_, rfl⟩, by simp, ?_⟩
      intro object t ht
      simp only [Except.ok.injEq, Option.some.injEq, Prod.mk.injEq] at ht
      rw [← ht.2]
      exact hfound.symm

theorem reconcile_holds (hp : s.phase = .manualRepair) (hv : validIncident cfg v = false) :
    Holds cfg v s (reconcile cfg name) [] (fun o log => Released cfg v log ∨ (o.2 = none →
      Marked log ∨ (⟨.getNode name, .error .notFound⟩ : Event Reply) ∈ log)) := by
  unfold reconcile
  apply Ensures.perform (fun _ _ => Or.inr trivial)
  intro r _
  split
  · exact Or.inr fun _ => Or.inr (List.mem_singleton_self _)
  · exact Or.inr nofun
  next node _ =>
    have hread : storedAfter (some s) ([] ++ [⟨.getNode name, .ok node⟩]) = some s := rfl
    apply (loadState_holds hread).bind
    rintro r log' ⟨⟨e, rfl⟩, hnone, hsome⟩
    split
    · exact Or.inr nofun
    next object t =>
      obtain rfl : t = s := hsome object t rfl
      unfold reconcileState
      split
      next hrep =>
        have hvalid : validIncident cfg (request node) = true := hrep.2.2.2.2
        have hreleased : Released cfg v ([] ++ [⟨.getNode name, .ok node⟩] ++ [e]) := by
          refine ⟨name, node, ⟨[e], rfl⟩, hrep.2.1, ?_, hvalid⟩
          intro heq
          rw [heq, hv] at hvalid
          cases hvalid
        exact (ensures_released _ hreleased).mono fun _ _ => Or.inl
      · have hmem : (⟨.getNode name, .ok node⟩ : Event Reply) ∈
            ([] ++ [⟨.getNode name, .ok node⟩] ++ [e] : OperatorLog) := by simp
        apply (advance_holds _ object hp hmem).mono
        intro o log' hmarked
        exact Or.inr fun ho => Or.inl (hmarked ho)
    · exact absurd rfl hnone

theorem closed_persist {e : Event Reply} (h : Closed s log e) (stored : Option RecoveryState) :
    persist stored e = stored := by
  obtain ⟨c, r⟩ := e
  cases c with
  | saveState t => exact h.elim
  | deleteState n => exact h.elim
  | _ => rfl

theorem storedAfter_closed (stored : Option RecoveryState)
    (h : ∀ before e after, log = before ++ e :: after → Closed s before e) :
    storedAfter stored log = stored := by
  induction log using List.reverseRecOn with
  | nil => rfl
  | append_singleton log e ih =>
    have hlast : Closed s log e := h log e [] rfl
    rw [storedAfter, List.foldl_concat]
    refine (closed_persist hlast _).trans (ih ?_)
    intro before e' after hl
    exact h before e' (after ++ [e]) (by simp [hl])

theorem reconcile_held {o : Option Outcome} (hp : s.phase = .manualRepair)
    (hv : validIncident cfg v = false) (hn : ¬ Released cfg v log)
    (he : Executes (allowed (some s)) (reconcile cfg name) [] log o) :
    (∀ before e after, log = before ++ e :: after → Closed s before e) ∧
      ∀ r, o = some (r, none) →
        Marked log ∨ (⟨.getNode name, .error .notFound⟩ : Event Reply) ∈ log := by
  have hholds : Holds cfg v s (reconcile cfg name) [] _ := reconcile_holds hp hv
  obtain ⟨t, ht, hgood, hpost⟩ := hholds.executes he
  obtain rfl : log = t := ht
  constructor
  · intro before e after hsplit
    have hor := hgood before e after hsplit
    cases hor with
    | inl hreleased =>
      have hall := hreleased.append (e :: after)
      rw [List.nil_append, ← hsplit] at hall
      exact absurd hall hn
    | inr hclosed => exact hclosed
  · intro r ho
    exact (hpost _ ho).resolve_left hn rfl

theorem run_held {hist later : List OperatorLog} (hp : s.phase = .manualRepair)
    (hv : validIncident cfg v = false) (hr : Run cfg name (hist ++ later))
    (hs : recorded hist = some s) (hn : ∀ l ∈ later, ¬ Released cfg v l) :
    Held cfg name s hist later := by
  induction later using List.reverseRecOn with
  | nil => exact ⟨by rw [List.append_nil]; exact hs, by simp, by simp⟩
  | append_singleton later log ih =>
    rw [← List.append_assoc] at hr
    obtain ⟨hr, o, he⟩ := hr.last
    have hheld := ih hr (fun l hl => hn l (by simp [hl]))
    have hlog : ¬ Released cfg v log := hn log (by simp)
    rw [hheld.recorded] at he
    obtain ⟨hclosed, -⟩ := reconcile_held hp hv hlog he
    constructor
    · rw [← List.append_assoc, recorded_snoc, hheld.recorded]
      exact storedAfter_closed _ hclosed
    · intro l hl
      cases List.mem_append.mp hl with
      | inl hl => exact hheld.closed l hl
      | inr hl =>
        rw [List.mem_singleton.mp hl]
        exact hclosed
    · intro l hl r he
      exact (reconcile_held hp hv (hn l hl) he).2 r rfl

end Stays

section Enters

/-- A record that waits for the administrator, with no request on file. -/
def Waiting (s : RecoveryState) : Prop := s.phase = .manualRepair ∧ s.manualRequest = ""

def Fails (log : OperatorLog) : Prop := ∃ e ∈ log, fine e = false

theorem fails_snoc {e : Event Reply} (h : fine e = false) : Fails (log ++ [e]) :=
  ⟨e, by simp, h⟩

abbrev Entering {α : Type} (p : Operator α) (log : OperatorLog)
    (post : α → OperatorLog → Prop) : Prop :=
  Ensures (allowed none) (fun _ e => quiet e.1 ∨ ∃ s, e.1 = .saveState s ∧ Waiting s) p log post

theorem loadState_absent (hn : storedAfter none log = none) :
    Quietly none (loadState cfg node) log (fun r log' => r = .ok none ∨
      (∃ e, r = .error e) ∧ Fails log') := by
  unfold loadState
  apply Ensures.perform (fun _ _ => trivial)
  intro r hr
  cases r with
  | error e =>
    cases e with
    | notFound => exact Or.inl rfl
    | _ => exact Or.inr ⟨⟨_, rfl⟩, fails_snoc rfl⟩
  | ok found =>
    have hfound : storedAfter none log = some found.2 := hr
    rw [hn] at hfound
    cases hfound

theorem newRecoveryState_fails (node : Node) :
    Quietly none (newRecoveryState node) log (fun r log' =>
      (∃ now incident, r = .ok (initialState node now incident)) ∨
        (∃ e, r = .error e) ∧ Fails log') := by
  unfold newRecoveryState
  apply Ensures.perform (fun _ _ => trivial)
  intro now _
  apply Ensures.perform (fun _ _ => trivial)
  intro r _
  cases r with
  | error e => exact Or.inr ⟨⟨e, rfl⟩, fails_snoc rfl⟩
  | ok incident => exact Or.inl ⟨now, incident, rfl⟩

theorem saveState_entering (hw : Waiting s) :
    Entering (saveState s) log (fun r log' =>
      (∃ object, r = .ok object) ∧ storedAfter none log' = some s ∨
        (∃ e, r = .error e) ∧ Fails log') := by
  unfold saveState
  apply Ensures.perform (fun _ _ => Or.inr ⟨s, rfl, hw⟩)
  intro r _
  cases r with
  | saved object => exact Or.inl ⟨⟨object, rfl⟩, storedAfter_snoc _ _ _⟩
  | failed e => exact Or.inr ⟨⟨e, rfl⟩, fails_snoc rfl⟩
  | lost e => exact Or.inr ⟨⟨e, rfl⟩, fails_snoc rfl⟩

theorem advance_entering (node : Node) (raw : ConditionStatus) (object : String)
    (hp : s.phase = .manualRepair) (hs : storedAfter none log = some s) :
    Entering (advance cfg node raw object s) log
      (fun _ log' => storedAfter none log' = some s) := by
  unfold advance
  apply ((ensureIsolation_spec node s).grows fun _ _ => Or.inl).bind
  rintro r log' ⟨-, hg⟩
  have hs' : storedAfter none log' = some s := (storedAfter_quiet hg).trans hs
  cases r with
  | error e => exact hs'
  | ok node =>
    dsimp only
    rw [hp]
    exact hs'

theorem createState_entering (raw : ConditionStatus) (hw : Waiting s)
    (hv : validIncident cfg (request node) = false) :
    Entering (createState cfg node raw s) log
      (fun _ log' => Fails log' ∨ ∃ s, storedAfter none log' = some s) := by
  unfold createState
  apply (saveState_entering hw).bind
  rintro r log' (⟨⟨object, rfl⟩, hs⟩ | ⟨⟨e, rfl⟩, hf⟩)
  · have hnot : ¬ repairRequested cfg node raw s := by
      intro hrep
      have hvalid : validIncident cfg (request node) = true := hrep.2.2.2.2
      rw [hv] at hvalid
      cases hvalid
    dsimp only
    rw [reconcileState, if_neg hnot]
    apply (advance_entering node raw object hw.1 hs).mono
    intro _ log'' hs'
    exact Or.inr ⟨s, hs'⟩
  · exact Or.inl hf

theorem withoutState_entering (hi : get node.annotations recoveryIncidentKey ≠ "")
    (hraw : rawStatus node ≠ .conditionTrue) (hv : validIncident cfg (request node) = false) :
    Entering (withoutState cfg node (rawStatus node)) log
      (fun _ log' => Fails log' ∨ ∃ s, storedAfter none log' = some s) := by
  unfold withoutState
  rw [if_neg hraw, if_pos hi]
  apply ((newRecoveryState_fails node).grows fun _ _ => Or.inl).bind
  rintro r log' ⟨⟨now, incident, rfl⟩ | ⟨⟨e, rfl⟩, hf⟩, -⟩
  · exact createState_entering _ ⟨rfl, rfl⟩ hv
  · exact Or.inl hf

theorem managed_of_incident (hi : get node.annotations recoveryIncidentKey ≠ "") :
    managed node = true := by
  rw [managed, Bool.or_eq_true, bne_iff_ne]
  exact Or.inr hi

theorem entering_executes {α : Type} {p : Operator α} {start : OperatorLog} {o : Option α}
    (h : Entering p start (fun _ log' => Fails log' ∨ ∃ s, storedAfter none log' = some s))
    (hstart : storedAfter none start = none) (he : Executes (allowed none) p start log o) :
    (∀ s, storedAfter none log = some s → Waiting s) ∧
      (o ≠ none → Fails log ∨ ∃ s, storedAfter none log = some s) := by
  constructor
  · refine h.invariant he (fun l => ∀ s, storedAfter none l = some s → Waiting s) ?_
      (by simp [hstart])
    intro l e ih _ hgood s hs
    rw [storedAfter_snoc] at hs
    cases hgood with
    | inl hq =>
      rw [← storedAfter_snoc, storedAfter_quiet (Grows.snoc l e hq)] at hs
      exact ih s hs
    | inr hsave =>
      obtain ⟨t, ht, hw⟩ := hsave
      cases heff : effect e with
      | none => exact ih s (by simpa [heff] using hs)
      | some written =>
        obtain rfl : written = some s := by simpa [heff] using hs
        obtain ⟨r, rfl⟩ := effect_save heff
        obtain rfl : s = t := by simpa using ht
        exact hw
  · intro ho
    obtain ⟨a, ha⟩ := Option.ne_none_iff_exists'.mp ho
    obtain ⟨_, -, -, hpost⟩ := h.executes he
    exact hpost a ha

/-- A reconcile that finds no record and no fault puts the Node in manual repair. -/
theorem reconcile_entering {o : Option Outcome}
    (hi : get node.annotations recoveryIncidentKey ≠ "")
    (hraw : rawStatus node ≠ .conditionTrue) (hv : validIncident cfg (request node) = false)
    (he : Executes (allowed none) (reconcile cfg name) [] log o) (hr : Reads name node log) :
    (∀ s, storedAfter none log = some s → Waiting s) ∧
      (o ≠ none → Fails log ∨ ∃ s, storedAfter none log = some s) := by
  obtain ⟨rest, hlog⟩ := hr
  refine entering_executes ?_ rfl (he.first hlog)
  have hstart : storedAfter none ([] ++ [⟨.getNode name, .ok node⟩]) = none := rfl
  apply ((loadState_absent hstart).grows fun _ _ => Or.inl).bind
  rintro r log' ⟨rfl | ⟨⟨e, rfl⟩, hf⟩, -⟩
  · dsimp only
    rw [if_pos (managed_of_incident hi)]
    exact withoutState_entering hi hraw hv
  · exact Or.inl hf

end Enters

section Reopens

def sampleIncident : String := "00000000-0000-4000-8000-000000000000"

def lostState (node : Node) : RecoveryState :=
  { initialState node 0 sampleIncident with
    phase := .manualRepair, terminalReason := "durable recovery state is missing" }

/-- A reconcile that finds no record, up to the write of the given one. -/
def entryLog (name : String) (node : Node) (s : RecoveryState) : OperatorLog :=
  [⟨.getNode name, .ok node⟩, ⟨.getState (recoveryStateName node), .error .notFound⟩, ⟨.now, 0⟩,
    ⟨.newRandom, .ok sampleIncident⟩, ⟨.saveState s, .saved "record"⟩]

theorem reconcile_absent {o : Option Outcome} (hm : managed node = true)
    (h : Executes (allowed none) (withoutState cfg node (rawStatus node))
      [⟨.getNode name, .ok node⟩, ⟨.getState (recoveryStateName node), .error .notFound⟩] log o) :
    Executes (allowed none) (reconcile cfg name) [] log o := by
  refine .call (.ok node) trivial (.call (.error .notFound) rfl ?_)
  change Executes (allowed none)
    (if managed node = true then withoutState cfg node (rawStatus node) else pure ({}, none)) _ _ _
  rw [if_pos hm]
  exact h

theorem entryLog_fault (hi : get node.annotations recoveryIncidentKey ≠ "")
    (hraw : rawStatus node = .conditionTrue) :
    Executes (allowed none) (reconcile cfg name) []
      (entryLog name node (initialState node 0 sampleIncident)) none := by
  apply reconcile_absent (managed_of_incident hi)
  rw [withoutState, if_pos hraw]
  exact .call 0 trivial (.call (.ok sampleIncident) trivial (.call (.saved "record") trivial
    (.stop _ _)))

theorem entryLog_lost (hi : get node.annotations recoveryIncidentKey ≠ "")
    (hraw : rawStatus node ≠ .conditionTrue) :
    Executes (allowed none) (reconcile cfg name) [] (entryLog name node (lostState node)) none := by
  apply reconcile_absent (managed_of_incident hi)
  rw [withoutState, if_neg hraw, if_pos hi]
  exact .call 0 trivial (.call (.ok sampleIncident) trivial (.call (.saved "record") trivial
    (.stop _ _)))

def cleared (node : Node) : Node :=
  { node with conditions := [⟨hardwareFaultCondition, .conditionFalse, "", "", 0, 0⟩] }

def reopened (node : Node) : RecoveryState :=
  { initialState node 0 sampleIncident with
    incident := request node, manualRequest := request node }

def reopeningLog (name : String) (node : Node) : OperatorLog :=
  [⟨.getNode name, .ok (cleared node)⟩,
    ⟨.getState (recoveryStateName node), .ok ("record", lostState node)⟩, ⟨.now, 0⟩,
    ⟨.newRandom, .ok sampleIncident⟩, ⟨.saveState (reopened node), .saved "record"⟩]

theorem reopeningLog_executes (hv : validIncident cfg (request node) = true) :
    Executes (allowed (some (lostState node))) (reconcile cfg name) [] (reopeningLog name node)
      none := by
  have hincident : validIncident cfg sampleIncident = true := by
    rw [validIncident_eq]
    decide +kernel
  have hload : ¬ (recoveryStateVersion ≠ recoveryStateVersion ∨ node.name ≠ node.name ∨
      node.uid ≠ node.uid ∨ validIncident cfg sampleIncident = false) := by
    simp [hincident]
  have hne : request node ≠ "" := by
    intro h
    rw [h, validIncident_eq] at hv
    exact absurd hv (by decide +kernel)
  have hrep : repairRequested cfg (cleared node) .conditionFalse (lostState node) :=
    ⟨rfl, rfl, hne, hne, hv⟩
  refine .call (.ok (cleared node)) trivial (.call (.ok ("record", lostState node)) rfl ?_)
  change Executes _ (Program.bind (if recoveryStateVersion ≠ recoveryStateVersion ∨
    node.name ≠ node.name ∨ node.uid ≠ node.uid ∨ validIncident cfg sampleIncident = false then _
    else _) _) _ _ _
  rw [if_neg hload]
  change Executes _ (reconcileState cfg (cleared node) .conditionFalse "record" (lostState node))
    _ _ _
  rw [reconcileState, if_pos hrep]
  exact .call 0 trivial (.call (.ok sampleIncident) trivial (.call (.saved "record") trivial
    (.stop _ _)))

theorem not_failsClosed_of_fault (hi : get node.annotations recoveryIncidentKey ≠ "")
    (hraw : rawStatus node = .conditionTrue) : ¬ FailsClosed cfg name node := by
  intro h
  have henters := h.enters _ none (entryLog_fault hi hraw) ⟨_, rfl⟩
  have hphase := henters.only (initialState node 0 sampleIncident) rfl
  cases hphase

theorem not_failsClosed_of_request (hi : get node.annotations recoveryIncidentKey ≠ "")
    (hraw : rawStatus node ≠ .conditionTrue) (hv : validIncident cfg (request node) = true) :
    ¬ FailsClosed cfg name node := by
  intro h
  have hfirst : Run cfg name ([] ++ [entryLog name node (lostState node)]) :=
    Run.start.next (entryLog_lost hi hraw)
  have hrun := hfirst.next (reopeningLog_executes hv)
  have hnot : ∀ l ∈ [reopeningLog name node], ¬ Released cfg (request node) l := by
    rintro l hl ⟨n, read, ⟨rest, hread⟩, -, hne, -⟩
    rw [List.mem_singleton.mp hl, reopeningLog] at hread
    have hhead : name = n ∧ cleared node = read := by simpa using (List.cons.inj hread).1
    rw [← hhead.2] at hne
    exact hne rfl
  have hheld := h.stays [] _ [reopeningLog name node] (lostState node) hrun rfl ⟨_, rfl⟩ rfl hnot
  have hsame : some (reopened node) = some (lostState node) := hheld.recorded
  have hphase : Phase.isolated = .manualRepair :=
    congrArg RecoveryState.phase (Option.some.inj hsame)
  cases hphase

end Reopens

/-- The loss of a record fails closed exactly if no fault is reported and no
valid request is left over when it is noticed. -/
theorem fails_closed_iff (cfg : Config) (name : String) (node : Node)
    (hi : get node.annotations recoveryIncidentKey ≠ "") :
    FailsClosed cfg name node ↔
      rawStatus node ≠ .conditionTrue ∧ validIncident cfg (request node) = false := by
  constructor
  · intro h
    have hraw : rawStatus node ≠ .conditionTrue := by
      intro hraw
      exact not_failsClosed_of_fault hi hraw h
    refine ⟨hraw, ?_⟩
    by_contra hv
    exact not_failsClosed_of_request hi hraw (Bool.not_eq_false _ ▸ hv) h
  · rintro ⟨hraw, hv⟩
    constructor
    · intro log o he hr
      obtain ⟨honly, halways⟩ := reconcile_entering hi hraw hv he hr
      constructor
      · intro s hs
        exact (honly s hs).1
      · intro ho hfine
        refine (halways ho).resolve_left ?_
        rintro ⟨e, he, hf⟩
        rw [hfine e he] at hf
        cases hf
    · intro hist log later s hr hnone hread hs hn
      have hrun : Run cfg name (hist ++ [log] ++ later) := by simpa using hr
      obtain ⟨-, o, he⟩ := hrun.initial.last
      rw [hnone] at he
      have hstored : storedAfter none log = some s := by
        rw [recorded_snoc, hnone] at hs
        exact hs
      have hw := (reconcile_entering hi hraw hv he hread).1 s hstored
      exact run_held hw.1 hv hrun hs hn

def orphan (raw : ConditionStatus) (requested : String) : Node :=
  { sampleNode with
    annotations := [(recoveryIncidentKey, "incident"), (recoveryRequestKey, requested)]
    conditions := [⟨hardwareFaultCondition, raw, "", "", 0, 0⟩] }

/-- The phase after one reconcile of the Node, from no record at all. -/
def phaseAfter (node : Node) : Option Phase :=
  (recorded (replay sampleConfig "node" [] (completed [{ node := node }]))).map RecoveryState.phase

theorem fails_closed_orphan : FailsClosed sampleConfig "node" (orphan .conditionFalse "") ∧
    phaseAfter (orphan .conditionFalse "") = some .manualRepair :=
  ⟨(fails_closed_iff sampleConfig "node" (orphan .conditionFalse "") (by decide +kernel)).mpr
    ⟨by decide +kernel, by decide +kernel⟩, by decide +kernel⟩

/-- With a fault, or with the request of an earlier incident left over, the
first reconcile already starts to evacuate the Node again. -/
theorem lost_state_reopens :
    (¬ FailsClosed sampleConfig "node" (orphan .conditionTrue "") ∧
      phaseAfter (orphan .conditionTrue "") = some .draining) ∧
    ¬ FailsClosed sampleConfig "node" (orphan .conditionFalse sampleIncident) ∧
      phaseAfter (orphan .conditionFalse sampleIncident) = some .draining := by
  have hi : ∀ raw v, get (orphan raw v).annotations recoveryIncidentKey ≠ "" := by
    intro raw v
    exact (by decide +kernel : "incident" ≠ "")
  refine ⟨⟨?_, by decide +kernel⟩, ?_, by decide +kernel⟩
  · exact not_failsClosed_of_fault (hi _ _) (by decide +kernel)
  · exact not_failsClosed_of_request (hi _ _) (by decide +kernel) (by decide +kernel)

end HeteroCluster.StateLoss
