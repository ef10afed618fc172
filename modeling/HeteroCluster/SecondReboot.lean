import HeteroCluster.BootRecords

namespace HeteroCluster.SecondReboot

open GoStrings RecoveryIncident CallProgram OperatorCalls RecoveryIsolation RecoveryEvacuation
open RecoveryVerifier RecoveryReconcile RecoveryEvidence RecoverySteps RecoveryQuiet RecoveryRuns
open NodeClearance BootRecords

variable {cfg : Config} {name : String} {s s' : RecoveryState} {log log' : OperatorLog}
variable {b : String}

/-- A reconcile whose calls succeed, on the Node of the record, which reports one
boot ID throughout. -/
def undisturbed (cfg : Config) (s : RecoveryState) (b : String) : Event Reply → Bool
  | ⟨.getNode _, .ok node⟩ =>
    bootID cfg node == b && node.name == s.nodeName && node.uid == s.nodeUID
  | ⟨.getNode _, .error _⟩ | ⟨.getState _, .error _⟩ => false
  | ⟨.saveState _, .failed _⟩ | ⟨.saveState _, .lost _⟩ => false
  | ⟨.patchNode _, .error _⟩ | ⟨.patchNodeStatus _ _, .error _⟩ => false
  | _ => true

def InManualRepair (s : RecoveryState) (log : OperatorLog) : Prop :=
  ∃ t, storedAfter (some s) log = some t ∧ t.phase = .manualRepair

theorem undisturbed_node {b n : String} {node : Node}
    (h : undisturbed cfg s b ⟨.getNode n, .ok node⟩ = true) :
    bootID cfg node = b ∧ node.name = s.nodeName ∧ node.uid = s.nodeUID := by
  simpa [undisturbed, and_assoc] using h

/-- A function that, while nothing disturbs it, makes quiet calls only. -/
abbrev Smoothly {α : Type} (cfg : Config) (s : RecoveryState) (b : String) (p : Operator α)
    (log : OperatorLog) (post : α → OperatorLog → Prop) : Prop :=
  Ensures (fun l e => allowed (some s) l e ∧ undisturbed cfg s b e = true)
    (fun _ e => quiet e.1) p log post

theorem patchChanged_smooth (node copy : Node) :
    Smoothly cfg s b (patchChanged node copy) log (fun r _ => ∃ n, r = .ok n) := by
  unfold patchChanged
  split
  · exact ⟨node, rfl⟩
  · intro r hr
    refine ⟨trivial, ?_⟩
    cases r with
    | error e => exact absurd hr.2 Bool.false_ne_true
    | ok n => exact ⟨n, rfl⟩

theorem patchNodeStatus_smooth (n : String) (conditions : List NodeCondition) :
    Smoothly cfg s b (perform (.patchNodeStatus n conditions)) log (fun r _ => r = .ok ()) := by
  intro r hr
  refine ⟨trivial, ?_⟩
  cases r with
  | error e => exact absurd hr.2 Bool.false_ne_true
  | ok u => rfl

theorem setNodeCondition_smooth (n : String) (status : ConditionStatus) (reason message : String) :
    Smoothly cfg s b (setNodeCondition n status reason message) log (fun r _ => r = .ok ()) := by
  unfold setNodeCondition
  apply Ensures.perform (fun _ _ => trivial)
  intro r hr
  cases r with
  | error e => exact absurd hr.2 Bool.false_ne_true
  | ok node =>
    apply Ensures.perform (fun _ _ => trivial)
    intro now _
    split
    · rfl
    · exact patchNodeStatus_smooth _ _
    · exact patchNodeStatus_smooth _ _

theorem ensureIsolation_smooth (node : Node) (t : RecoveryState) :
    Smoothly cfg s b (ensureIsolation node t) log (fun r _ => ∃ n, r = .ok n) := by
  unfold ensureIsolation
  apply (patchChanged_smooth node _).bind
  rintro r log' ⟨n, rfl⟩
  apply (setNodeCondition_smooth _ _ _ _).bind
  rintro r log'' rfl
  exact ⟨n, rfl⟩

theorem loadState_smooth {node : Node} (hs : storedAfter (some s) log = some s)
    (hversion : s.version = recoveryStateVersion) (hvalid : validIncident cfg s.incident = true)
    (hname : node.name = s.nodeName) (huid : node.uid = s.nodeUID) :
    Smoothly cfg s b (loadState cfg node) log (fun r _ => ∃ object, r = .ok (some (object, s))) := by
  unfold loadState
  apply Ensures.perform (fun _ _ => trivial)
  intro r hr
  cases r with
  | error e => exact absurd hr.2 Bool.false_ne_true
  | ok found =>
    obtain ⟨object, t⟩ := found
    have ht : storedAfter (some s) log = some t := hr.1
    obtain rfl : s = t := Option.some.inj (hs.symm.trans ht)
    dsimp only
    rw [if_neg (by simp [hversion, hvalid, hname, huid])]
    exact ⟨object, rfl⟩

abbrev Repairs {α : Type} (cfg : Config) (s : RecoveryState) (b : String) (p : Operator α)
    (log : OperatorLog) : Prop :=
  Ensures (fun l e => allowed (some s) l e ∧ undisturbed cfg s b e = true) (fun _ _ => True) p log
    (fun _ log' => InManualRepair s log')

theorem smoothly_grows {α : Type} {p : Operator α} {post : α → OperatorLog → Prop}
    (h : Smoothly cfg s b p log post) :
    Ensures (fun l e => allowed (some s) l e ∧ undisturbed cfg s b e = true) (fun _ _ => True) p log
      (fun a log' => post a log' ∧ Grows quiet log log') :=
  h.grows fun _ _ _ => trivial

theorem saveState_undisturbed (t : RecoveryState) :
    Ensures (fun l e => allowed (some s) l e ∧ undisturbed cfg s b e = true) (fun _ _ => True)
      (saveState t) log
      (fun r log' => (∃ object, r = .ok object) ∧ storedAfter (some s) log' = some t) := by
  unfold saveState
  apply Ensures.perform (fun _ _ => trivial)
  intro r hr
  cases r with
  | saved object =>
    refine ⟨⟨object, rfl⟩, ?_⟩
    rw [storedAfter_snoc]
    rfl
  | failed e => exact absurd hr.2 Bool.false_ne_true
  | lost e => exact absurd hr.2 Bool.false_ne_true

theorem setPhase_repairs (node : Node) (t : RecoveryState) :
    Repairs cfg s b (setPhase node t .manualRepair) log := by
  unfold setPhase
  apply Ensures.perform (fun _ _ => trivial)
  intro now _
  apply (saveState_undisturbed _).bind
  rintro r log' ⟨⟨object, rfl⟩, hs⟩
  apply (smoothly_grows (ensureIsolation_smooth node _)).bind
  rintro r log'' ⟨⟨n, rfl⟩, hquiet⟩
  exact ⟨_, (storedAfter_quiet hquiet).trans hs, rfl⟩

theorem enterManualRepair_repairs (node : Node) (t : RecoveryState) (reason : String) :
    Repairs cfg s b (enterManualRepair node t reason) log := by
  unfold enterManualRepair
  apply (setPhase_repairs node _).bind
  intro r log' hlog
  cases r <;> exact hlog

theorem reconcileReboot_repairs (node : Node) (object : String) (hp : s.phase = .rebooting)
    (hn : s.newBootID ≠ "") (hb : ¬ Known s b) :
    Repairs cfg s b (reconcileReboot cfg node object s) log := by
  unfold reconcileReboot
  apply Ensures.perform (fun _ _ => trivial)
  intro r hr
  cases r with
  | error e => exact absurd hr.2 Bool.false_ne_true
  | ok current =>
    have hboot : bootID cfg current = b := (undisturbed_node hr.2).1
    apply Ensures.perform (fun _ _ => trivial)
    intro now _
    split
    · exact enterManualRepair_repairs current s _
    · rw [if_neg (by rw [hp]; simp)]
      unfold trackBoot
      rw [hboot, if_neg (fun h => hb (h.imp id Or.inl)), if_neg hn,
        if_pos (fun h => hb (Or.inr (Or.inr h.symm)))]
      exact enterManualRepair_repairs current s _

/-- While the Node reboots, a reconcile that sees a second new boot ID ends in
manual repair. -/
theorem reconcile_repairs (name : String) (hp : s.phase = .rebooting) (hn : s.newBootID ≠ "")
    (hb : ¬ Known s b) (hversion : s.version = recoveryStateVersion)
    (hvalid : validIncident cfg s.incident = true) :
    Repairs cfg s b (reconcile cfg name) [] := by
  unfold reconcile
  apply Ensures.perform (fun _ _ => trivial)
  intro r hr
  cases r with
  | error e => exact absurd hr.2 Bool.false_ne_true
  | ok node =>
    obtain ⟨-, hname, huid⟩ := undisturbed_node hr.2
    apply (smoothly_grows (loadState_smooth rfl hversion hvalid hname huid)).bind
    rintro r log' ⟨⟨object, rfl⟩, -⟩
    have hmanual : ¬ repairRequested cfg node
        (nodeConditionStatus node.conditions hardwareFaultCondition) s := by
      intro hrep
      rw [hrep.1] at hp
      cases hp
    dsimp only
    unfold reconcileState
    rw [if_neg hmanual]
    unfold advance
    apply (smoothly_grows (ensureIsolation_smooth node s)).bind
    rintro r log'' ⟨⟨n, rfl⟩, -⟩
    dsimp only
    rw [hp]
    exact reconcileReboot_repairs n object hp hn hb

end HeteroCluster.SecondReboot
