import HeteroCluster.NodeClearance

namespace HeteroCluster.BootRecords

open GoStrings RecoveryIncident CallProgram OperatorCalls RecoveryIsolation RecoveryEvacuation
open RecoveryVerifier RecoveryReconcile RecoveryEvidence RecoverySteps RecoveryQuiet RecoveryRuns
open NodeClearance

def bootOf (cfg : Config) : Event Reply → Option String
  | ⟨.getNode _, .ok node⟩ => some (bootID cfg node)
  | _ => none

def boots (cfg : Config) (log : OperatorLog) : List String := log.filterMap (bootOf cfg)

/-- A boot ID that does not tell of a second reboot. -/
def Known (s : RecoveryState) (b : String) : Prop :=
  b = "" ∨ b = s.preBootID ∨ b = s.newBootID

variable {cfg : Config} {name : String} {s s' : RecoveryState} {log log' : OperatorLog}

/-- What a reconcile from `s` may record about the boot IDs. -/
structure Tracked (cfg : Config) (s : RecoveryState) (log : OperatorLog) (s' : RecoveryState) :
    Prop where
  pre : s'.preBootID = s.preBootID
  new : s'.newBootID = s.newBootID ∨ s.phase = .rebooting ∧ s.newBootID = "" ∧
    s'.newBootID ∈ boots cfg log ∧ s'.newBootID ≠ s.preBootID
  verifying : s'.phase = .verifying → s.phase = .verifying ∨
    s.phase = .rebooting ∧ s'.newBootID ≠ "" ∧ s'.newBootID ∈ boots cfg log

/-- Every save of a reconcile from `s` keeps track. -/
def Saves (cfg : Config) (s : RecoveryState) (log : OperatorLog) (e : Event Reply) : Prop :=
  ∀ s', e.1 = .saveState s' → Tracked cfg s log s'

abbrev Tracks {α : Type} (cfg : Config) (s : RecoveryState) (p : Operator α) (log : OperatorLog)
    (post : α → OperatorLog → Prop) : Prop :=
  Ensures (allowed (some s)) (Saves cfg s) p log post

theorem boots_mono (h : log ⊆ log') : boots cfg log ⊆ boots cfg log' :=
  List.filterMap_subset _ h

theorem Tracked.mono (h : Tracked cfg s log s') (hl : log ⊆ log') : Tracked cfg s log' s' := by
  refine ⟨h.pre, ?_, ?_⟩
  · cases h.new with
    | inl hsame => exact Or.inl hsame
    | inr hnew => exact Or.inr ⟨hnew.1, hnew.2.1, boots_mono hl hnew.2.2.1, hnew.2.2.2⟩
  · intro hp
    cases h.verifying hp with
    | inl hv => exact Or.inl hv
    | inr hv => exact Or.inr ⟨hv.1, hv.2.1, boots_mono hl hv.2.2⟩

theorem Tracked.congr {t : RecoveryState} (h : Tracked cfg s log s')
    (hpre : t.preBootID = s'.preBootID) (hnew : t.newBootID = s'.newBootID)
    (hp : t.phase = s'.phase ∨ t.phase ≠ .verifying) : Tracked cfg s log t := by
  refine ⟨hpre.trans h.pre, by rw [hnew]; exact h.new, ?_⟩
  intro hv
  cases hp with
  | inl heq =>
    rw [hnew]
    exact h.verifying (heq.symm.trans hv)
  | inr hne => exact absurd hv hne

theorem tracks_of_quietly {α : Type} {p : Operator α} {post : α → OperatorLog → Prop}
    (h : Quietly (some s) p log post) :
    Tracks cfg s p log (fun a log' => post a log' ∧ log ⊆ log') := by
  have hquiet : ∀ l (e : Event Reply), quiet e.1 → Saves cfg s l e := by
    intro l e hq t he
    rw [he] at hq
    exact hq.elim
  exact (h.grows hquiet).mono fun a log' hp => ⟨hp.1, hp.2.subset⟩

theorem perform_tracks {c : Call} {α : Type} {f : Reply c → Operator α}
    {post : α → OperatorLog → Prop} (hc : quiet c)
    (hf : ∀ r, Tracks cfg s (f r) (log ++ [⟨c, r⟩]) post) :
    Tracks cfg s (Program.perform c >>= f) log post := by
  apply Ensures.perform
  · intro r _ t he
    change c = .saveState t at he
    rw [he] at hc
    exact hc.elim
  · intro r _
    exact hf r

theorem saveState_tracks (h : Tracked cfg s log s') :
    Tracks cfg s (saveState s') log (fun _ log' => log ⊆ log') := by
  unfold saveState
  apply Ensures.perform
  · intro r _ t he
    cases he
    exact h
  · intro r _
    cases r <;> exact List.subset_append_left log _

theorem setPhase_tracks {phase : Phase} (node : Node)
    (h : ∀ t, Tracked cfg s log { s' with phase := phase, phaseStartedAt := t }) :
    Tracks cfg s (setPhase node s' phase) log (fun _ _ => True) := by
  unfold setPhase
  refine perform_tracks trivial fun now => ?_
  apply (saveState_tracks ((h (newTime now)).mono (List.subset_append_left log _))).bind
  intro r log' _
  cases r with
  | error e => trivial
  | ok object =>
    apply (tracks_of_quietly (ensureIsolation_spec _ _)).bind
    intro r _ _
    cases r <;> trivial

theorem moveTo_tracks {phase : Phase} (node : Node)
    (h : ∀ t, Tracked cfg s log { s' with phase := phase, phaseStartedAt := t }) :
    Tracks cfg s (moveTo node s' phase) log (fun _ _ => True) := by
  unfold moveTo
  apply (setPhase_tracks node h).bind
  intro r _ _
  cases r <;> trivial

theorem enterManualRepair_tracks (node : Node) (reason : String) (h : Tracked cfg s log s') :
    Tracks cfg s (enterManualRepair node s' reason) log (fun _ _ => True) := by
  unfold enterManualRepair
  apply (setPhase_tracks node _).bind
  · intro r _ _
    cases r <;> trivial
  · intro t
    exact h.congr rfl rfl (Or.inr (by simp))

/-- The new boot ID was read by this reconcile, which goes on from Rebooting. -/
structure Booting (cfg : Config) (s : RecoveryState) (log : OperatorLog) (s' : RecoveryState) :
    Prop where
  tracked : Tracked cfg s log s'
  start : s.phase = .rebooting
  phase : s'.phase = .rebooting
  booted : s'.newBootID ≠ ""
  read : s'.newBootID ∈ boots cfg log

theorem Booting.mono (h : Booting cfg s log s') (hl : log ⊆ log') : Booting cfg s log' s' :=
  ⟨h.tracked.mono hl, h.start, h.phase, h.booted, boots_mono hl h.read⟩

theorem Booting.now (h : Booting cfg s log s') (now : Time) :
    Booting cfg s (log ++ [⟨.now, now⟩]) s' :=
  h.mono (List.subset_append_left log _)

theorem Booting.congr {t : RecoveryState} (h : Booting cfg s log s')
    (hpre : t.preBootID = s'.preBootID) (hnew : t.newBootID = s'.newBootID)
    (hp : t.phase = s'.phase) : Booting cfg s log t :=
  ⟨h.tracked.congr hpre hnew (Or.inl hp), h.start, hp.trans h.phase, hnew ▸ h.booted,
    hnew ▸ h.read⟩

theorem startVerifiers_tracks (current : Node) (object : String) (h : Booting cfg s log s') :
    Tracks cfg s (startVerifiers cfg current object s') log (fun _ _ => True) := by
  unfold startVerifiers
  apply (tracks_of_quietly (ensureVerifierResources_spec _ _ _ _)).bind
  intro r log' hr
  have h' := h.mono hr.2
  cases r with
  | error e => exact enterManualRepair_tracks current _ h'.tracked
  | ok u =>
    apply moveTo_tracks
    intro t
    exact ⟨h'.tracked.pre, h'.tracked.new, fun _ => Or.inr ⟨h'.start, h'.booted, h'.read⟩⟩

theorem compareInventory_tracks (current : Node) (object : String) (since : Time)
    (h : Booting cfg s log s') :
    Tracks cfg s (compareInventory cfg current object s' since) log (fun _ _ => True) := by
  unfold compareInventory
  split
  · refine perform_tracks trivial fun now => ?_
    split
    · exact enterManualRepair_tracks current _ (h.now now).tracked
    · trivial
  · split
    · exact enterManualRepair_tracks current _ h.tracked
    · split
      · exact startVerifiers_tracks current object h
      · refine perform_tracks trivial fun now => ?_
        have hstarted : Booting cfg s (log ++ [⟨.now, now⟩])
            { s' with verificationStarted := some (newTime now) } :=
          (h.now now).congr rfl rfl rfl
        apply (saveState_tracks hstarted.tracked).bind
        intro r log' hl
        cases r with
        | error e => trivial
        | ok object => exact startVerifiers_tracks current object (hstarted.mono hl)

theorem awaitReady_tracks (current : Node) (object : String) (h : Booting cfg s log s') :
    Tracks cfg s (awaitReady cfg current object s') log (fun _ _ => True) := by
  unfold awaitReady
  split
  · split
    · have hready : Tracked cfg s log { s' with readySince := none } :=
        h.tracked.congr rfl rfl (Or.inl rfl)
      apply (saveState_tracks hready).bind
      intro r _ _
      trivial
    · trivial
  · split
    · refine perform_tracks trivial fun now => ?_
      have hready : Tracked cfg s (log ++ [⟨.now, now⟩])
          { s' with readySince := some (newTime now) } :=
        (h.now now).tracked.congr rfl rfl (Or.inl rfl)
      apply (saveState_tracks hready).bind
      intro r _ _
      cases r <;> trivial
    · refine perform_tracks trivial fun now => ?_
      split
      · trivial
      · exact compareInventory_tracks current object _ (h.now now)

theorem Tracked.refl (cfg : Config) (s : RecoveryState) (log : OperatorLog) : Tracked cfg s log s :=
  ⟨rfl, Or.inl rfl, fun hv => Or.inl hv⟩

theorem trackBoot_tracks (current : Node) (object : String) (hp : s.phase = .rebooting)
    (hr : bootID cfg current ∈ boots cfg log) :
    Tracks cfg s (trackBoot cfg current object s) log (fun _ _ => True) := by
  unfold trackBoot
  split
  · trivial
  next hboot =>
    rw [not_or] at hboot
    split
    next hn =>
      have hbooted : Booting cfg s log
          { s with newBootID := bootID cfg current, readySince := none } := by
        refine ⟨⟨rfl, Or.inr ⟨hp, hn, hr, hboot.2⟩, ?_⟩, hp, hp, hboot.1, hr⟩
        intro hv
        exact Or.inl hv
      apply (saveState_tracks hbooted.tracked).bind
      intro r log' hl
      cases r with
      | error e => trivial
      | ok object => exact awaitReady_tracks current object (hbooted.mono hl)
    next hn =>
      split
      · exact enterManualRepair_tracks current _ (Tracked.refl cfg s log)
      next hsame =>
        have hread : s.newBootID ∈ boots cfg log := not_not.mp hsame ▸ hr
        exact awaitReady_tracks current object ⟨Tracked.refl cfg s log, hp, hp, hn, hread⟩

theorem reconcileReboot_tracks (node : Node) (object : String)
    (hp : s.phase = .rebootRequested ∨ s.phase = .rebooting) :
    Tracks cfg s (reconcileReboot cfg node object s) log (fun _ _ => True) := by
  unfold reconcileReboot
  refine perform_tracks trivial fun r => ?_
  cases r with
  | error e => trivial
  | ok current =>
    refine perform_tracks trivial fun now => ?_
    split
    · exact enterManualRepair_tracks current _ (Tracked.refl cfg s _)
    · split
      next hrequested =>
        split
        · trivial
        · apply moveTo_tracks
          intro t
          exact (Tracked.refl cfg s _).congr rfl rfl (Or.inr (by simp))
      next hrequested =>
        apply trackBoot_tracks current object (hp.resolve_left hrequested)
        simp [boots, bootOf]

theorem confirmVerifiers_tracks (node : Node) (object : String) (rawStatus : ConditionStatus)
    (inventory : HardwareInventory.Inventory) :
    Tracks cfg s (confirmVerifiers cfg node object s rawStatus inventory) log
      (fun _ _ => True) := by
  unfold confirmVerifiers
  apply (tracks_of_quietly (scanVerifiers_spec _ _ _ _)).bind
  intro r log' _
  cases r with
  | missing =>
    apply (tracks_of_quietly (ensureVerifierResources_spec _ _ _ _)).bind
    intro r _ _
    cases r <;> trivial
  | broken e => trivial
  | failed numa => exact enterManualRepair_tracks node _ (Tracked.refl cfg s _)
  | finished all =>
    dsimp only
    split
    · trivial
    · have hpassed : Tracked cfg s log' { s with verificationPassed := true } :=
        (Tracked.refl cfg s log').congr rfl rfl (Or.inl rfl)
      apply (saveState_tracks hpassed).bind
      intro r _ _
      cases r <;> trivial

theorem setHealthy_tracks (node : Node) :
    Tracks cfg s (setHealthy node) log (fun _ _ => True) := by
  unfold setHealthy
  apply Ensures.perform
  · intro r _ t he
    cases he
  · intro r _
    apply (tracks_of_quietly (patchChanged_spec _ _)).bind
    intro r _ _
    cases r with
    | error e => trivial
    | ok patched =>
      exact (tracks_of_quietly (setNodeCondition_spec _ _ _ _)).mono fun _ _ _ => trivial

theorem finishIncident_tracks (node : Node) :
    Tracks cfg s (finishIncident node) log (fun _ _ => True) := by
  unfold finishIncident
  apply (setHealthy_tracks node).bind
  intro r _ _
  cases r with
  | error e => trivial
  | ok u =>
    apply Ensures.perform
    · intro r _ t he
      cases he
    · intro r _
      split <;> trivial

theorem reconcileVerification_tracks (node : Node) (object : String) (rawStatus : ConditionStatus) :
    Tracks cfg s (reconcileVerification cfg node object s rawStatus) log (fun _ _ => True) := by
  unfold reconcileVerification
  split
  · exact enterManualRepair_tracks node _ (Tracked.refl cfg s log)
  · refine perform_tracks trivial fun now => ?_
    split
    · exact enterManualRepair_tracks node _ (Tracked.refl cfg s _)
    · split
      · exact enterManualRepair_tracks node _ (Tracked.refl cfg s _)
      · split
        · exact confirmVerifiers_tracks node object rawStatus _
        · split
          · trivial
          · apply (tracks_of_quietly (deleteVerifierResources_spec _ _ _ _)).bind
            intro r log' _
            split
            · trivial
            · trivial
            · exact finishIncident_tracks node

theorem advance_tracks (node : Node) (object : String) (rawStatus : ConditionStatus)
    (hp : s.phase.rebootOrLater) :
    Tracks cfg s (advance cfg node rawStatus object s) log (fun _ _ => True) := by
  unfold advance
  apply (tracks_of_quietly (ensureIsolation_spec _ _)).bind
  intro r log' _
  cases r with
  | error e => trivial
  | ok node =>
    cases hphase : s.phase with
    | rebootRequested => exact reconcileReboot_tracks node object (Or.inl hphase)
    | rebooting => exact reconcileReboot_tracks node object (Or.inr hphase)
    | verifying => exact reconcileVerification_tracks node object rawStatus
    | _ =>
      rw [hphase] at hp
      exact hp.elim

theorem reconcile_tracks (name : String) (hp : s.phase.rebootOrLater) :
    Tracks cfg s (reconcile cfg name) [] (fun _ _ => True) := by
  unfold reconcile
  refine perform_tracks trivial fun r => ?_
  split
  · trivial
  · trivial
  next node =>
    apply (tracks_of_quietly (loadState_spec _ node)).bind
    intro r log' hload
    split
    · trivial
    next object t =>
      have hs : some s = some t := hload.1.2 object t rfl
      obtain rfl : s = t := Option.some.inj hs
      have hmanual : ¬ repairRequested cfg node
          (nodeConditionStatus node.conditions hardwareFaultCondition) s := by
        intro hrep
        rw [hrep.1] at hp
        exact hp
      unfold reconcileState
      rw [if_neg hmanual]
      exact advance_tracks node object _ hp
    · have hnone : some s = none := hload.1.1 rfl
      cases hnone

/-- What one reconcile of a requested reboot leaves on record, also if it stops
halfway. -/
theorem reconcile_tracked {o : Option Outcome} (hp : s.phase.rebootOrLater)
    (he : Executes (allowed (some s)) (reconcile cfg name) [] log o)
    (hs : storedAfter (some s) log = some s') : Tracked cfg s log s' := by
  have hinv := (reconcile_tracks name hp).invariant he
    (fun l => ∀ t, storedAfter (some s) l = some t → Tracked cfg s l t)
  apply hinv
  · intro l e hI _ hsave t ht
    rw [storedAfter_snoc] at ht
    cases heff : effect e with
    | none =>
      rw [heff] at ht
      exact (hI t ht).mono (List.subset_append_left l _)
    | some written =>
      rw [heff] at ht
      obtain rfl : written = some t := ht
      obtain ⟨r, rfl⟩ := effect_save heff
      exact (hsave t rfl).mono (List.subset_append_left l _)
  · intro t ht
    obtain rfl : s = t := Option.some.inj ht
    exact Tracked.refl cfg s []
  · exact hs

end HeteroCluster.BootRecords
