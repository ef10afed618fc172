import HeteroCluster.RecoveryEvacuationKeeps

namespace HeteroCluster.RecoveryReconcileKeeps

open GoStrings RecoveryIncident AffectedJobs CallProgram OperatorCalls RecoveryIsolation
open RecoveryEvacuation HardwareInventory RecoveryVerifier RecoveryReconcile RecoveryEvidence
open RecoverySteps RecoveryQuiet RecoveryEvacuationKeeps

variable {cfg : Config} {stored : Option RecoveryState} {log log' : OperatorLog}
variable {s : RecoveryState} {object name : String} {current : Node}

theorem rebooting_later (hp : s.phase = .rebooting) : s.phase.rebootOrLater := by
  rw [hp]
  trivial

theorem startVerifiers_keeps (h : At stored log s) (hp : s.phase = .rebooting)
    (hi : InventoryMatches log s) :
    Keeps cfg stored (startVerifiers cfg current object s) log (fun _ _ => True) := by
  apply (keeps_of_quietly (ensureVerifierResources_spec _ _ _ _)).bind
  intro r log' hr
  split
  · exact enterManualRepair_keeps _ _ (h.quiet hr.2) (rebooting_later hp)
  · refine moveTo_keeps _ _ (h.quiet hr.2) fun now => .verify _ hp (hi.mono ?_)
    exact List.Subset.trans hr.2.subset (by simp)

theorem compareInventory_keeps (since : Time) (h : At stored log s) (hp : s.phase = .rebooting)
    (hr : (⟨.getNode name, .ok current⟩ : Event Reply) ∈ log) (hb : s.newBootID ≠ "")
    (hc : s.newBootID ≠ s.preBootID) :
    Keeps cfg stored (compareInventory cfg current object s since) log (fun _ _ => True) := by
  unfold compareInventory
  split
  · apply Ensures.perform (fun _ _ => trivial)
    intro now _
    split
    · exact enterManualRepair_keeps _ _ (h.now now) (rebooting_later hp)
    · trivial
  · rename_i hboot
    split
    · exact enterManualRepair_keeps _ _ h (rebooting_later hp)
    · rename_i hhash
      simp only [not_or, not_not] at hboot hhash
      have hi : InventoryMatches log s := ⟨hb, hc, hhash.1, name, current, hr, hboot.1, hhash.2⟩
      split
      · exact startVerifiers_keeps h hp hi
      · apply Ensures.perform (fun _ _ => trivial)
        intro now _
        have hnow : Grows quiet log (log ++ [⟨.now, now⟩]) := Grows.snoc log _ trivial
        refine (saveStep_keeps (h.quiet hnow)
          (.verificationStarted _ hp (hi.mono hnow.subset))).bind fun r log' hs => ?_
        split
        · trivial
        · obtain ⟨ha, hg⟩ := hs _ rfl
          have hi' := hi.mono (List.Subset.trans hnow.subset hg.subset)
          exact startVerifiers_keeps ha hp ⟨hi'.booted, hi'.changed, hi'.known, hi'.published⟩

theorem awaitReady_keeps (h : At stored log s) (hp : s.phase = .rebooting)
    (hr : (⟨.getNode name, .ok current⟩ : Event Reply) ∈ log) (hb : s.newBootID ≠ "")
    (hc : s.newBootID ≠ s.preBootID) :
    Keeps cfg stored (awaitReady cfg current object s) log (fun _ _ => True) := by
  unfold awaitReady
  split
  · split
    · exact (saveStep_keeps h (.ready none hp)).bind fun _ _ _ => trivial
    · trivial
  · split
    · apply Ensures.perform (fun _ _ => trivial)
      intro now _
      apply (saveStep_keeps (h.now now) (.ready _ hp)).bind
      intro r _ _
      split <;> trivial
    · apply Ensures.perform (fun _ _ => trivial)
      intro now _
      split
      · trivial
      · exact compareInventory_keeps _ (h.now now) hp
          (List.mem_append_left _ hr) hb hc

theorem trackBoot_keeps (h : At stored log s) (hp : s.phase = .rebooting)
    (hr : (⟨.getNode name, .ok current⟩ : Event Reply) ∈ log) :
    Keeps cfg stored (trackBoot cfg current object s) log (fun _ _ => True) := by
  unfold trackBoot
  split
  · trivial
  · rename_i hboot
    rw [not_or] at hboot
    split
    · rename_i hn
      apply (saveStep_keeps h (.booted hp hn hboot.1 hboot.2)).bind
      intro r log' hs
      split
      · trivial
      · obtain ⟨ha, hg⟩ := hs _ rfl
        exact awaitReady_keeps ha hp (hg.subset hr) hboot.1 hboot.2
    · rename_i hn
      split
      · exact enterManualRepair_keeps _ _ h (rebooting_later hp)
      · rename_i hsame
        exact awaitReady_keeps h hp hr hn (not_not.mp hsame ▸ hboot.2)

theorem reconcileReboot_keeps (node : Node) (h : At stored log s)
    (hp : s.phase = .rebootRequested ∨ s.phase = .rebooting) :
    Keeps cfg stored (reconcileReboot cfg node object s) log (fun _ _ => True) := by
  have hlater : s.phase.rebootOrLater := by
    obtain hp | hp := hp <;> rw [hp] <;> trivial
  apply Ensures.perform (fun _ _ => trivial)
  intro r _
  split
  · trivial
  rename_i current _
  apply Ensures.perform (fun _ _ => trivial)
  intro now _
  have hread : (⟨.getNode node.name, .ok current⟩ : Event Reply) ∈
      log ++ [⟨.getNode node.name, .ok current⟩] ++ [⟨.now, now⟩] := by simp
  have hat := (h.quiet (Grows.snoc log ⟨.getNode node.name, .ok current⟩ trivial)).now now
  split
  · exact enterManualRepair_keeps _ _ hat hlater
  · split
    · rename_i hphase
      split
      · trivial
      · rename_i hack
        refine moveTo_keeps _ _ hat fun t => .acknowledged _ hphase ?_
        exact ⟨node.name, current, List.mem_append_left _ hread, not_not.mp hack⟩
    · rename_i hphase
      exact trackBoot_keeps hat (hp.resolve_left hphase) hread

theorem confirmVerifiers_keeps {rawStatus : ConditionStatus} {inventory : Inventory} (node : Node)
    (h : At stored log s) (hp : s.phase = .verifying) (hr : ReadRaw log rawStatus)
    (hd : decodeRecoveryInventory cfg s.preInventory s.preBootID = .ok inventory) :
    Keeps cfg stored (confirmVerifiers cfg node object s rawStatus inventory) log
      (fun _ _ => True) := by
  apply (keeps_of_quietly (scanVerifiers_spec _ _ _ _)).bind
  intro r log' hs
  split
  · apply (keeps_of_quietly (ensureVerifierResources_spec _ _ _ _)).bind
    intro r _ _
    split <;> trivial
  · trivial
  · exact enterManualRepair_keeps _ _ (h.quiet hs.2) (by rw [hp]; trivial)
  · rename_i allSucceeded
    split
    · trivial
    · rename_i hall
      simp only [not_or, not_not, Bool.not_eq_false] at hall
      obtain ⟨rfl, rfl⟩ := hall
      have hv : Verified cfg log' s := ⟨ReadRaw.grows hr hs.2, inventory, hd, (hs.1 rfl).2⟩
      apply (saveStep_keeps (h.quiet hs.2) (.passed hp hv)).bind
      intro r _ _
      split <;> trivial

theorem setHealthy_keeps (node : Node)
    (hs : ∀ s, storedAfter stored log = some s → Cleared cfg log s) :
    Keeps cfg stored (setHealthy node) log (fun _ _ => True) := by
  apply Ensures.perform (fun _ _ => hs)
  intro _ _
  apply (keeps_of_quietly (patchChanged_spec _ _)).bind
  intro r _ _
  split
  · trivial
  · exact (keeps_of_quietly (setNodeCondition_spec _ _ _ _)).mono fun _ _ _ => trivial

theorem finishIncident_keeps (node : Node)
    (hs : ∀ s, storedAfter stored log = some s → Cleared cfg log s) :
    Keeps cfg stored (finishIncident node) log (fun _ _ => True) := by
  apply (setHealthy_keeps node hs).bind
  intro r _ _
  split
  · trivial
  · apply Ensures.perform (fun _ _ => trivial)
    intro r _
    split <;> trivial

theorem reconcileVerification_keeps {rawStatus : ConditionStatus} (node : Node)
    (h : At stored log s) (hp : s.phase = .verifying) (hr : ReadRaw log rawStatus) :
    Keeps cfg stored (reconcileVerification cfg node object s rawStatus) log
      (fun _ _ => True) := by
  have hlater : s.phase.rebootOrLater := by
    rw [hp]
    trivial
  unfold reconcileVerification
  split
  · exact enterManualRepair_keeps _ _ h hlater
  rename_i started hst
  apply Ensures.perform (fun _ _ => trivial)
  intro now _
  have hnow := h.now now
  split
  · exact enterManualRepair_keeps _ _ hnow hlater
  rename_i htime
  split
  · exact enterManualRepair_keeps _ _ hnow hlater
  rename_i inventory hd
  split
  · exact confirmVerifiers_keeps _ hnow hp (hr.append _) hd
  rename_i hpassed
  split
  · trivial
  rename_i hraw
  apply (keeps_of_quietly (deleteVerifierResources_spec _ _ _ _)).bind
  intro r log' hdel
  split
  · trivial
  · trivial
  · apply finishIncident_keeps node
    intro t ht
    obtain rfl : s = t := by
      rw [(hnow.quiet hdel.2).current, Option.some.injEq] at ht
      exact ht
    refine ⟨hp, by simpa using hpassed, ?_, ⟨started, now, hst, ?_, not_le.mp htime⟩, inventory, hd,
      (hdel.1 rfl).2⟩
    · exact ReadRaw.grows (not_not.mp hraw ▸ hr.append _) hdel.2
    · exact hdel.2.subset (by simp)

theorem advance_keeps {rawStatus : ConditionStatus} (node : Node) (h : At stored log s)
    (hr : ReadRaw log rawStatus) (hl : ∀ e ∈ log, jobless e.1) :
    Keeps cfg stored (advance cfg node rawStatus object s) log (fun _ _ => True) := by
  apply (keeps_of_quietly (ensureIsolation_spec _ _)).bind
  intro r log' hi
  have hat := h.quiet hi.2
  have hl' := Grows.silent hl (hi.2.imp fun _ => jobless_of_quiet)
  split
  · trivial
  split
  · trivial
  all_goals rename_i hp
  · exact reconcileEvacuation_keeps _ hat (by rw [hp]; trivial) hl'
  · exact reconcileEvacuation_keeps _ hat (by rw [hp]; trivial) hl'
  · exact reconcileEvacuation_keeps _ hat (by rw [hp]; trivial) hl'
  · exact reconcileEvacuation_keeps _ hat (by rw [hp]; trivial) hl'
  · exact reconcileReboot_keeps _ hat (.inl hp)
  · exact reconcileReboot_keeps _ hat (.inr hp)
  · exact reconcileVerification_keeps _ hat hp (ReadRaw.grows hr hi.2)

theorem reconcileState_keeps {rawStatus : ConditionStatus} (node : Node) (h : At stored log s)
    (hr : ReadRaw log rawStatus) (hl : ∀ e ∈ log, jobless e.1) :
    Keeps cfg stored (reconcileState cfg node rawStatus object s) log (fun _ _ => True) := by
  unfold reconcileState
  split
  · rename_i hrep
    have hraw := hrep.2.1
    apply (keeps_of_quietly (newRecoveryState_spec _)).bind
    intro r log' hn
    split
    · trivial
    · obtain ⟨now, incident, rfl⟩ := hn.1 _ rfl
      have hat := h.quiet hn.2
      refine (saveState_keeps ?_ fun t ht => ?_).bind fun r log'' hs => ?_
      · rw [hat.current]
        exact .start <| .request node now incident (ReadRaw.grows (hraw ▸ hr) hn.2) (hraw ▸ hrep)
      · rw [hat.current, Option.some.injEq] at ht
        exact ht ▸ hat.wellFormed
      · split
        · trivial
        · obtain ⟨ha, hg⟩ := hs _ rfl
          have hg' := (hn.2.imp fun _ => jobless_of_quiet).trans hg
          exact advance_keeps node ha (ReadRaw.grows hr hg') (Grows.silent hl hg')
  · exact advance_keeps node h hr hl

theorem createState_keeps {rawStatus : ConditionStatus} (node : Node)
    (hs : Save cfg log none s) (hn : storedAfter stored log = none) (hr : ReadRaw log rawStatus)
    (hl : ∀ e ∈ log, jobless e.1) :
    Keeps cfg stored (createState cfg node rawStatus s) log (fun _ _ => True) := by
  apply (saveState_keeps (hn ▸ hs) (by simp [hn])).bind
  intro r log' hr'
  split
  · trivial
  · obtain ⟨ha, hg⟩ := hr' _ rfl
    exact reconcileState_keeps node ha (ReadRaw.grows hr hg) (Grows.silent hl hg)

theorem withoutState_keeps {rawStatus : ConditionStatus} (node : Node)
    (hn : storedAfter stored log = none) (hr : ReadRaw log rawStatus)
    (hl : ∀ e ∈ log, jobless e.1) :
    Keeps cfg stored (withoutState cfg node rawStatus) log (fun _ _ => True) := by
  have hquiet : ∀ {log'}, Grows quiet log log' → storedAfter stored log' = none ∧
      ReadRaw log' rawStatus ∧ ∀ e ∈ log', jobless e.1 := fun hg =>
    ⟨(storedAfter_quiet hg).trans hn, ReadRaw.grows hr hg,
      Grows.silent hl (hg.imp fun _ => jobless_of_quiet)⟩
  unfold withoutState
  split
  · rename_i hraw
    apply (keeps_of_quietly (newRecoveryState_spec _)).bind
    intro r log' hs
    split
    · trivial
    · obtain ⟨now, incident, rfl⟩ := hs.1 _ rfl
      obtain ⟨hn', hr', hl'⟩ := hquiet hs.2
      exact createState_keeps node (.start <| .fault node now incident (hraw ▸ hr')) hn' hr' hl'
  · split
    · rename_i hi
      apply (keeps_of_quietly (newRecoveryState_spec _)).bind
      intro r log' hs
      split
      · trivial
      · obtain ⟨now, incident, rfl⟩ := hs.1 _ rfl
        obtain ⟨hn', hr', hl'⟩ := hquiet hs.2
        exact createState_keeps node (.start <| .missing node now incident hi) hn' hr' hl'
    · apply (setHealthy_keeps node (by simp [hn])).bind
      intro r _ _
      split <;> trivial

theorem reconcile_keeps (name : String) (hw : ∀ s, stored = some s → WellFormed s) :
    Keeps cfg stored (reconcile cfg name) [] (fun _ _ => True) := by
  apply Ensures.perform (fun _ _ => trivial)
  intro r _
  split
  · trivial
  · trivial
  rename_i node _
  have hr : ReadRaw [⟨.getNode name, .ok node⟩]
      (nodeConditionStatus node.conditions hardwareFaultCondition) := ⟨name, node, [], rfl, rfl⟩
  have hl : ∀ e ∈ ([⟨.getNode name, .ok node⟩] : OperatorLog), jobless e.1 := by
    simp [jobless]
  apply (keeps_of_quietly (loadState_spec _ _)).bind
  intro r log' hload
  have hr' := ReadRaw.grows hr hload.2
  have hl' := Grows.silent hl (hload.2.imp fun _ => jobless_of_quiet)
  split
  · trivial
  · rename_i object s
    have hs : stored = some s := hload.1.2 object s rfl
    refine reconcileState_keeps node ⟨?_, hw s hs⟩ hr' hl'
    rw [storedAfter_quiet hload.2]
    exact hs
  · split
    · refine withoutState_keeps node ?_ hr' hl'
      rw [storedAfter_quiet hload.2]
      exact hload.1.1 rfl
    · trivial

end HeteroCluster.RecoveryReconcileKeeps
