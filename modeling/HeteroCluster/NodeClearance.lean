import HeteroCluster.RecoveryRuns

namespace HeteroCluster.NodeClearance

open GoStrings RecoveryIncident HardwareInventory AffectedJobs CallProgram OperatorCalls
open RecoveryIsolation RecoveryVerifier RecoveryEvidence RecoverySteps RecoveryRuns

/-- The record that set `verificationPassed`: its reconcile saw every verifier
succeed, and an older record of the incident saw the inventory match. -/
structure PassedBy (cfg : Config) (trail newer older : List Entry) (log : OperatorLog)
    (s : RecoveryState) : Prop where
  split : trail = newer ++ (log, s) :: older
  passed : s.verificationPassed = true
  first : ∀ x ∈ older, x.2.verificationPassed = false
  verified : Verified cfg log s
  matched : ∃ x ∈ older, InventoryMatches x.1 x.2 ∧ x.2.newBootID = s.newBootID

structure SameOrigin (a b : RecoveryState) : Prop where
  incident : a.incident = b.incident
  preBootID : a.preBootID = b.preBootID
  preInventory : a.preInventory = b.preInventory
  preInventoryHash : a.preInventoryHash = b.preInventoryHash

variable {cfg : Config} {name : String} {hist : List OperatorLog} {log : OperatorLog}
variable {s s' : RecoveryState} {trail : List Entry}

theorem Step.sameOrigin (h : Step cfg log s s') : SameOrigin s' s := by
  cases h with
  | discover _ hd =>
    rw [hd.same]
    exact ⟨rfl, rfl, rfl, rfl⟩
  | _ => exact ⟨rfl, rfl, rfl, rfl⟩

theorem Incident.sameOrigin (h : Incident cfg trail) :
    ∀ x ∈ trail.head?, ∀ y ∈ trail, SameOrigin y.2 x.2 := by
  induction h with
  | none => simp
  | start => simpa using ⟨rfl, rfl, rfl, rfl⟩
  | @step log log' s s' older _ hs ih =>
    have hs := Step.sameOrigin hs
    simp only [List.head?_cons, Option.mem_def, Option.some.injEq, forall_eq'] at ih ⊢
    intro y hy
    obtain rfl | hy := List.mem_cons.mp hy
    · exact ⟨rfl, rfl, rfl, rfl⟩
    · have hi := ih y hy
      exact ⟨hi.incident.trans hs.incident.symm, hi.preBootID.trans hs.preBootID.symm,
        hi.preInventory.trans hs.preInventory.symm, hi.preInventoryHash.trans hs.preInventoryHash.symm⟩

theorem Step.passed_cases (h : Step cfg log s s') :
    s'.verificationPassed = s.verificationPassed ∨
      s.phase = .verifying ∧ Verified cfg log s ∧ s' = { s with verificationPassed := true } := by
  cases h with
  | discover _ hd =>
    rw [hd.same]
    exact .inl rfl
  | passed hp hv => exact .inr ⟨hp, hv, rfl⟩
  | _ => exact .inl rfl

theorem Step.verifying_cases (h : Step cfg log s s') (hp : s'.phase = .verifying) :
    s.phase = .verifying ∧ s' = { s with verificationPassed := true } ∨
      s.phase = .rebooting ∧ InventoryMatches log s' := by
  cases h with
  | passed hp' _ => exact .inl ⟨hp', rfl⟩
  | verify t hp' hi => exact .inr ⟨hp', hi.booted, hi.changed, hi.known, hi.published⟩
  | discover hp' hd =>
    rw [hd.same] at hp
    simp_all [Phase.evacuating]
  | addJobs _ hp' =>
    have hp : s.phase = .verifying := hp
    simp [hp, Phase.evacuating] at hp'
  | job _ hj =>
    have hp : s.phase = .verifying := hp
    simpa [hp] using JobStep.phase hj
  | move _ hm => cases hm <;> simp at hp
  | _ => simp_all

theorem Incident.matched (h : Incident cfg trail) :
    ∀ x ∈ trail.head?, x.2.phase = .verifying → ∃ y ∈ trail, InventoryMatches y.1 y.2 ∧
      y.2.newBootID = x.2.newBootID := by
  induction h with
  | none => simp
  | start hs => cases hs <;> simp [initialState]
  | @step log log' s s' older _ hs ih =>
    simp only [List.head?_cons, Option.mem_def, Option.some.injEq, forall_eq'] at ih ⊢
    intro hp
    obtain ⟨hv, rfl⟩ | ⟨-, hi⟩ := Step.verifying_cases hs hp
    · obtain ⟨y, hy, hm⟩ := ih hv
      exact ⟨y, List.mem_cons_of_mem _ hy, hm⟩
    · exact ⟨(log', s'), by simp, hi, rfl⟩

theorem PassedBy.cons {newer older : List Entry} (x : Entry)
    (h : PassedBy cfg trail newer older log s) : PassedBy cfg (x :: trail) (x :: newer) older log s :=
  ⟨by rw [h.split, List.cons_append], h.passed, h.first, h.verified, h.matched⟩

theorem Incident.passedBy (h : Incident cfg trail) : ∀ x ∈ trail.head?,
    (x.2.verificationPassed = false → ∀ y ∈ trail, y.2.verificationPassed = false) ∧
      (x.2.verificationPassed = true → ∃ newer older log s, PassedBy cfg trail newer older log s) := by
  induction h with
  | none => simp
  | start hs => cases hs <;> simp [initialState]
  | @step log log' s s' older hi hs ih =>
    simp only [List.head?_cons, Option.mem_def, Option.some.injEq, forall_eq'] at ih ⊢
    have hkeep : s.verificationPassed = true → ∃ newer older' l t,
        PassedBy cfg ((log', s') :: (log, s) :: older) newer older' l t := by
      intro hp
      obtain ⟨newer, older', l, t, h⟩ := ih.2 hp
      exact ⟨_, _, _, _, h.cons _⟩
    obtain heq | ⟨hp, hv, rfl⟩ := Step.passed_cases hs
    · rw [heq]
      refine ⟨fun hf y hy => ?_, hkeep⟩
      obtain rfl | hy := List.mem_cons.mp hy
      · exact heq.trans hf
      · exact ih.1 hf y hy
    · refine ⟨by simp, fun _ => ?_⟩
      cases hold : s.verificationPassed with
      | true => exact hkeep hold
      | false =>
        refine ⟨[], (log, s) :: older, log', _, rfl, rfl, ih.1 hold, ⟨hv.raw, hv.cells⟩, ?_⟩
        exact Incident.matched hi (log, s) rfl hp

/-- While a state is recorded, the Node is declared healthy only when that state
allows it, and the state only came to allow it by verification. -/
theorem healthy_only_when_cleared (h : Run cfg name hist) :
    (∀ earlier before r after later s,
      hist = earlier ++ (before ++ ⟨.setHealthy, r⟩ :: after) :: later →
      recorded (earlier ++ [before]) = some s → Cleared cfg before s) ∧
    (∀ s, recorded hist = some s → s.verificationPassed = true →
      ∃ newer older log s₀, PassedBy cfg (incidentTrail hist) newer older log s₀) ∧
    ∀ x ∈ incidentTrail hist, ∀ s, recorded hist = some s → SameOrigin x.2 s := by
  obtain ⟨hi, hhead⟩ := h.incident
  have hopen : ∀ s, recorded hist = some s → ∃ x ∈ (incidentTrail hist).head?, x.2 = s := by
    intro s hs
    rw [hs] at hhead
    exact Option.map_eq_some_iff.mp hhead
  refine ⟨?_, ?_, ?_⟩
  · intro earlier before r after later s hh hs
    rw [recorded_snoc] at hs
    exact (h.good hh).1 s hs
  · intro s hs hp
    obtain ⟨x, hx, rfl⟩ := hopen s hs
    exact (Incident.passedBy hi x hx).2 hp
  · intro y hy s hs
    obtain ⟨x, hx, rfl⟩ := hopen s hs
    exact Incident.sameOrigin hi x hx y hy

def sampleInventory : Inventory :=
  ⟨1, "boot-1", [{ numa := 0, cpus := 1, memoryUnits := 1, memoryUnitBytes := 1, gpus := []
                   openTPU := [] }]⟩

def verifiedConfig : Config :=
  { sampleConfig with unmarshalInventory := fun _ => some sampleInventory }

/-- The Node after its reboot, healthy again and with its inventory published. -/
def rebootedNode : Node :=
  { sampleNode with
    annotations := [(rebootAckKey, "00000000-0000-4000-8000-000000000000"),
      (inventoryBootIDKey, "boot-2"), (inventoryHashKey, "hash")]
    conditions := [⟨hardwareFaultCondition, .conditionFalse, "", "", 0, 0⟩,
      ⟨"Ready", .conditionTrue, "", "", 0, 0⟩]
    bootID := "boot-2" }

def faultyNode : Node := { sampleNode with annotations := [(inventoryHashKey, "hash")] }

def recovery : List World :=
  [{ node := faultyNode }, { node := faultyNode }, { node := faultyNode }, { node := rebootedNode },
    { node := rebootedNode }, { node := rebootedNode, now := 40 * second },
    { node := rebootedNode, now := 50 * second, verifier := .ok ⟨[], [], 1, 0⟩ }]

def recoveryRun (worlds : List World) : List OperatorLog :=
  replay verifiedConfig "node" [] (completed worlds)

def declaresHealthy : Event Reply → Bool
  | ⟨.setHealthy, _⟩ => true
  | _ => false

theorem healthy_only_when_cleared_recovery :
    (recoveryRun (recovery ++ [{ node := rebootedNode, now := 60 * second }])).flatten.any
        declaresHealthy = true ∧
      ∃ newer older log s, PassedBy verifiedConfig (incidentTrail (recoveryRun recovery))
        newer older log s := by
  refine ⟨by decide +kernel, ?_⟩
  have hrun : Run verifiedConfig "node" (recoveryRun recovery) := replay_run .start _
  have hp : (recorded (recoveryRun recovery)).map RecoveryState.verificationPassed = some true := by
    decide +kernel
  obtain ⟨s, hs, hpassed⟩ := Option.map_eq_some_iff.mp hp
  exact (healthy_only_when_cleared hrun).2.1 s hs hpassed

end HeteroCluster.NodeClearance
