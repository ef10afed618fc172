import HeteroCluster.RecoveryReconcile

namespace HeteroCluster.RecoveryEvidence

open GoStrings RecoveryIncident AffectedJobs CallProgram OperatorCalls RecoveryIsolation
open RecoveryEvacuation HardwareInventory RecoveryVerifier RecoveryReconcile

/-- What a call does to the record: nothing, or a new content. A write whose
reply was lost took effect all the same. -/
def effect : Event Reply → Option (Option RecoveryState)
  | ⟨.saveState s, .saved _⟩ => some (some s)
  | ⟨.saveState s, .lost _⟩ => some (some s)
  | ⟨.deleteState _, .saved _⟩ => some none
  | ⟨.deleteState _, .lost _⟩ => some none
  | _ => none

def persist (stored : Option RecoveryState) (e : Event Reply) : Option RecoveryState :=
  (effect e).getD stored

def storedAfter (stored : Option RecoveryState) (log : OperatorLog) : Option RecoveryState :=
  log.foldl persist stored

/-- Replies are arbitrary, except that reading the state either fails or
returns what was last recorded. -/
def allowed (stored : Option RecoveryState) (log : OperatorLog) : Event Reply → Prop
  | ⟨.getState _, .ok (_, s)⟩ => storedAfter stored log = some s
  | ⟨.getState _, .error .notFound⟩ => storedAfter stored log = none
  | _ => True

def ReadRaw (log : OperatorLog) (rawStatus : ConditionStatus) : Prop :=
  ∃ name node rest, log = ⟨.getNode name, .ok node⟩ :: rest ∧
    nodeConditionStatus node.conditions hardwareFaultCondition = rawStatus

structure Answered (log : OperatorLog) (p : String × Snapshot) : Prop where
  key : '/' ∈ p.1.toList
  nodes : (⟨.slurmNodes p.1, .ok p.2.nodes⟩ : Event Reply) ∈ log
  jobs : (⟨.slurmJobs p.1, .ok p.2.jobs⟩ : Event Reply) ∈ log

structure Observed (log : OperatorLog) (s : RecoveryState) (snapshots : Snapshots) : Prop where
  answered : ∀ p ∈ snapshots, Answered log p
  complete : ∀ c ∈ s.clusters, ∃ snapshot, snapshots.lookup c.key = some snapshot

/-- The Pod of the worker, and its claim if it has one, were observed absent. -/
structure Gone (log : OperatorLog) (w : RecoveryWorker) : Prop where
  pod : (⟨.getPod w.ns w.name, .error .notFound⟩ : Event Reply) ∈ log
  claim : w.claim ≠ "" → (⟨.deleteClaim w.ns w.claim, .error .notFound⟩ : Event Reply) ∈ log

structure Barrier (log : OperatorLog) (s : RecoveryState) (snapshots : Snapshots) : Prop where
  observed : Observed log s snapshots
  recorded : ∀ p ∈ snapshots, ∀ job ∈ p.2.jobs, Affects (workerNames s p.1) job →
    (p.1, job.rootID) ∈ s.jobs.map RecoveryJob.ident
  evacuated : ∀ j ∈ s.jobs, jobEvacuated j s (snapshotOf snapshots j.cluster).jobs = true
  gone : ∀ w ∈ s.workers, Gone log w

/-- The Node showed the inventory of the new boot, with the recorded hash. -/
structure InventoryMatches (log : OperatorLog) (s : RecoveryState) : Prop where
  booted : s.newBootID ≠ ""
  changed : s.newBootID ≠ s.preBootID
  known : s.preInventoryHash ≠ ""
  published : ∃ name node, (⟨.getNode name, .ok node⟩ : Event Reply) ∈ log ∧
    get node.annotations inventoryBootIDKey = s.newBootID ∧
    get node.annotations inventoryHashKey = s.preInventoryHash

structure Verified (cfg : Config) (log : OperatorLog) (s : RecoveryState) : Prop where
  raw : ReadRaw log .conditionFalse
  cells : ∃ inventory, decodeRecoveryInventory cfg s.preInventory s.preBootID = .ok inventory ∧
    ∀ cell ∈ inventory.cells, ∃ job : JobObject, job.succeeded = 1 ∧ job.failed = 0 ∧
      (⟨.getJob cfg.ns (verifierName s.incident cell.numa), .ok job⟩ : Event Reply) ∈ log

structure VerifierGone (cfg : Config) (log : OperatorLog) (incident : String) (cell : Cell) :
    Prop where
  job : (⟨.deleteJob cfg.ns (verifierName incident cell.numa), .error .notFound⟩ : Event Reply) ∈ log
  claim : (⟨.deleteClaim cfg.ns (verifierName incident cell.numa), .error .notFound⟩ : Event Reply) ∈
    log

structure Cleared (cfg : Config) (log : OperatorLog) (s : RecoveryState) : Prop where
  phase : s.phase = .verifying
  passed : s.verificationPassed = true
  raw : ReadRaw log .conditionFalse
  timely : ∃ started now, s.verificationStarted = some started ∧
    (⟨.now, now⟩ : Event Reply) ∈ log ∧ now - started < verifierTimeout
  gone : ∃ inventory, decodeRecoveryInventory cfg s.preInventory s.preBootID = .ok inventory ∧
    ∀ cell ∈ inventory.cells, VerifierGone cfg log s.incident cell

variable {cfg : Config} {log log' : OperatorLog} {s : RecoveryState}

theorem storedAfter_append (stored : Option RecoveryState) (log t : OperatorLog) :
    storedAfter stored (log ++ t) = storedAfter (storedAfter stored log) t :=
  List.foldl_append

theorem ReadRaw.append {rawStatus : ConditionStatus} (h : ReadRaw log rawStatus) (t : OperatorLog) :
    ReadRaw (log ++ t) rawStatus := by
  obtain ⟨name, node, rest, rfl, hs⟩ := h
  exact ⟨name, node, rest ++ t, rfl, hs⟩

theorem Answered.mono {p : String × Snapshot} (h : Answered log p) (hl : log ⊆ log') :
    Answered log' p :=
  ⟨h.key, hl h.nodes, hl h.jobs⟩

theorem Observed.mono {s' : RecoveryState} {snapshots : Snapshots} (h : Observed log s snapshots)
    (hl : log ⊆ log') (hc : s'.clusters = s.clusters) : Observed log' s' snapshots :=
  ⟨fun p hp => (h.answered p hp).mono hl, fun c hm => h.complete c (hc ▸ hm)⟩

theorem Gone.mono {w : RecoveryWorker} (h : Gone log w) (hl : log ⊆ log') : Gone log' w :=
  ⟨hl h.pod, fun hc => hl (h.claim hc)⟩

theorem InventoryMatches.mono (h : InventoryMatches log s) (hl : log ⊆ log') :
    InventoryMatches log' s := by
  obtain ⟨name, node, hm, hp⟩ := h.published
  exact ⟨h.booted, h.changed, h.known, name, node, hl hm, hp⟩

end HeteroCluster.RecoveryEvidence
