import HeteroCluster.SecondReboot
import Mathlib.Data.List.Induction

namespace HeteroCluster.BootTracking

open GoStrings RecoveryIncident CallProgram OperatorCalls RecoveryIsolation RecoveryEvacuation
open RecoveryVerifier RecoveryReconcile RecoveryEvidence RecoverySteps RecoveryQuiet RecoveryRuns
open NodeClearance BootRecords SecondReboot

/-- A reconcile: the state it started from, and the boot IDs it read. -/
structure Observation where
  state : RecoveryState
  boots : List String

instance : DecidablePred Phase.rebootOrLater := fun phase =>
  match phase with
  | .rebootRequested | .rebooting | .verifying => isTrue trivial
  | .isolated | .draining | .checkpointing | .requeued | .manualRepair => isFalse id

def observe (cfg : Config) (acc : Option RecoveryState × List Observation) (log : OperatorLog) :
    Option RecoveryState × List Observation :=
  (storedAfter acc.1 log, match acc.1 with
    | some s => if s.phase.rebootOrLater then acc.2 ++ [⟨s, boots cfg log⟩] else []
    | none => [])

def observations (cfg : Config) (hist : List OperatorLog) : List Observation :=
  (hist.foldl (observe cfg) (none, [])).2

/-- The Node is seen with the new boot ID now, and with no third one since the
reboot was requested. -/
structure OneBoot (s : RecoveryState) (now : List String) (seen : List Observation) : Prop where
  current : ∀ b ∈ now, b = s.newBootID
  known : ∀ x ∈ seen, ∀ b ∈ x.boots, Known s b

/-- What the operator does not check. Before a new boot ID is on record the Node
shows one new ID at most; it does not come back to the recorded ID after another
one; and while the operator verifies, it stays with the recorded ID. -/
structure Calm (s : RecoveryState) (now : List String) (seen : List Observation) : Prop where
  current : ∀ b ∈ now, b = s.newBootID
  single : ∀ x ∈ seen, x.state.newBootID = "" → ∀ b ∈ x.boots, b ≠ "" → b ≠ s.preBootID →
    ∀ y ∈ seen, y.state.newBootID = "" → ∀ c ∈ y.boots, c ≠ "" → c ≠ s.preBootID → b = c
  noReturn : ∀ older x newer, seen = older ++ x :: newer → x.state.newBootID ≠ "" →
    x.state.phase ≠ .verifying → (∃ b ∈ x.boots, ¬ Known s b) →
    ∀ y ∈ x :: newer, s.newBootID ∉ y.boots
  verifying : ∀ x ∈ seen, x.state.phase = .verifying → ∀ b ∈ x.boots, Known s b

variable {cfg : Config} {name : String} {s s' : RecoveryState} {log log' : OperatorLog}

section Runs

variable {hist : List OperatorLog}

theorem observe_recorded (hist : List OperatorLog) :
    (hist.foldl (observe cfg) (none, [])).1 = recorded hist := by
  induction hist using List.reverseRecOn with
  | nil => rfl
  | append_singleton hist log ih =>
    rw [List.foldl_concat, recorded_snoc, ← ih]
    rfl

theorem observations_snoc (h : recorded hist = some s) (hp : s.phase.rebootOrLater)
    (log : OperatorLog) :
    observations cfg (hist ++ [log]) = observations cfg hist ++ [⟨s, boots cfg log⟩] := by
  unfold observations
  rw [List.foldl_concat]
  simp only [observe, observe_recorded, h, if_pos hp]

theorem observations_fresh (h : ∀ s, recorded hist = some s → ¬ s.phase.rebootOrLater)
    (log : OperatorLog) : observations cfg (hist ++ [log]) = [] := by
  unfold observations
  rw [List.foldl_concat]
  simp only [observe, observe_recorded]
  cases hs : recorded hist with
  | none => rfl
  | some s => exact if_neg (h s hs)

structure Consistent (seen : List Observation) (s : RecoveryState) : Prop where
  pre : ∀ x ∈ seen, x.state.preBootID = s.preBootID
  new : ∀ x ∈ seen, x.state.newBootID = "" ∨ x.state.newBootID = s.newBootID
  recorded : s.newBootID ≠ "" → (∃ x ∈ seen, x.state.newBootID = "") →
    ∃ x ∈ seen, x.state.newBootID = "" ∧ s.newBootID ∈ x.boots ∧ s.newBootID ≠ s.preBootID
  verified : s.phase = .verifying → (∃ x ∈ seen, x.state.phase ≠ .verifying) →
    s.newBootID ≠ "" ∧ ∃ older x newer, seen = older ++ x :: newer ∧ s.newBootID ∈ x.boots ∧
      ∀ y ∈ newer, y.state.phase = .verifying

theorem Consistent.nil (s : RecoveryState) : Consistent [] s :=
  ⟨by simp, by simp, by simp, by simp⟩

theorem Consistent.new_snoc {seen : List Observation} (h : Consistent seen s)
    (ht : Tracked cfg s log s') {x : Observation} (hx : x ∈ seen ++ [⟨s, boots cfg log⟩]) :
    x.state.newBootID = "" ∨ x.state.newBootID = s'.newBootID := by
  have hold : x.state.newBootID = "" ∨ x.state.newBootID = s.newBootID := by
    cases List.mem_append.mp hx with
    | inl hx => exact h.new x hx
    | inr hx =>
      rw [List.mem_singleton.mp hx]
      exact Or.inr rfl
  cases ht.new with
  | inl hsame =>
    rw [hsame]
    exact hold
  | inr hnew =>
    rw [hnew.2.1, or_self] at hold
    exact Or.inl hold

theorem Consistent.recorded_snoc {seen : List Observation} (h : Consistent seen s)
    (ht : Tracked cfg s log s') (hne : s'.newBootID ≠ "")
    (hex : ∃ x ∈ seen ++ [⟨s, boots cfg log⟩], x.state.newBootID = "") :
    ∃ x ∈ seen ++ [⟨s, boots cfg log⟩], x.state.newBootID = "" ∧ s'.newBootID ∈ x.boots ∧
      s'.newBootID ≠ s'.preBootID := by
  rw [ht.pre]
  cases ht.new with
  | inl hsame =>
    rw [hsame] at hne ⊢
    obtain ⟨x, hx, hempty⟩ := hex
    have hx : x ∈ seen := by
      cases List.mem_append.mp hx with
      | inl hx => exact hx
      | inr hx =>
        rw [List.mem_singleton.mp hx] at hempty
        exact absurd hempty hne
    obtain ⟨y, hy, hrecord⟩ := h.recorded hne ⟨x, hx, hempty⟩
    exact ⟨y, List.mem_append_left _ hy, hrecord⟩
  | inr hnew => exact ⟨⟨s, boots cfg log⟩, by simp, hnew.2.1, hnew.2.2.1, hnew.2.2.2⟩

theorem Consistent.verified_snoc {seen : List Observation} (h : Consistent seen s)
    (ht : Tracked cfg s log s') (hv : s'.phase = .verifying)
    (hex : ∃ x ∈ seen ++ [⟨s, boots cfg log⟩], x.state.phase ≠ .verifying) :
    s'.newBootID ≠ "" ∧ ∃ older x newer, seen ++ [⟨s, boots cfg log⟩] = older ++ x :: newer ∧
      s'.newBootID ∈ x.boots ∧ ∀ y ∈ newer, y.state.phase = .verifying := by
  cases ht.verifying hv with
  | inl hstart =>
    have hsame : s'.newBootID = s.newBootID := by
      cases ht.new with
      | inl hsame => exact hsame
      | inr hnew =>
        rw [hstart] at hnew
        cases hnew.1
    obtain ⟨x, hx, hphase⟩ := hex
    have hx : x ∈ seen := by
      cases List.mem_append.mp hx with
      | inl hx => exact hx
      | inr hx =>
        rw [List.mem_singleton.mp hx] at hphase
        exact absurd hstart hphase
    obtain ⟨hne, older, y, newer, hsplit, hread, hnewer⟩ := h.verified hstart ⟨x, hx, hphase⟩
    rw [hsame]
    refine ⟨hne, older, y, newer ++ [⟨s, boots cfg log⟩], by rw [hsplit]; simp, hread, ?_⟩
    intro z hz
    cases List.mem_append.mp hz with
    | inl hz => exact hnewer z hz
    | inr hz =>
      rw [List.mem_singleton.mp hz]
      exact hstart
  | inr hnew => exact ⟨hnew.2.1, seen, ⟨s, boots cfg log⟩, [], rfl, hnew.2.2, by simp⟩

theorem Consistent.snoc {seen : List Observation} (h : Consistent seen s)
    (ht : Tracked cfg s log s') : Consistent (seen ++ [⟨s, boots cfg log⟩]) s' where
  pre x hx := by
    rw [ht.pre]
    cases List.mem_append.mp hx with
    | inl hx => exact h.pre x hx
    | inr hx => rw [List.mem_singleton.mp hx]
  new _ hx := h.new_snoc ht hx
  recorded hne hex := h.recorded_snoc ht hne hex
  verified hv hex := h.verified_snoc ht hv hex

theorem Run.consistent (h : Run cfg name hist) :
    ∀ s, recorded hist = some s → Consistent (observations cfg hist) s := by
  induction h with
  | start =>
    intro s hs
    cases hs
  | @next hist log o _ he ih =>
    intro s' hs'
    by_cases hstart : ∃ s, recorded hist = some s ∧ s.phase.rebootOrLater
    · obtain ⟨s, hs, hp⟩ := hstart
      rw [hs] at he
      rw [recorded_snoc, hs] at hs'
      rw [observations_snoc hs hp]
      exact (ih s hs).snoc (reconcile_tracked hp he hs')
    · rw [observations_fresh (fun s hs hp => hstart ⟨s, hs, hp⟩)]
      exact Consistent.nil s'

theorem Calm.oneBoot {seen : List Observation} {now : List String} (hc : Consistent seen s)
    (hp : s.phase = .verifying) (h : Calm s now seen) : OneBoot s now seen := by
  refine ⟨h.current, fun x hx b hb => ?_⟩
  by_cases hv : x.state.phase = .verifying
  · exact h.verifying x hx hv b hb
  · obtain ⟨hne, older, z, newer, hsplit, hread, hnewer⟩ := hc.verified hp ⟨x, hx, hv⟩
    by_cases hn : x.state.newBootID = ""
    · by_cases hb0 : b = ""
      · exact Or.inl hb0
      by_cases hb1 : b = s.preBootID
      · exact Or.inr (Or.inl hb1)
      obtain ⟨y, hy, hyn, hyb, hypre⟩ := hc.recorded hne ⟨x, hx, hn⟩
      exact Or.inr (Or.inr (h.single x hx hn b hb hb0 hb1 y hy hyn _ hyb hne hypre))
    · by_contra hstray
      obtain ⟨older', newer', hsplit'⟩ := List.append_of_mem hx
      have hreturn := h.noReturn older' x newer' hsplit' hn hv ⟨b, hb, hstray⟩
      have hz : z ∈ x :: newer' := by
        rw [hsplit] at hsplit'
        cases List.append_eq_append_iff.mp hsplit' with
        | inl hlater =>
          obtain ⟨t, -, ht⟩ := hlater
          cases t with
          | nil =>
            rw [List.nil_append] at ht
            rw [← ht]
            exact List.mem_cons_self
          | cons y t =>
            obtain ⟨-, rfl⟩ := List.cons.inj ht
            exact absurd (hnewer x (by simp)) hv
        | inr hearlier =>
          obtain ⟨t, -, ht⟩ := hearlier
          rw [ht]
          exact List.mem_append_right t List.mem_cons_self
      exact hreturn z hz hread

theorem OneBoot.calm {seen : List Observation} {now : List String} (h : OneBoot s now seen) :
    Calm s now seen := by
  have honly : ∀ x ∈ seen, ∀ b ∈ x.boots, b ≠ "" → b ≠ s.preBootID → b = s.newBootID := by
    intro x hx b hb h0 h1
    exact ((h.known x hx b hb).resolve_left h0).resolve_left h1
  refine ⟨h.current, ?_, ?_, fun x hx _ => h.known x hx⟩
  · intro x hx _ b hb hb0 hb1 y hy _ c hc hc0 hc1
    rw [honly x hx b hb hb0 hb1, honly y hy c hc hc0 hc1]
  · rintro older x newer rfl _ _ ⟨b, hb, hstray⟩
    exact absurd (h.known x (by simp) b hb) hstray

end Runs

/-- At the end of an incident the Node was seen to boot once exactly if the Node
gave the operator no boot IDs that it does not check; and while the Node reboots,
a second new boot ID leads to manual repair. -/
theorem boots_tracked :
    (∀ earlier before s, Run cfg name (earlier ++ [before ++ [⟨.setHealthy, ()⟩]]) →
      recorded (earlier ++ [before]) = some s →
      (OneBoot s (boots cfg before) (observations cfg (earlier ++ [before])) ↔
        Calm s (boots cfg before) (observations cfg (earlier ++ [before])))) ∧
    ∀ s b log r, s.phase = .rebooting → s.newBootID ≠ "" → ¬ Known s b →
      s.version = recoveryStateVersion → validIncident cfg s.incident = true →
      Executes (fun l e => allowed (some s) l e ∧ undisturbed cfg s b e = true)
        (reconcile cfg name) [] log (some r) → InManualRepair s log := by
  constructor
  · intro earlier before s hrun hs
    have hsplit : earlier ++ [before ++ [⟨.setHealthy, ()⟩]] =
        earlier ++ (before ++ (⟨.setHealthy, ()⟩ : Event Reply) :: []) :: [] := rfl
    obtain ⟨hgood, hrun'⟩ := hrun.good hsplit
    have hcleared : Cleared cfg before s := by
      rw [recorded_snoc] at hs
      exact hgood s hs
    exact ⟨OneBoot.calm, Calm.oneBoot (Run.consistent hrun' s hs) hcleared.phase⟩
  · intro s b log r hp hn hb hversion hvalid he
    exact (reconcile_repairs name hp hn hb hversion hvalid).result he

section Samples

/-- The last reconcile of a recovery, stopped when it calls `setHealthy`. -/
def lastCalls (w : World) : OperatorLog :=
  (follow (answer (recorded (recoveryRun recovery)) w.reply) 10
    (reconcile verifiedConfig "node") []).1

/-- The reconcile ends with that call, and the record and the boot IDs it read
before satisfy a condition. -/
def endsHealthy (w : World) (p : RecoveryState → List String → Bool) : Bool :=
  let log := lastCalls w
  log.getLast?.any declaresHealthy &&
    (recorded (recoveryRun recovery ++ [log.dropLast])).any
      (fun s => p s (boots verifiedConfig log.dropLast))

theorem endsHealthy_run {w : World} {p : RecoveryState → List String → Bool}
    (h : endsHealthy w p = true) : ∃ before s,
      Run verifiedConfig "node" (recoveryRun recovery ++ [before ++ [⟨.setHealthy, ()⟩]]) ∧
      recorded (recoveryRun recovery ++ [before]) = some s ∧
      p s (boots verifiedConfig before) = true := by
  have hrun : Run verifiedConfig "node" (recoveryRun recovery) := replay_run .start _
  have hlast := hrun.next (follow_executes (fun l c => answer_allowed (recorded _) w.reply l c) 10
    (reconcile verifiedConfig "node") [])
  change Run verifiedConfig "node" (recoveryRun recovery ++ [lastCalls w]) at hlast
  unfold endsHealthy at h
  rw [Bool.and_eq_true] at h
  obtain ⟨e, he, hd⟩ := (Option.any_eq_true _ _).mp h.1
  obtain ⟨s, hs, hp⟩ := (Option.any_eq_true _ _).mp h.2
  obtain ⟨before, hbefore⟩ := List.getLast?_eq_some_iff.mp he
  have hhealthy : e = ⟨.setHealthy, ()⟩ := by
    unfold declaresHealthy at hd
    split at hd
    · rfl
    · cases hd
  rw [hbefore, List.dropLast_concat] at hs hp
  rw [hbefore, hhealthy] at hlast
  exact ⟨before, s, hlast, hs, hp⟩

def rebootedAgain : World :=
  { node := { rebootedNode with bootID := "boot-3" }, now := 60 * second }

/-- Nobody notices: the Node is declared healthy. -/
theorem second_reboot_unnoticed : ∃ before s,
    Run verifiedConfig "node" (recoveryRun recovery ++ [before ++ [⟨.setHealthy, ()⟩]]) ∧
      recorded (recoveryRun recovery ++ [before]) = some s ∧ s.preBootID = "boot-1" ∧
      s.newBootID = "boot-2" ∧ "boot-3" ∈ boots verifiedConfig before := by
  have h : endsHealthy rebootedAgain (fun s seen => s.preBootID == "boot-1" &&
      s.newBootID == "boot-2" && seen.contains "boot-3") = true := by decide +kernel
  obtain ⟨before, s, hrun, hs, hids⟩ := endsHealthy_run h
  simp only [Bool.and_eq_true, beq_iff_eq, List.contains_iff_mem] at hids
  exact ⟨before, s, hrun, hs, hids.1.1, hids.1.2, hids.2⟩

def rebootedOnce : World := { node := rebootedNode, now := 60 * second }

/-- A record of an incident while the operator waits for the Node. -/
def rebootingState : RecoveryState :=
  { initialState sampleNode 0 "00000000-0000-4000-8000-000000000000" with
    phase := .rebooting, newBootID := "boot-2" }

def secondReboot : OperatorLog × Option Outcome :=
  follow (answer (some rebootingState) rebootedAgain.reply) 20 (reconcile verifiedConfig "node") []

theorem boots_tracked_recovery : (∃ before s,
    recorded (recoveryRun recovery ++ [before]) = some s ∧
      (OneBoot s (boots verifiedConfig before)
          (observations verifiedConfig (recoveryRun recovery ++ [before])) ↔
        Calm s (boots verifiedConfig before)
          (observations verifiedConfig (recoveryRun recovery ++ [before])))) ∧
    InManualRepair rebootingState secondReboot.1 := by
  constructor
  · have h : endsHealthy rebootedOnce (fun _ _ => true) = true := by decide +kernel
    obtain ⟨before, s, hrun, hs, -⟩ := endsHealthy_run h
    exact ⟨before, s, hs, boots_tracked.1 _ before s hrun hs⟩
  · have hdone : secondReboot.2.isSome = true := by decide +kernel
    obtain ⟨r, hr⟩ := Option.isSome_iff_exists.mp hdone
    have hrun : Executes (allowed (some rebootingState)) (reconcile verifiedConfig "node") []
        secondReboot.1 secondReboot.2 :=
      follow_executes (fun l c => answer_allowed _ _ l c) _ _ _
    rw [hr] at hrun
    have hfine : ∀ e ∈ secondReboot.1,
        undisturbed verifiedConfig rebootingState "boot-3" e = true := by decide +kernel
    have hunknown : ¬ Known rebootingState "boot-3" := by
      unfold Known
      decide
    exact boots_tracked.2 _ "boot-3" _ r rfl (by decide) hunknown rfl (by decide)
      (hrun.restrict hfine)

end Samples

end HeteroCluster.BootTracking
