import HeteroCluster.RecoveryIsolation
import HeteroCluster.Retries

namespace HeteroCluster.WatchdogReboot

open GoStrings CallProgram OperatorCalls RecoveryIsolation Retries

/-- What one check of the reboot request asks for. An update carries the
version its Node was read at. -/
inductive WatchdogCall where
  | getNode
  | listPods
  | updateNode (version : Nat) (node : Node)
  | dryRun
  | sync
  | reboot

abbrev WatchdogReply : WatchdogCall → Type
  | .getNode => Except ClientError (Nat × Node)
  | .listPods => Except ClientError (List Pod)
  | .updateNode _ _ => Except ClientError Unit
  | .dryRun => String
  | .sync => Unit
  | .reboot => Except ClientError Unit

abbrev Watchdog := Program WatchdogReply
abbrev WatchdogLog := Log WatchdogReply

abbrev ask (c : WatchdogCall) : Watchdog (WatchdogReply c) := Program.perform c

def rebootRequest (node : Node) : String := get node.annotations rebootRequestKey
def rebootAck (node : Node) : String := get node.annotations rebootAckKey

def conditionTrue (conditions : List NodeCondition) (conditionType : String) : Bool :=
  match conditions.find? (fun c => c.type == conditionType) with
  | some c => c.status == .conditionTrue
  | none => false

def acknowledged (node : Node) (request : String) : Node :=
  { node with annotations := set node.annotations rebootAckKey request }

/-- The closure of `rebootOnce`. -/
def acknowledgeOnce (request : String) : Watchdog (Option ClientError) := do
  match ← ask .getNode with
  | .error e => return some e
  | .ok (version, current) =>
    if rebootRequest current ≠ request ∨ rebootAck current = request then return none
    else
      match ← ask (.updateNode version (acknowledged current request)) with
      | .error e => return some e
      | .ok () => return none

def rebootHost : Watchdog (Option ClientError) := do
  if equalFold (← ask .dryRun) "true" then return none
  else
    let _ ← ask .sync
    match ← ask .reboot with
    | .error e => return some (.wrapped "reboot host" e)
    | .ok () => return none

def rebootOnce (retries : Backoff) : Watchdog (Option ClientError) := do
  match ← ask .getNode with
  | .error e => return some e
  | .ok (_, node) =>
    let request := rebootRequest node
    if request = "" ∨ request = rebootAck node ∨
        request ≠ get node.annotations recoveryIncidentKey ∨
        get node.annotations recoveryPhaseKey ≠ "RebootRequested" ∨
        conditionTrue node.conditions hardwareDegradedCondition = false then return none
    else
      match ← ask .listPods with
      | .error e => return some (.wrapped "list worker Pods" e)
      | .ok pods =>
        if pods ≠ [] then return none
        else
          match ← onError retries isConflict (acknowledgeOnce request) with
          | some e => return some (.wrapped "acknowledge reboot" e)
          | none => rebootHost

def Open (request : String) (node : Node) : Prop :=
  rebootRequest node = request ∧ rebootAck node ≠ request

instance (request : String) (node : Node) : Decidable (Open request node) :=
  inferInstanceAs (Decidable (_ ∧ _))

def nodeRead : Event WatchdogReply → Option Node
  | ⟨.getNode, .ok (_, node)⟩ => some node
  | _ => none

def requestOf (log : WatchdogLog) : Option String :=
  log.head?.bind (fun e => (nodeRead e).map rebootRequest)

/-- Every Node the closure read again still had the request open. -/
def StillOpen (log : WatchdogLog) : Prop :=
  ∀ request ∈ requestOf log, ∀ node ∈ log.tail.filterMap nodeRead, Open request node

instance (log : WatchdogLog) : Decidable (StillOpen log) :=
  inferInstanceAs (Decidable (∀ request ∈ requestOf log, _))

def updates : Event WatchdogReply → Bool
  | ⟨.updateNode _ _, .ok _⟩ => true
  | _ => false

/-- This execution acknowledged the request on a Node where it was open. -/
def Acknowledges (log : WatchdogLog) (request : String) (version : Nat) (node : Node) : Prop :=
  requestOf log = some request ∧ Open request node ∧
    (⟨.getNode, .ok (version, node)⟩ : Event WatchdogReply) ∈ log ∧
    (⟨.updateNode version (acknowledged node request), .ok ()⟩ : Event WatchdogReply) ∈ log

/-- What holds of the calls of an execution: an update acknowledges a request
that was read as open, and a reboot is backed by such an update exactly when
every read of the closure found the request open. -/
def Good (log : WatchdogLog) : Event WatchdogReply → Prop
  | ⟨.updateNode version node, _⟩ => ∃ request current, requestOf log = some request ∧
      node = acknowledged current request ∧ Open request current ∧
      (⟨.getNode, .ok (version, current)⟩ : Event WatchdogReply) ∈ log
  | ⟨.reboot, _⟩ => (∃ request version node, Acknowledges log request version node) ↔ StillOpen log
  | _ => True

abbrev Keeps {α : Type} (p : Watchdog α) (log : WatchdogLog) (post : α → WatchdogLog → Prop) : Prop :=
  Ensures (fun _ _ => True) Good p log post

variable {log : WatchdogLog} {request : String} {e : Event WatchdogReply}

theorem requestOf_append (h : requestOf log = some request) (t : WatchdogLog) :
    requestOf (log ++ t) = some request := by
  cases log with
  | nil => cases h
  | cons e log => simpa [requestOf] using h

theorem stillOpen_snoc (h : requestOf log = some request) (e : Event WatchdogReply) :
    StillOpen (log ++ [e]) ↔ StillOpen log ∧ ∀ node ∈ nodeRead e, Open request node := by
  have hne : log ≠ [] := by
    intro hnil
    simp [hnil, requestOf] at h
  unfold StillOpen
  rw [requestOf_append h, h, List.tail_append_of_ne_nil hne, List.filterMap_append]
  cases hr : nodeRead e with
  | none => simp [hr]
  | some node =>
    simp only [Option.mem_def, Option.some.injEq, forall_eq', hr, List.filterMap_cons,
      List.filterMap_nil, List.mem_append, List.mem_singleton]
    constructor
    · intro hall
      exact ⟨fun n hn => hall n (.inl hn), hall node (.inr rfl)⟩
    · rintro ⟨hall, hnode⟩ n (hn | rfl)
      · exact hall n hn
      · exact hnode

/-- The closure has not acknowledged yet, and all it read was open. -/
structure Pending (log : WatchdogLog) (request : String) : Prop where
  requested : requestOf log = some request
  stillOpen : StillOpen log
  fresh : ∀ e ∈ log, updates e = false

structure Settled (log : WatchdogLog) (request : String) : Prop where
  requested : requestOf log = some request
  backed : (∃ version node, Acknowledges log request version node) ↔ StillOpen log

theorem no_updates_snoc (h : ∀ f ∈ log, updates f = false) (he : updates e = false) :
    ∀ f ∈ log ++ [e], updates f = false := by
  intro f hf
  obtain hf | hf := List.mem_append.mp hf
  · exact h f hf
  · rw [List.mem_singleton.mp hf]
    exact he

theorem Pending.snoc (h : Pending log request) (hr : ∀ node ∈ nodeRead e, Open request node)
    (hu : updates e = false) : Pending (log ++ [e]) request where
  requested := requestOf_append h.requested _
  stillOpen := (stillOpen_snoc h.requested e).mpr ⟨h.stillOpen, hr⟩
  fresh := no_updates_snoc h.fresh hu

theorem not_acknowledges {version : Nat} {node : Node} (h : ∀ e ∈ log, updates e = false) :
    ¬ Acknowledges log request version node := by
  rintro ⟨-, -, -, hm⟩
  have := h _ hm
  simp [updates] at this

theorem Settled.of_closed (h : Pending log request) (he : nodeRead e ≠ none)
    (hc : ∀ node ∈ nodeRead e, ¬ Open request node) (hu : updates e = false) :
    Settled (log ++ [e]) request := by
  refine ⟨requestOf_append h.requested _, ?_⟩
  constructor
  · rintro ⟨version, node, hack⟩
    exact absurd hack (not_acknowledges (no_updates_snoc h.fresh hu))
  · intro hopen
    obtain ⟨node, hnode⟩ := Option.ne_none_iff_exists'.mp he
    exact absurd (((stillOpen_snoc h.requested e).mp hopen).2 node hnode) (hc node hnode)

theorem Settled.of_update {version : Nat} {node : Node} (h : Pending log request)
    (hopen : Open request node)
    (hread : (⟨.getNode, .ok (version, node)⟩ : Event WatchdogReply) ∈ log) :
    Settled (log ++ [⟨.updateNode version (acknowledged node request), .ok ()⟩]) request := by
  have hrequest := requestOf_append h.requested
    [⟨.updateNode version (acknowledged node request), .ok ()⟩]
  refine ⟨hrequest, ?_⟩
  constructor
  · intro _
    rw [stillOpen_snoc h.requested]
    exact ⟨h.stillOpen, by simp [nodeRead]⟩
  · intro _
    exact ⟨version, node, hrequest, hopen, List.mem_append_left _ hread, by simp⟩

theorem Settled.snoc (h : Settled log request) (hr : nodeRead e = none) (hu : updates e = false) :
    Settled (log ++ [e]) request := by
  refine ⟨requestOf_append h.requested _, ?_⟩
  rw [stillOpen_snoc h.requested, ← h.backed]
  constructor
  · rintro ⟨version, node, -, ho, hread, hack⟩
    have hread : (⟨.getNode, .ok (version, node)⟩ : Event WatchdogReply) ∈ log := by
      obtain hm | hm := List.mem_append.mp hread
      · exact hm
      · rw [← List.mem_singleton.mp hm] at hr
        simp [nodeRead] at hr
    have hack : (⟨.updateNode version (acknowledged node request), .ok ()⟩ : Event WatchdogReply) ∈
        log := by
      obtain hm | hm := List.mem_append.mp hack
      · exact hm
      · rw [← List.mem_singleton.mp hm] at hu
        simp [updates] at hu
    exact ⟨⟨version, node, h.requested, ho, hread, hack⟩, by simp [hr]⟩
  · rintro ⟨⟨version, node, -, ho, hread, hack⟩, -⟩
    exact ⟨version, node, requestOf_append h.requested _, ho, List.mem_append_left _ hread,
      List.mem_append_left _ hack⟩

theorem acknowledgeOnce_keeps (log : WatchdogLog) (h : Pending log request) :
    Keeps (acknowledgeOnce request) log (fun r log' =>
      (r = none → Settled log' request) ∧ (r ≠ none → Pending log' request)) := by
  apply Ensures.perform (fun _ _ => trivial)
  intro r _
  split
  next e =>
    refine ⟨by simp, fun _ => ?_⟩
    exact h.snoc (by simp [nodeRead]) rfl
  next version current =>
    split
    next hclosed =>
      refine ⟨fun _ => ?_, by simp⟩
      apply Settled.of_closed h (by simp [nodeRead]) _ rfl
      rintro node ⟨⟩ ho
      obtain hc | hc := hclosed
      · exact hc ho.1
      · exact ho.2 hc
    next hopen =>
      rw [not_or, not_not] at hopen
      have hread : Pending (log ++ [⟨.getNode, .ok (version, current)⟩]) request := by
        apply h.snoc _ rfl
        rintro node ⟨⟩
        exact hopen
      apply Ensures.perform
      · intro _ _
        exact ⟨request, current, hread.requested, rfl, hopen, by simp⟩
      · intro r _
        split
        next e =>
          refine ⟨by simp, fun _ => ?_⟩
          exact hread.snoc (by simp [nodeRead]) rfl
        · exact ⟨fun _ => .of_update hread hopen (by simp), by simp⟩

theorem rebootHost_keeps (h : Settled log request) :
    Keeps rebootHost log (fun _ _ => True) := by
  apply Ensures.perform
  · intro _ _
    trivial
  · intro text _
    have hdry : Settled (log ++ [⟨.dryRun, text⟩]) request := h.snoc rfl rfl
    split
    · trivial
    · apply Ensures.perform
      · intro _ _
        trivial
      · intro u _
        have hsync : Settled (log ++ [⟨.dryRun, text⟩] ++ [⟨.sync, u⟩]) request := hdry.snoc rfl rfl
        apply Ensures.perform
        · intro _ _
          constructor
          · rintro ⟨other, version, node, hack⟩
            obtain rfl : request = other := Option.some.inj (hsync.requested.symm.trans hack.1)
            exact hsync.backed.mp ⟨version, node, hack⟩
          · intro ho
            exact ⟨request, hsync.backed.mpr ho⟩
        · intro r _
          split <;> trivial

theorem rebootOnce_keeps (retries : Backoff) : Keeps (rebootOnce retries) [] (fun _ _ => True) := by
  apply Ensures.perform
  · intro _ _
    trivial
  · intro r _
    split
    · trivial
    · rename_i version node
      dsimp only
      split
      · trivial
      · apply Ensures.perform
        · intro _ _
          trivial
        · intro r _
          split
          · trivial
          · split
            · trivial
            · rename_i pods _
              have hp : Pending ([⟨.getNode, .ok (version, node)⟩] ++ [⟨.listPods, .ok pods⟩])
                  (rebootRequest node) :=
                ⟨rfl, by simp [StillOpen, nodeRead], by simp [updates]⟩
              apply (onError_ensures retries acknowledgeOnce_keeps hp).bind
              intro r log' hs
              split
              · trivial
              · exact rebootHost_keeps (hs rfl)

end HeteroCluster.WatchdogReboot
