import HeteroCluster.Interleaving
import HeteroCluster.WatchdogReboot

namespace HeteroCluster.RebootRequests

open GoStrings CallProgram Interleaving OperatorCalls RecoveryIsolation Retries WatchdogReboot

/-- The Node object as the API server keeps it, with all its past versions. -/
structure Server where
  past : List Node
  node : Node

def Server.version (sv : Server) : Nat := sv.past.length

def Server.put (sv : Server) (node : Node) : Server := ⟨sv.past ++ [sv.node], node⟩

def Server.at (sv : Server) (version : Nat) : Option Node := (sv.past ++ [sv.node])[version]?

/-- Reads are current, and an update is applied only at the version it was
read at. A failed update was not applied, unless only its reply was lost. -/
inductive Serves : Server → Event WatchdogReply → Server → Prop
  | read (sv : Server) : Serves sv ⟨.getNode, .ok (sv.version, sv.node)⟩ sv
  | readFailed (sv : Server) (e : ClientError) : Serves sv ⟨.getNode, .error e⟩ sv
  | updated (sv : Server) (node : Node) :
      Serves sv ⟨.updateNode sv.version node, .ok ()⟩ (sv.put node)
  | updateFailed (sv : Server) (version : Nat) (node : Node) (e : ClientError) :
      Serves sv ⟨.updateNode version node, .error e⟩ sv
  | updateLost (sv : Server) (node : Node) (e : ClientError) (he : isConflict e = false) :
      Serves sv ⟨.updateNode sv.version node, .error e⟩ (sv.put node)
  | listPods (sv : Server) (r : Except ClientError (List Pod)) : Serves sv ⟨.listPods, r⟩ sv
  | dryRun (sv : Server) (text : String) : Serves sv ⟨.dryRun, text⟩ sv
  | sync (sv : Server) : Serves sv ⟨.sync, ()⟩ sv
  | reboot (sv : Server) (r : Except ClientError Unit) : Serves sv ⟨.reboot, r⟩ sv

/-- Anyone may write any Node at any time. -/
def AnyUpdate (sv sv' : Server) : Prop := ∃ node, sv' = sv.put node

/-- The written Node opens a request that some version had acknowledged. -/
def Reopens (sv : Server) (node : Node) : Prop :=
  ∃ request, request ≠ "" ∧ Open request node ∧ ∃ old ∈ sv.past ++ [sv.node], rebootAck old = request

def CarefulUpdate (sv sv' : Server) : Prop := ∃ node, sv' = sv.put node ∧ ¬ Reopens sv node

variable {κ : Type} {retries : Backoff} {sv sv' sv₀ : Server} {log : WatchdogLog}

theorem Server.at_version (sv : Server) : sv.at sv.version = some sv.node := by
  simp [Server.at, Server.version]

theorem Server.at_put_version (sv : Server) (node : Node) :
    (sv.put node).at (sv.version + 1) = some node := by
  simp [Server.at, Server.version, Server.put]

theorem Server.at_put {version : Nat} {n : Node} (h : sv.at version = some n) (node : Node) :
    (sv.put node).at version = some n := by
  have hlt : version < (sv.past ++ [sv.node]).length := (List.getElem?_eq_some_iff.mp h).1
  rw [Server.at, Server.put, List.getElem?_append_left hlt]
  exact h

theorem Server.at_put_cases {version : Nat} {n node : Node} (h : (sv.put node).at version = some n) :
    sv.at version = some n ∨ version = sv.version + 1 ∧ n = node := by
  by_cases hlt : version < (sv.past ++ [sv.node]).length
  · rw [Server.at, Server.put, List.getElem?_append_left hlt] at h
    exact .inl h
  · rw [Server.at, Server.put, List.getElem?_append_right (Nat.not_lt.mp hlt)] at h
    have hz : version - (sv.past ++ [sv.node]).length = 0 := by
      have := (List.getElem?_eq_some_iff.mp h).1
      simpa using this
    rw [hz] at h
    have hl : (sv.past ++ [sv.node]).length = sv.version + 1 := by simp [Server.version]
    exact .inr ⟨by omega, by simpa using h.symm⟩

theorem Server.at_le {version : Nat} {n : Node} (h : sv.at version = some n) :
    version ≤ sv.version := by
  have hlt := (List.getElem?_eq_some_iff.mp h).1
  simp [Server.version] at hlt ⊢
  omega

theorem Serves.effect_cases {e : Event WatchdogReply} (h : Serves sv e sv') :
    (sv' = sv ∧ ∀ version node, e ≠ ⟨.updateNode version node, .ok ()⟩) ∨
      ∃ node r, e = ⟨.updateNode sv.version node, r⟩ ∧ sv' = sv.put node := by
  cases h with
  | updated node => exact .inr ⟨node, _, rfl, rfl⟩
  | updateLost node e _ => exact .inr ⟨node, _, rfl, rfl⟩
  | _ =>
    refine .inl ⟨rfl, ?_⟩
    rintro version node ⟨⟩

theorem Serves.at {e : Event WatchdogReply} {version : Nat} {n : Node} (h : Serves sv e sv')
    (hn : sv.at version = some n) : sv'.at version = some n := by
  obtain ⟨rfl, -⟩ | ⟨node, r, -, rfl⟩ := Serves.effect_cases h
  · exact hn
  · exact Server.at_put hn node

theorem Serves.read_inv {version : Nat} {n : Node}
    (h : Serves sv ⟨.getNode, .ok (version, n)⟩ sv') : sv.at version = some n := by
  cases h
  exact Server.at_version sv

theorem Serves.updated_inv {version : Nat} {n : Node}
    (h : Serves sv ⟨.updateNode version n, .ok ()⟩ sv') : version = sv.version ∧ sv' = sv.put n := by
  cases h
  exact ⟨rfl, rfl⟩

/-- What the logs of the executions say about the versions of the Node. -/
structure Known (sv : Server) (logs : κ → WatchdogLog) : Prop where
  read : ∀ k version n, (⟨.getNode, .ok (version, n)⟩ : Event WatchdogReply) ∈ logs k →
    sv.at version = some n
  wrote : ∀ k version n, (⟨.updateNode version n, .ok ()⟩ : Event WatchdogReply) ∈ logs k →
    sv.at (version + 1) = some n
  once : ∀ k k' version n n',
    (⟨.updateNode version n, .ok ()⟩ : Event WatchdogReply) ∈ logs k →
    (⟨.updateNode version n', .ok ()⟩ : Event WatchdogReply) ∈ logs k' → k = k'

theorem Known.put {logs : κ → WatchdogLog} (h : Known sv logs) (node : Node) :
    Known (sv.put node) logs where
  read := fun k version n hm => Server.at_put (h.read k version n hm) node
  wrote := fun k version n hm => Server.at_put (h.wrote k version n hm) node
  once := h.once

theorem Known.call [DecidableEq κ] {logs : κ → WatchdogLog} {k : κ} {e : Event WatchdogReply}
    (h : Known sv logs)
    (hs : Serves sv e sv') : Known sv' (Function.update logs k (logs k ++ [e])) where
  read := by
    intro j version n hm
    obtain hm | ⟨-, rfl⟩ := mem_update_snoc.mp hm
    · exact hs.at (h.read j version n hm)
    · exact hs.at hs.read_inv
  wrote := by
    intro j version n hm
    obtain hm | ⟨-, rfl⟩ := mem_update_snoc.mp hm
    · exact hs.at (h.wrote j version n hm)
    · obtain ⟨rfl, rfl⟩ := hs.updated_inv
      exact Server.at_put_version sv n
  once := by
    have hnew : ∀ j version n, (⟨.updateNode version n, .ok ()⟩ : Event WatchdogReply) ∈ logs j →
        ∀ m, e ≠ ⟨.updateNode version m, .ok ()⟩ := by
      rintro j version n hm m rfl
      have hle := Server.at_le (h.wrote j version n hm)
      have hv := hs.updated_inv.1
      omega
    intro j j' version n n' hm hm'
    obtain ho | ⟨hj, he⟩ := mem_update_snoc.mp hm
    · obtain ho' | ⟨-, he'⟩ := mem_update_snoc.mp hm'
      · exact h.once j j' version n n' ho ho'
      · exact absurd he'.symm (hnew j version n ho n')
    · obtain ho' | ⟨hj', -⟩ := mem_update_snoc.mp hm'
      · exact absurd he.symm (hnew j' version n' ho' n)
      · rw [hj, hj']

/-- An acknowledged request is never open in a later version. -/
def Lasting (sv : Server) : Prop :=
  ∀ i j n m, i < j → sv.at i = some n → sv.at j = some m → rebootAck n ≠ "" →
    ¬ Open (rebootAck n) m

theorem Lasting.put {node : Node} (h : Lasting sv)
    (hn : ∀ i n, sv.at i = some n → rebootAck n ≠ "" → ¬ Open (rebootAck n) node) :
    Lasting (sv.put node) := by
  intro i j n m hij hi hj hne
  obtain hold | ⟨hlast, rfl⟩ := Server.at_put_cases hj
  · obtain hi' | ⟨hi', -⟩ := Server.at_put_cases hi
    · exact h i j n m hij hi' hold hne
    · have hle := Server.at_le hold
      omega
  · obtain hi' | ⟨hi', -⟩ := Server.at_put_cases hi
    · exact hn i n hi' hne
    · omega

theorem rebootAck_acknowledged (node : Node) (request : String) :
    rebootAck (acknowledged node request) = request := get_set _ _ _

theorem rebootRequest_acknowledged (node : Node) (request : String) :
    rebootRequest (acknowledged node request) = rebootRequest node :=
  get_set_of_ne _ _ (by decide)

theorem Lasting.call {e : Event WatchdogReply} (h : Lasting sv) (hg : Good log e)
    (hs : Serves sv e sv') : Lasting sv' := by
  obtain ⟨rfl, -⟩ | ⟨node, r, rfl, rfl⟩ := Serves.effect_cases hs
  · exact h
  · obtain ⟨request, current, -, rfl, ho, -⟩ := hg
    apply h.put
    intro i n _ _ hopen
    have hreq : rebootRequest current = rebootAck n := (rebootRequest_acknowledged _ _) ▸ hopen.1
    apply hopen.2
    rw [rebootAck_acknowledged, ← hreq]
    exact ho.1.symm

theorem Lasting.careful (h : Lasting sv) (hs : CarefulUpdate sv sv') : Lasting sv' := by
  obtain ⟨node, rfl, hn⟩ := hs
  apply h.put
  intro i n hi hne ho
  exact hn ⟨rebootAck n, hne, ho, n, List.mem_of_getElem? hi, rfl⟩

def reboots : Event WatchdogReply → Bool
  | ⟨.reboot, _⟩ => true
  | _ => false

/-- An execution that rebooted the host, with the request it worked on. -/
def RebootedFor (log : WatchdogLog) (request : String) : Prop :=
  requestOf log = some request ∧ log.any reboots = true

instance (log : WatchdogLog) (request : String) : Decidable (RebootedFor log request) :=
  inferInstanceAs (Decidable (_ ∧ _))

theorem RebootedFor.split {request : String} (h : RebootedFor log request) :
    ∃ before r after, log = before ++ ⟨.reboot, r⟩ :: after ∧ requestOf before = some request := by
  obtain ⟨hr, hany⟩ := h
  obtain ⟨⟨c, r⟩, hm, hc⟩ := List.any_eq_true.mp hany
  obtain ⟨before, after, rfl⟩ := List.append_of_mem hm
  cases c with
  | reboot =>
    refine ⟨before, r, after, rfl, ?_⟩
    cases before with
    | nil => simp [requestOf, nodeRead] at hr
    | cons e before => simpa [requestOf] using hr
  | _ => simp [reboots] at hc

theorem stillOpen_of_append {after : WatchdogLog} {request : String}
    (hr : requestOf log = some request) (h : StillOpen (log ++ after)) : StillOpen log := by
  have hne : log ≠ [] := by
    intro hnil
    simp [hnil, requestOf] at hr
  intro other ho node hnode
  rw [hr] at ho
  apply h other (requestOf_append (hr.trans ho) after) node
  rw [List.tail_append_of_ne_nil hne, List.filterMap_append]
  exact List.mem_append_left _ hnode

theorem acknowledges_unique {k k' : κ} {request : String} {v v' : Nat} {n n' : Node}
    {before before' : WatchdogLog} {logs : κ → WatchdogLog} (hl : Lasting sv) (hk : Known sv logs)
    (hb : before ⊆ logs k) (hb' : before' ⊆ logs k') (hne : request ≠ "")
    (ha : Acknowledges before request v n) (ha' : Acknowledges before' request v' n') : k = k' := by
  obtain ⟨-, ho, hr, hw⟩ := ha
  obtain ⟨-, ho', hr', hw'⟩ := ha'
  have hnext := hk.wrote k v _ (hb hw)
  have hnext' := hk.wrote k' v' _ (hb' hw')
  have hread := hk.read k v n (hb hr)
  have hread' := hk.read k' v' n' (hb' hr')
  -- the version of one acknowledgement would lie before an open version of the other
  have hapart : ∀ {a b : Nat} {x y : Node}, sv.at (a + 1) = some (acknowledged x request) →
      sv.at b = some y → Open request y → ¬ a < b := by
    intro a b x y hx hy hopen hab
    have hack := rebootAck_acknowledged x request
    by_cases hab' : a + 1 = b
    · subst hab'
      rw [hx, Option.some.injEq] at hy
      exact hopen.2 (hy ▸ hack)
    · have hlater := hl (a + 1) b _ y (by omega) hx hy (by rwa [hack])
      rw [hack] at hlater
      exact hlater hopen
  have hv : v = v' := by
    have h1 := hapart hnext hread' ho'
    have h2 := hapart hnext' hread ho
    omega
  subst hv
  exact hk.once k k' v _ _ (hb hw) (hb' hw')

section Executions

variable [DecidableEq κ] {t : κ → Thread WatchdogReply (Option ClientError)}

theorem known_of_reach
    (h : Reach Serves AnyUpdate sv₀ (fun _ : κ => rebootOnce retries) sv t) :
    Known sv (fun k => (t k).log) := by
  apply h.invariant (fun _ => rebootOnce_keeps retries) Known
  · exact ⟨by simp, by simp, by simp⟩
  · rintro s s' logs hk ⟨node, rfl⟩
    exact hk.put node
  · intro s s' logs k e hk _ hs
    exact hk.call hs

theorem lasting_of_reach {node₀ : Node}
    (h : Reach Serves CarefulUpdate ⟨[], node₀⟩ (fun _ : κ => rebootOnce retries) sv t) :
    Lasting sv := by
  apply h.invariant (fun _ => rebootOnce_keeps retries) (fun s _ => Lasting s)
  · intro i j n m hij _ hj
    have hle := Server.at_le hj
    simp [Server.version] at hle
    omega
  · intro s s' _ hl hs
    exact hl.careful hs
  · intro s s' logs k e hl hg hs
    exact hl.call hg hs

end Executions

/-- A reboot is backed by the execution's own acknowledgement of an open request
exactly when every read of its closure found the request open. Where that
holds and nobody opens an acknowledged request again, each request is executed
at most once. -/
theorem reboot_acknowledged_once {node₀ : Node} [DecidableEq κ]
    {t : κ → Thread WatchdogReply (Option ClientError)}
    (h : Reach Serves AnyUpdate ⟨[], node₀⟩ (fun _ : κ => rebootOnce retries) sv t) :
    (∀ k before r after, (t k).log = before ++ ⟨.reboot, r⟩ :: after →
      ((∃ request version node, Acknowledges before request version node ∧
        sv.at version = some node ∧ sv.at (version + 1) = some (acknowledged node request)) ↔
        StillOpen before)) ∧
    (Reach Serves CarefulUpdate ⟨[], node₀⟩ (fun _ : κ => rebootOnce retries) sv t →
      (∀ k, StillOpen (t k).log) → ∀ k k' request, request ≠ "" →
      RebootedFor (t k).log request → RebootedFor (t k').log request → k = k') := by
  have hk := known_of_reach h
  have hgood : ∀ k before r after, (t k).log = before ++ ⟨.reboot, r⟩ :: after →
      ((∃ request version node, Acknowledges before request version node) ↔ StillOpen before) :=
    fun k before r after hl => h.good (fun _ => rebootOnce_keeps retries) k hl
  constructor
  · intro k before r after hl
    rw [← hgood k before r after hl]
    constructor
    · rintro ⟨request, version, node, ha, -⟩
      exact ⟨request, version, node, ha⟩
    · rintro ⟨request, version, node, ha⟩
      have hsub : before ⊆ (t k).log := hl ▸ List.subset_append_left _ _
      exact ⟨request, version, node, ha, hk.read k version node (hsub ha.2.2.1),
        hk.wrote k version _ (hsub ha.2.2.2)⟩
  · intro hcareful hopen k k' request hne hreb hreb'
    obtain ⟨before, r, after, hl, hr⟩ := hreb.split
    obtain ⟨before', r', after', hl', hr'⟩ := hreb'.split
    have hs : StillOpen before := stillOpen_of_append hr (hl ▸ hopen k)
    have hs' : StillOpen before' := stillOpen_of_append hr' (hl' ▸ hopen k')
    obtain ⟨q, v, n, ha⟩ := (hgood k before r after hl).mpr hs
    obtain ⟨q', v', n', ha'⟩ := (hgood k' before' r' after' hl').mpr hs'
    obtain rfl : request = q := Option.some.inj (hr.symm.trans ha.1)
    obtain rfl : request = q' := Option.some.inj (hr'.symm.trans ha'.1)
    exact acknowledges_unique (lasting_of_reach hcareful) hk (hl ▸ List.subset_append_left _ _)
      (hl' ▸ List.subset_append_left _ _) hne ha ha'

def honest (sv : Server) : (c : WatchdogCall) → WatchdogReply c × Server
  | .getNode => (.ok (sv.version, sv.node), sv)
  | .listPods => (.ok [], sv)
  | .updateNode version node =>
    if version = sv.version then (.ok (), sv.put node) else (.error .conflict, sv)
  | .dryRun => ("", sv)
  | .sync => ((), sv)
  | .reboot => (.ok (), sv)

theorem honest_serves (sv : Server) (c : WatchdogCall) :
    Serves sv ⟨c, (honest sv c).1⟩ (honest sv c).2 := by
  cases c with
  | updateNode version node =>
    by_cases hv : version = sv.version
    · subst hv
      simp only [honest, if_true]
      exact .updated sv node
    · simp only [honest, if_neg hv]
      exact .updateFailed sv version node _
  | getNode => exact .read sv
  | listPods => exact .listPods sv _
  | dryRun => exact .dryRun sv _
  | sync => exact .sync sv
  | reboot => exact .reboot sv _

def fiveSteps : Backoff := ⟨5, by decide⟩

def sampleRequest : String := "00000000-0000-4000-8000-000000000000"

def requestedNode : Node :=
  { name := "node", uid := "uid", labels := [], taints := [], bootID := "boot-1"
    annotations := [(rebootRequestKey, sampleRequest), (recoveryIncidentKey, sampleRequest),
      (recoveryPhaseKey, "RebootRequested")]
    conditions := [⟨hardwareDegradedCondition, .conditionTrue, "", "", 0, 0⟩] }

def withdraw (sv : Server) : Server := sv.put { requestedNode with annotations := [] }

def played (moves : List (Bool ⊕ (Server → Server))) :
    Server × (Bool → Thread WatchdogReply (Option ClientError)) :=
  play honest ⟨[], requestedNode⟩ (fun _ => rebootOnce fiveSteps) moves

def undisturbed : List (Bool ⊕ (Server → Server)) := List.replicate 7 (.inl true)

def withdrawnMeanwhile : List (Bool ⊕ (Server → Server)) :=
  [.inl true, .inl true, .inr withdraw] ++ List.replicate 4 (.inl true)

def bothAtOnce : List (Bool ⊕ (Server → Server)) :=
  [.inl true, .inl true] ++ List.replicate 7 (.inl false) ++ List.replicate 4 (.inl true)

theorem played_undisturbed : RebootedFor ((played undisturbed).2 true).log sampleRequest ∧
    ∀ k, StillOpen ((played undisturbed).2 k).log := by
  decide +kernel

theorem undisturbed_reach :
    Reach Serves CarefulUpdate ⟨[], requestedNode⟩ (fun _ : Bool => rebootOnce fiveSteps)
      (played undisturbed).1 (played undisturbed).2 := by
  apply play_reach honest_serves undisturbed
  intro f hf
  simp [undisturbed] at hf

theorem reboot_acknowledged_once_undisturbed :
    (∃ before r after, ((played undisturbed).2 true).log = before ++ ⟨.reboot, r⟩ :: after ∧
      ∃ request version node, Acknowledges before request version node ∧
        (played undisturbed).1.at version = some node ∧
        (played undisturbed).1.at (version + 1) = some (acknowledged node request)) ∧
    ∀ k, RebootedFor ((played undisturbed).2 k).log sampleRequest → k = true := by
  have hany : Reach Serves AnyUpdate ⟨[], requestedNode⟩ (fun _ : Bool => rebootOnce fiveSteps)
      (played undisturbed).1 (played undisturbed).2 := by
    apply undisturbed_reach.imp
    rintro s s' ⟨node, hs, -⟩
    exact ⟨node, hs⟩
  obtain ⟨hbacked, honce⟩ := reboot_acknowledged_once hany
  constructor
  · obtain ⟨before, r, after, hl, hr⟩ := played_undisturbed.1.split
    have ho := played_undisturbed.2 true
    rw [hl] at ho
    exact ⟨before, r, after, hl, (hbacked true before r after hl).mpr (stillOpen_of_append hr ho)⟩
  · intro k hk
    exact honce undisturbed_reach played_undisturbed.2 k true sampleRequest (by decide) hk
      played_undisturbed.1

theorem played_withdrawnMeanwhile :
    RebootedFor ((played withdrawnMeanwhile).2 true).log sampleRequest ∧
    ∀ e ∈ ((played withdrawnMeanwhile).2 true).log, updates e = false := by
  decide +kernel

theorem played_bothAtOnce : RebootedFor ((played bothAtOnce).2 true).log sampleRequest ∧
    RebootedFor ((played bothAtOnce).2 false).log sampleRequest := by
  decide +kernel

/-- A request withdrawn after the worker Pods were listed still reboots the
host, with nothing acknowledged; and of two executions of one request the later
one finds it acknowledged, and reboots the host a second time. -/
theorem closed_request_rebooted :
    (∃ sv t, Reach Serves AnyUpdate ⟨[], requestedNode⟩ (fun _ : Bool => rebootOnce fiveSteps) sv t ∧
      RebootedFor (t true).log sampleRequest ∧
      ¬ ∃ request version node, Acknowledges (t true).log request version node) ∧
    ∃ sv t, Reach Serves CarefulUpdate ⟨[], requestedNode⟩ (fun _ : Bool => rebootOnce fiveSteps) sv t ∧
      RebootedFor (t true).log sampleRequest ∧ RebootedFor (t false).log sampleRequest := by
  constructor
  · refine ⟨_, _, play_reach honest_serves withdrawnMeanwhile ?_, played_withdrawnMeanwhile.1, ?_⟩
    · intro f hf sv
      obtain rfl : f = withdraw := by simpa [withdrawnMeanwhile] using hf
      exact ⟨_, rfl⟩
    · rintro ⟨request, version, node, hack⟩
      exact not_acknowledges played_withdrawnMeanwhile.2 hack
  · refine ⟨_, _, play_reach honest_serves bothAtOnce ?_, played_bothAtOnce⟩
    intro f hf
    simp [bothAtOnce] at hf

end HeteroCluster.RebootRequests
