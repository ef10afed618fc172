import HeteroCluster.OperatorCalls
import HeteroCluster.Retries

namespace HeteroCluster.InventoryPublication

open GoStrings CallProgram
open OperatorCalls (ClientError Node isConflict)
open Retries

inductive PublishCall where
  | getNode
  | updateNode (version : Nat) (node : Node)

abbrev PublishReply : PublishCall → Type
  | .getNode => Except ClientError (Nat × Node)
  | .updateNode _ _ => Except ClientError Unit

abbrev Publisher := Program PublishReply
abbrev PublishLog := Log PublishReply

abbrev ask (c : PublishCall) : Publisher (PublishReply c) := Program.perform c

structure AnnotationKeys where
  inventory : String
  hash : String
  bootID : String

variable {T : Type}

/-- What a driver computes from the boot ID: a value of its own, the text of the
inventory and the hash. -/
abbrev Summary (T : Type) := String → Except String (T × String × String)

def published (keys : AnnotationKeys) (node : Node) (encoded hash : String) : Node :=
  let annotations := set (set node.annotations keys.inventory encoded) keys.hash hash
  { node with annotations := set annotations keys.bootID node.bootID }

def publishNode (keys : AnnotationKeys) (summary : Summary T) (version : Nat) (node : Node) :
    Publisher (Option ClientError) :=
  match summary node.bootID with
  | .error e => return some (.other e)
  | .ok (_, encoded, hash) =>
    if get node.annotations keys.bootID = node.bootID ∧ get node.annotations keys.hash ≠ "" ∧
        get node.annotations keys.hash ≠ hash then
      return some (.other ("DRA inventory changed within boot " ++ quote node.bootID))
    else if get node.annotations keys.bootID = node.bootID ∧
        get node.annotations keys.hash = hash ∧ get node.annotations keys.inventory = encoded then
      return none
    else do
      match ← ask (.updateNode version (published keys node encoded hash)) with
      | .error e => return some (.wrapped "publish DRA inventory" e)
      | .ok () => return none

/-- The closure of `PublishInventory`. -/
def publishOnce (keys : AnnotationKeys) (summary : Summary T) : Publisher (Option ClientError) := do
  match ← ask .getNode with
  | .error e => return some (.wrapped "read node for inventory publication" e)
  | .ok (version, node) => publishNode keys summary version node

def publishInventory (retries : Backoff) (keys : AnnotationKeys) (summary : Summary T) :
    Publisher (Option ClientError) :=
  onError retries isConflict (publishOnce keys summary)

/-- Some execution asks to store this value and this hash on a Node that runs
under the boot ID. -/
def Stores (keys : AnnotationKeys) (p : Publisher (Option ClientError))
    (bootID value hash : String) : Prop :=
  ∃ log o version node r, Executes (fun _ _ => True) p [] log o ∧
    (⟨.updateNode version node, r⟩ : Event PublishReply) ∈ log ∧ node.bootID = bootID ∧
    get node.annotations keys.inventory = value ∧ get node.annotations keys.hash = hash

/-- An update writes what the summary says for the boot ID of the Node. -/
def Truthful (keys : AnnotationKeys) (summary : Summary T) : PublishLog → Event PublishReply → Prop
  | _, ⟨.updateNode _ node, _⟩ => ∃ before t encoded hash,
      node = published keys before encoded hash ∧ summary before.bootID = .ok (t, encoded, hash)
  | _, _ => True

variable {keys : AnnotationKeys} {summary : Summary T} {log : PublishLog}

theorem publishNode_truthful (version : Nat) (node : Node) :
    Ensures (fun _ _ => True) (Truthful keys summary) (publishNode keys summary version node) log
      (fun _ _ => True) := by
  unfold publishNode
  split
  · trivial
  · rename_i t encoded hash hsummary
    split
    · trivial
    · split
      · trivial
      · apply Ensures.perform
        · intro _ _
          exact ⟨node, t, encoded, hash, rfl, hsummary⟩
        · intro r _
          split <;> trivial

theorem publishOnce_truthful (log : PublishLog) : Ensures (fun _ _ => True) (Truthful keys summary)
    (publishOnce keys summary) log (fun _ _ => True) := by
  apply Ensures.perform
  · intro _ _
    trivial
  · intro r _
    split
    · trivial
    · exact publishNode_truthful _ _

def rebooted (keys : AnnotationKeys) (bootID : String) : Node where
  name := "node"
  uid := "uid"
  labels := []
  annotations := [(keys.bootID, bootID ++ "-before")]
  taints := []
  conditions := []
  bootID := bootID

theorem get_rebooted (keys : AnnotationKeys) (bootID : String) :
    get (rebooted keys bootID).annotations keys.bootID ≠ (rebooted keys bootID).bootID := by
  intro h
  have hlen := congrArg String.length h
  simp [rebooted, GoStrings.get] at hlen

theorem publishNode_rebooted (keys : AnnotationKeys) {bootID value hash : String} {t : T}
    (h : summary bootID = .ok (t, value, hash)) :
    ∃ next, publishNode keys summary 0 (rebooted keys bootID) =
      .call (.updateNode 0 (published keys (rebooted keys bootID) value hash)) next := by
  have hnew := get_rebooted keys bootID
  have hboot : (rebooted keys bootID).bootID = bootID := rfl
  simp only [publishNode, hboot, h] at hnew ⊢
  rw [if_neg (fun hc => hnew hc.1), if_neg (fun hc => hnew hc.1)]
  exact ⟨_, rfl⟩

def AnnotationKeys.Apart (keys : AnnotationKeys) : Prop :=
  keys.inventory ≠ keys.hash ∧ keys.inventory ≠ keys.bootID ∧ keys.hash ≠ keys.bootID

theorem stores_iff (retries : Backoff) (hk : keys.Apart) {bootID value hash : String} :
    Stores keys (publishInventory retries keys summary) bootID value hash ↔
      ∃ t, summary bootID = .ok (t, value, hash) := by
  obtain ⟨hih, hib, hhb⟩ := hk
  have hvalue : ∀ node e h, get (published keys node e h).annotations keys.inventory = e := by
    intro node e h
    rw [published, get_set_of_ne _ _ hib, get_set_of_ne _ _ hih, get_set]
  have hhash : ∀ node e h, get (published keys node e h).annotations keys.hash = h := by
    intro node e h
    rw [published, get_set_of_ne _ _ hhb, get_set]
  constructor
  · rintro ⟨log, o, version, node, r, hexec, hmem, hboot, hv, hh⟩
    obtain ⟨t, rfl, hgood, -⟩ := (onError_calls retries publishOnce_truthful).executes hexec
    obtain ⟨s, u, rfl⟩ := List.append_of_mem hmem
    obtain ⟨before, t, encoded, h, rfl, hsummary⟩ := hgood s _ u rfl
    rw [hvalue] at hv
    rw [hhash] at hh
    have hboot : before.bootID = bootID := hboot
    rw [hv, hh, hboot] at hsummary
    exact ⟨t, hsummary⟩
  · rintro ⟨t, hsummary⟩
    obtain ⟨next, hnode⟩ := publishNode_rebooted keys hsummary
    refine ⟨[⟨.getNode, .ok (0, rebooted keys bootID)⟩,
      ⟨.updateNode 0 (published keys (rebooted keys bootID) value hash), .ok ()⟩], none, 0,
      published keys (rebooted keys bootID) value hash, .ok (), ?_, by simp, rfl,
      hvalue _ _ _, hhash _ _ _⟩
    apply executes_onError retries (o := none)
    refine .call (.ok (0, rebooted keys bootID)) trivial ?_
    change Executes _ (publishNode keys summary 0 (rebooted keys bootID)) _ _ _
    rw [hnode]
    exact .call (.ok ()) trivial (.stop _ _)

end HeteroCluster.InventoryPublication
