import HeteroCluster.KeyedRecords
import HeteroCluster.TransactionFiles
import Mathlib

namespace HeteroCluster.TransactionOwners

open CallProgram GoStrings DecimalText KeyedRecords TransactionServer TransactionCreation
open TransactionFiles
open RingModel (initializeRing headerSize minSlotSize maxSlotSize maxStreamLength)

section Requests

/-- The regular expression `^[0-9a-f]{32}$`. -/
def transactionPattern (id : String) : Bool :=
  id.toList.length == 32 &&
    id.toList.all (fun c => '0' ≤ c && c ≤ '9' || 'a' ≤ c && c ≤ 'f')

inductive Method where
  | post
  | delete
  | other

/-- A request for a path below `/v1/transactions`. The body is what the JSON
decoder makes of it. -/
structure HttpRequest where
  method : Method
  parts : List String
  jobHeader : String
  procHeader : String
  body : Except String (List StreamRequest)

def requestIdentity (request : HttpRequest) : Except String (UInt64 × Int) :=
  match parseUint request.jobHeader with
  | none => .error "X-Slurm-Job-Id must be a positive integer"
  | some job =>
    if job = 0 then .error "X-Slurm-Job-Id must be a positive integer"
    else
      match atoi request.procHeader with
      | none => .error "X-Slurm-Proc-Id must be between 0 and 65535"
      | some rank =>
        if rank < 0 ∨ rank > 65535 then .error "X-Slurm-Proc-Id must be between 0 and 65535"
        else .ok (job, rank)

/-- What a request leads to: an error with its status, or a call. -/
inductive Route where
  | refused (status : Nat) (code message : String)
  | create (request : CreateRequest)
  | delete (id : String) (job : UInt64) (rank : Int)

def handleTransaction (request : HttpRequest) : Route :=
  match request.parts with
  | [_, _, id] =>
    if transactionPattern id = false then
      .refused 400 "invalid_transaction" "invalid transaction identifier"
    else
      match requestIdentity request with
      | .error e => .refused 401 "invalid_identity" e
      | .ok (job, rank) =>
        match request.method with
        | .post =>
          match request.body with
          | .error e => .refused 400 "invalid_request" e
          | .ok streams => .create ⟨id, job, rank, streams⟩
        | .delete => .delete id job rank
        | .other => .refused 405 "method_not_allowed" "method not allowed"
  | _ => .refused 400 "invalid_transaction" "invalid transaction identifier"

def transactionStream (s : Maps) (id name : String) (job : UInt64) (rank : Int) :
    Except String Path :=
  match s.transactions.lookup id with
  | none => .error "transaction is not owned by this job and rank"
  | some txn =>
    if txn.jobID ≠ job ∨ txn.rank ≠ rank then
      .error "transaction is not owned by this job and rank"
    else
      let path := (txn.streams.lookup name).getD []
      if path = [] then .error "unknown transaction stream" else .ok path

def Routed (_ : System) : Action → Prop
  | .create request => ∃ http, handleTransaction http = .create request
  | .delete id job rank => ∃ http, handleTransaction http = .delete id job rank
  | _ => True

theorem id_ne_of_routed {http : HttpRequest} {request : CreateRequest}
    (h : handleTransaction http = .create request) : request.id ≠ "" := by
  unfold handleTransaction at h
  split at h
  next id _ =>
    split at h
    · cases h
    next hpattern =>
      rintro hid
      split at h
      · cases h
      · split at h
        · split at h
          · cases h
          · obtain rfl := Route.create.inj h
            dsimp only at hid
            rw [hid] at hpattern
            exact hpattern (by decide)
        · cases h
        · cases h
  · cases h

end Requests

variable {cfg : Config} {s s' s₀ : System} {maps : Maps} {request : CreateRequest}

section Maps

theorem cut_activeKey (job : UInt64) (rank : Int) :
    cut (activeKey job rank) '/' = (toString job, toString rank, true) :=
  cut_append (toString job) (toString rank) '/' (not_mem_toString (by decide) (by decide) job.toNat)

theorem activeKey_inj {job job' : UInt64} {rank rank' : Int} :
    activeKey job rank = activeKey job' rank' ↔ job = job' ∧ rank = rank' := by
  constructor
  · intro h
    have hcut := cut_activeKey job rank
    rw [h, cut_activeKey, Prod.mk.injEq, Prod.mk.injEq] at hcut
    obtain ⟨hjob, hrank, -⟩ := hcut
    exact ⟨UInt64.toNat_inj.mp (Nat.repr_inj.mp hjob.symm), Int.repr_inj.mp hrank.symm⟩
  · rintro ⟨rfl, rfl⟩
    rfl

def ownerKey (txn : Transaction) : String := activeKey txn.jobID txn.rank

/-- The transaction of a job and rank is the one that is active for them. -/
structure Owned (maps : Maps) : Prop where
  indexed : Indexed ownerKey maps.transactions maps.active
  named : ∀ id txn, maps.transactions.lookup id = some txn → id ≠ ""

theorem Owned.register (h : Owned maps) {txn : Transaction} (hjob : txn.jobID = request.job)
    (hrank : txn.rank = request.rank) (hid : request.id ≠ "")
    (hfresh : maps.transactions.lookup request.id = none)
    (hfree : (maps.active.lookup (activeKey request.job request.rank)).getD "" = "") :
    Owned (register maps request txn) := by
  have hkey : activeKey request.job request.rank = ownerKey txn := by rw [ownerKey, hjob, hrank]
  have hnone : maps.active.lookup (ownerKey txn) = none := by
    rw [hkey] at hfree
    cases hactive : maps.active.lookup (ownerKey txn) with
    | none => rfl
    | some id =>
      obtain ⟨other, hother, -⟩ := (h.indexed _ id).mp hactive
      rw [hactive] at hfree
      exact absurd hfree (h.named id other hother)
  constructor
  · rw [TransactionCreation.register, hkey]
    exact h.indexed.insert hfresh hnone
  · intro id other hother
    by_cases hsame : id = request.id
    · rwa [hsame]
    · rw [TransactionCreation.register, AList.lookup_insert_ne hsame] at hother
      exact h.named id other hother

theorem transactionStream_owner {id name : String} {job : UInt64} {rank : Int} {path : Path}
    (h : transactionStream maps id name job rank = .ok path) :
    ∃ txn, maps.transactions.lookup id = some txn ∧ txn.jobID = job ∧ txn.rank = rank := by
  unfold transactionStream at h
  split at h
  · cases h
  next txn hl =>
    split at h
    · cases h
    next howner =>
      push Not at howner
      exact ⟨txn, hl, howner⟩

theorem Owned.delete (h : Owned maps) {id : String} {txn : Transaction}
    (hl : maps.transactions.lookup id = some txn) :
    Owned ⟨maps.transactions.erase id, maps.active.erase (ownerKey txn)⟩ := by
  refine ⟨h.indexed.erase hl, ?_⟩
  intro other txn' hother
  by_cases hsame : other = id
  · subst hsame
    rw [AList.lookup_erase] at hother
    cases hother
  · rw [AList.lookup_erase_ne hsame] at hother
    exact h.named other txn' hother

/-- Ownership between requests, and what the creation under way will make of it. -/
structure Orderly (cfg : Config) (s : System) : Prop where
  owned : Owned s.maps
  next : ∀ creation, s.busy = some creation → ∃ request, request.id ≠ "" ∧
    Ensured cfg s.maps request creation.rest creation.log (Answered cfg s.maps request)

theorem Orderly.step {a : Action} (h : Orderly cfg s) (ha : Routed s a) (hs : Step cfg s a s') :
    Orderly cfg s' := by
  cases hs with
  | create request hb =>
    obtain ⟨http, hroute⟩ := ha
    refine ⟨h.owned, ?_⟩
    rintro creation ⟨⟩
    exact ⟨request, id_ne_of_routed hroute, createTransaction_answered cfg s.maps request⟩
  | @call i next log fs' r hb hserves =>
    refine ⟨h.owned, ?_⟩
    rintro creation ⟨⟩
    obtain ⟨request, hid, he⟩ := h.next _ hb
    exact ⟨request, hid, (he r trivial).2⟩
  | @finish result maps log hb =>
    refine ⟨?_, by rintro creation ⟨⟩⟩
    obtain ⟨request, hid, hpost⟩ := h.next _ hb
    cases hpost with
    | rejected e _ => exact h.owned
    | created _ _ _ hfresh hfree _ => exact h.owned.register rfl rfl hid hfresh hfree
  | @delete id job rank dir maps hb hd =>
    obtain ⟨txn, hl, rfl, rfl, -, rfl⟩ := deleteTransaction_ok hd
    refine ⟨h.owned.delete hl, ?_⟩
    intro creation hc
    exact absurd (hb.symm.trans hc) (by simp)
  | remove | removed => exact ⟨h.owned, h.next⟩

theorem owned_of_reaches (h : Reaches cfg Routed s) : Owned s.maps := by
  have horderly : Orderly cfg s := by
    induction h with
    | start fs => exact ⟨⟨indexed_empty, by simp [System.initial]⟩, by simp [System.initial]⟩
    | step _ ha hs ih => exact ih.step ha hs
  exact horderly.owned

end Maps

section Files

/-- A creation from its request on, while other requests remove their directories. -/
inductive Creating (cfg : Config) (s₀ : System) (request : CreateRequest) : System → Prop
  | start (h : s₀.busy = none) : Creating cfg s₀ request
      { s₀ with busy := some ⟨createTransaction cfg s₀.maps request, []⟩ }
  | step {s s' : System} {a : Action} (h : Creating cfg s₀ request s) (hbusy : s'.busy ≠ none)
      (hs : Step cfg s a s') : Creating cfg s₀ request s'

def NoNewFile (fs fs' : FileSystem) : Prop :=
  ∀ path size, fs' path = some (.file size) → fs path = some (.file size)

theorem noNewFile_of_removed {dir : Path} {fs fs' : FileSystem} (h : Removed dir fs fs') :
    NoNewFile fs fs' := by
  intro path size hfile
  obtain hsame | ⟨-, hnone⟩ := h path
  · rw [← hsame, hfile]
  · rw [hnone] at hfile
    cases hfile

theorem file_of_serves {fs fs' : FileSystem} {log : FileLog} {e : FileEvent} {path : Path} {size : Nat}
    (ho : Own cfg maps request log e) (h : Serves fs e fs') (hfile : fs' path = some (.file size)) :
    fs path = some (.file size) ∨
      (∃ n, e.1 = .newRing path n) ∧ ownDir cfg request <+: path := by
  obtain ⟨i, r⟩ := e
  have hcall := ho.call
  cases i with
  | mkdirAll dir =>
    have hpath : fs' path = fs path ∨ path <+: dir ∧ fs path = none ∧ fs' path = some .directory := by
      cases r with
      | none => exact h.2 path
      | some e => exact h path
    obtain hsame | ⟨-, -, hdir⟩ := hpath
    · exact .inl (hsame ▸ hfile)
    · rw [hdir] at hfile
      cases hfile
  | newRing ring n =>
    obtain ⟨⟨name, rfl⟩, rfl⟩ := hcall
    by_cases hpath : path = ringPath (ownDir cfg request) name
    · rw [hpath]
      exact .inr ⟨⟨_, rfl⟩, List.prefix_append _ _⟩
    · refine .inl ?_
      cases r with
      | none =>
        obtain ⟨-, -, rfl⟩ := h
        rwa [Function.update_of_ne hpath] at hfile
      | some e =>
        obtain rfl | ⟨-, n, rfl⟩ := h
        · exact hfile
        · rwa [Function.update_of_ne hpath] at hfile
  | removeAll dir =>
    cases r with
    | none => exact .inl (noNewFile_of_removed h.1 path size hfile)
    | some e => exact .inl (noNewFile_of_removed h path size hfile)

/-- How far a creation has come, seen from the state it began in. -/
structure Progress (cfg : Config) (s₀ : System) (request : CreateRequest) (s : System)
    (creation : Creation) : Prop where
  maps : s.maps = s₀.maps
  ensures : Ensured cfg s₀.maps request creation.rest creation.log (Answered cfg s₀.maps request)
  outside : ∀ path size, s.fs path = some (.file size) →
    s₀.fs path = some (.file size) ∨ ownDir cfg request <+: path
  unmade : (∀ e ∈ creation.log, ∀ path size, e.1 ≠ .newRing path size) → NoNewFile s₀.fs s.fs
  cleared : ∀ before, creation.log = before ++ [⟨.removeAll (ownDir cfg request), none⟩] →
    ∀ path, ownDir cfg request <+: path → s.fs path = none

theorem Progress.call {i : FileCall} {next : FileReply i → FileProgram _} {log : FileLog}
    {r : FileReply i} {fs' : FileSystem} {busy : Option Creation}
    (h : Progress cfg s₀ request s ⟨.call i next, log⟩) (hs : Serves s.fs ⟨i, r⟩ fs') :
    Progress cfg s₀ request { s with fs := fs', busy := busy } ⟨next r, log ++ [⟨i, r⟩]⟩ := by
  obtain ⟨hown, hnext⟩ := h.ensures r trivial
  refine ⟨h.maps, hnext, ?_, ?_, ?_⟩
  · intro path size hfile
    obtain hold | ⟨-, hin⟩ := file_of_serves hown hs hfile
    · exact h.outside path size hold
    · exact .inr hin
  · intro hunmade path size hfile
    rw [List.forall_mem_append] at hunmade
    obtain hold | ⟨⟨n, hn⟩, -⟩ := file_of_serves hown hs hfile
    · exact h.unmade hunmade.1 path size hold
    · exact absurd hn (hunmade.2 _ (List.mem_singleton_self _) path n)
  · intro before hlog path hpath
    obtain ⟨-, hlast⟩ := List.append_inj' hlog rfl
    cases List.singleton_inj.mp hlast
    exact hs.2 path hpath

theorem Progress.removed {creation : Creation} {dir : Path} {fs' : FileSystem}
    (h : Progress cfg s₀ request s creation) (hr : Removed dir s.fs fs') :
    Progress cfg s₀ request { s with fs := fs' } creation := by
  have hold := noNewFile_of_removed hr
  refine ⟨h.maps, h.ensures, ?_, ?_, ?_⟩
  · intro path size hfile
    exact h.outside path size (hold path size hfile)
  · intro hunmade path size hfile
    exact h.unmade hunmade path size (hold path size hfile)
  · intro before hlog path hpath
    obtain hsame | ⟨-, hnone⟩ := hr path
    · exact hsame.trans (h.cleared before hlog path hpath)
    · exact hnone

theorem progress_of_creating (h : Creating cfg s₀ request s) :
    ∃ creation, s.busy = some creation ∧ Progress cfg s₀ request s creation := by
  induction h with
  | start hb =>
    refine ⟨_, rfl, rfl, createTransaction_answered cfg s₀.maps request, ?_, ?_, ?_⟩
    · intro path size hfile
      exact .inl hfile
    · intro _ path size hfile
      exact hfile
    · intro before hlog
      simp at hlog
  | step _ hbusy hs ih =>
    obtain ⟨creation, hc, hprogress⟩ := ih
    cases hs with
    | create request hb => exact absurd (hb.symm.trans hc) (by simp)
    | call r hb hserves =>
      obtain rfl := Option.some.inj (hc.symm.trans hb)
      exact ⟨_, rfl, hprogress.call hserves⟩
    | finish => exact absurd rfl hbusy
    | delete hb => exact absurd (hb.symm.trans hc) (by simp)
    | remove _ hr => exact ⟨creation, hc, hprogress.removed hr⟩
    | removed =>
      exact ⟨creation, hc, hprogress.maps, hprogress.ensures, hprogress.outside, hprogress.unmade,
        hprogress.cleared⟩

def RemovalsDone (log : FileLog) : Prop :=
  ∀ dir r, (⟨.removeAll dir, r⟩ : FileEvent) ∈ log → r = none

theorem Progress.abandoned {creation : Creation} (h : Progress cfg s₀ request s creation)
    (ha : Abandoned cfg request creation.log) (hdone : RemovalsDone creation.log) :
    NoNewFile s₀.fs s.fs := by
  obtain hunmade | ⟨before, r, hlog⟩ := ha
  · exact h.unmade hunmade
  · obtain rfl : r = none := hdone (ownDir cfg request) r (by simp [hlog])
    intro path size hfile
    obtain hold | hin := h.outside path size hfile
    · exact hold
    · rw [h.cleared before hlog path hin] at hfile
      cases hfile

end Files

section Results

/-- Each job and rank has the one transaction that is active for it, and each key of
the active ones is that of a job and rank. -/
def InBijection (maps : Maps) : Prop :=
  (∀ job rank id, maps.active.lookup (activeKey job rank) = some id ↔
    ∃ txn, maps.transactions.lookup id = some txn ∧ txn.jobID = job ∧ txn.rank = rank) ∧
  (∀ key id, maps.active.lookup key = some id → ∃ job rank, key = activeKey job rank) ∧
  ∀ id id' txn txn', maps.transactions.lookup id = some txn →
    maps.transactions.lookup id' = some txn' → txn.jobID = txn'.jobID → txn.rank = txn'.rank →
    id = id'

/-- A request that is rejected changes no map, and leaves no file behind unless the
directory could not be removed. -/
def RejectionLeavesNothing (cfg : Config) (s : System) : Prop :=
  ∀ request s' e maps log, Creating cfg s request s' →
    s'.busy = some ⟨.done (.error e, maps), log⟩ →
    maps = s.maps ∧ s'.maps = s.maps ∧ (RemovalsDone log → NoNewFile s.fs s'.fs)

def OwnersOnly (maps : Maps) : Prop :=
  (∀ id job rank r, deleteTransaction maps id job rank = .ok r →
    ∃ txn, maps.transactions.lookup id = some txn ∧ txn.jobID = job ∧ txn.rank = rank) ∧
  ∀ id name job rank path, transactionStream maps id name job rank = .ok path →
    ∃ txn, maps.transactions.lookup id = some txn ∧ txn.jobID = job ∧ txn.rank = rank

/-- The answer's ring files, made with whole pages in their slots, fit in the budget. -/
structure FitsBudget (cfg : Config) (response : CreateResponse) (log : FileLog) : Prop where
  pages : response.slotBytes.toNat % 4096 = 0
  ge : 1 <<< 20 ≤ response.slotBytes.toNat
  le : response.slotBytes.toNat ≤ 16 <<< 20
  made : ∀ stream ∈ response.streams, (⟨.newRing stream.2
    (headerSize + response.slots * response.slotBytes.toNat), none⟩ : FileEvent) ∈ log
  fits : response.streams.length * (headerSize + response.slots * response.slotBytes.toNat) ≤
    cfg.budget.toNat

def AcceptedFits (cfg : Config) (s : System) : Prop :=
  ∀ request s' response maps log, Creating cfg s request s' →
    s'.busy = some ⟨.done (.ok response, maps), log⟩ → FitsBudget cfg response log

/-- `ring.Initialize` finds nothing wrong with the bounds of a stream it is asked for. -/
def BoundsAccepted (cfg : Config) : Prop :=
  ∀ (streams : Nat) (total : UInt64), Ample cfg streams → 1 ≤ total.toNat →
    total.toNat ≤ maxStreamLength →
    ∃ ring, initializeRing defaultSlots (slotBytes cfg streams).toNat total.toNat = .ok ring

theorem inBijection_of_owned (h : Owned maps) : InBijection maps := by
  refine ⟨?_, ?_, ?_⟩
  · intro job rank id
    rw [h.indexed]
    simp only [ownerKey, activeKey_inj]
  · intro key id hactive
    obtain ⟨txn, -, rfl⟩ := (h.indexed key id).mp hactive
    exact ⟨txn.jobID, txn.rank, rfl⟩
  · intro id id' txn txn' hid hid' hjob hrank
    exact h.indexed.unique hid hid' (by rw [ownerKey, ownerKey, hjob, hrank])

theorem rejectionLeavesNothing (cfg : Config) (s : System) : RejectionLeavesNothing cfg s := by
  intro request s' e maps log hcreating hbusy
  obtain ⟨creation, hc, hprogress⟩ := progress_of_creating hcreating
  obtain rfl := Option.some.inj (hc.symm.trans hbusy)
  cases hprogress.ensures with
  | rejected _ habandoned => exact ⟨rfl, hprogress.maps, hprogress.abandoned habandoned⟩

theorem ownersOnly (maps : Maps) : OwnersOnly maps := by
  constructor
  · intro id job rank r h
    obtain ⟨txn, hl, hjob, hrank, -⟩ := deleteTransaction_ok h
    exact ⟨txn, hl, hjob, hrank⟩
  · intro id name job rank path h
    exact transactionStream_owner h

theorem slotBytes_pages {streams : Nat} (h : Ample cfg streams) :
    (slotBytes cfg streams).toNat % 4096 = 0 := by
  have hheader : headerSize ≤ (perStream cfg streams).toNat := by
    unfold Ample at h
    omega
  rw [slotBytes_toNat hheader]
  exact Nat.mul_mod_left _ _

theorem streams_fit {streams : Nat} (hcount : 1 ≤ streams ∧ streams ≤ 2) (h : Ample cfg streams) :
    streams * ringSize cfg streams ≤ cfg.budget.toNat := by
  have hsize : UInt64.size = 2 ^ 64 := rfl
  have hsmall : (UInt64.ofNat streams).toNat = streams := UInt64.toNat_ofNat_of_lt' (by omega)
  have hshare : (perStream cfg streams).toNat = cfg.budget.toNat / streams := by
    rw [perStream, UInt64.toNat_div, hsmall]
  calc streams * ringSize cfg streams ≤ streams * (perStream cfg streams).toNat :=
        Nat.mul_le_mul_left _ (slotBytes_bounds h).2.2
    _ = streams * (cfg.budget.toNat / streams) := by rw [hshare]
    _ ≤ cfg.budget.toNat := Nat.mul_div_le _ _

theorem acceptedFits (cfg : Config) (s : System) : AcceptedFits cfg s := by
  intro request s' response maps log hcreating hbusy
  obtain ⟨creation, hc, hprogress⟩ := progress_of_creating hcreating
  obtain rfl := Option.some.inj (hc.symm.trans hbusy)
  cases hprogress.ensures with
  | created hopened hlen hcount _ _ hample =>
    obtain ⟨hmin, hmax, -⟩ := slotBytes_bounds hample
    refine ⟨slotBytes_pages hample, hmin, hmax, hopened.ring, ?_⟩
    rw [hlen] at hcount ⊢
    exact streams_fit hcount hample

theorem boundsAccepted (cfg : Config) : BoundsAccepted cfg := by
  intro streams total hample hpos hle
  obtain ⟨hmin, hmax, -⟩ := slotBytes_bounds hample
  exact initializeRing_ok (by decide) ⟨hmin, hmax⟩ ⟨hpos, hle⟩

end Results

/-- Transactions and their owners, whatever requests came before: the maps agree,
rejected requests leave nothing, only the owner has access, and the rings fit. -/
theorem transactions_owned (cfg : Config) (s : System) (h : Reaches cfg Routed s) :
    InBijection s.maps ∧ RejectionLeavesNothing cfg s ∧ OwnersOnly s.maps ∧ AcceptedFits cfg s ∧
      BoundsAccepted cfg :=
  ⟨inBijection_of_owned (owned_of_reaches h), rejectionLeavesNothing cfg s, ownersOnly s.maps,
    acceptedFits cfg s, boundsAccepted cfg⟩

def sampleID : String := "0123456789abcdef0123456789abcdef"

def sampleRequest : HttpRequest where
  method := .post
  parts := ["v1", "transactions", sampleID]
  jobHeader := "1"
  procHeader := "0"
  body := .ok [⟨"a", 1⟩]

theorem sampleRequest_routed : handleTransaction sampleRequest = .create (oneByte sampleID 1 "a") := by
  have hpattern : ¬ transactionPattern sampleID = false := by decide +kernel
  have hidentity : requestIdentity sampleRequest = .ok (1, 0) := by decide +kernel
  unfold handleTransaction
  rw [hidentity]
  exact if_neg hpattern

def sampleServer : System :=
  { System.initial (fun _ => none) with
    maps := register ⟨∅, ∅⟩ (oneByte sampleID 1 "a")
      (oneStream defaultConfig (oneByte sampleID 1 "a") ⟨"a", 1⟩)
    fs := madeRing defaultConfig (fun _ => none) (oneByte sampleID 1 "a") ⟨"a", 1⟩ }

theorem sampleServer_reaches : Reaches defaultConfig Routed sampleServer := by
  refine (creatable_oneByte sampleID 1 (by decide +kernel) rfl rfl).reaches (.start _) rfl
    (fun _ _ => .inl rfl) rfl ⟨sampleRequest, sampleRequest_routed⟩ ?_
  intro s a _ ha
  unfold Routed
  split
  · exact ha.elim
  · exact ha.elim
  · trivial

theorem transactions_owned_sample :
    ∃ txn, sampleServer.maps.transactions.lookup sampleID = some txn ∧ txn.jobID = 1 ∧ txn.rank = 0 :=
  ((transactions_owned defaultConfig sampleServer sampleServer_reaches).1.1 1 0 sampleID).mp
    (AList.lookup_insert _)

end HeteroCluster.TransactionOwners
