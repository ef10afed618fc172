import HeteroCluster.ServerRequests

namespace HeteroCluster.ServerIsolation

open GoStrings CallProgram ProgramEmbedding Interleaving CheckpointManifest CheckpointCodec
open ObjectStore StoreAccess CheckpointServer ServerRequests
open TransactionServer (Config Maps Path CreateRequest ringPath directory)
open TransactionCreation (createTransaction_answered)
open TransactionFiles (deleteTransaction_ok)
open TransactionOwners (transactionStream)
open CommitProtocol (Fact streamPattern)

section Maps

variable {cfg : Config} {maps maps' : Maps} {id name : String} {job : UInt64} {rank : Int}

/-- The rings of a transaction are in the directory of its job and rank. -/
def Placed (cfg : Config) (maps : Maps) : Prop :=
  ∀ id txn, maps.transactions.lookup id = some txn →
    ∀ stream ∈ txn.streams, stream.2 = ringPath (directory cfg txn.jobID txn.rank id) stream.1

theorem Placed.create {request : CreateRequest} {log : TransactionServer.FileLog}
    {r : Except String TransactionServer.CreateResponse} (h : Placed cfg maps)
    (he : Executes (fun _ _ => True) (TransactionServer.createTransaction cfg maps request) [] log
      (some (r, maps'))) : Placed cfg maps' := by
  have hanswer := (createTransaction_answered cfg maps request).result he
  cases hanswer with
  | rejected e _ => exact h
  | created hopened _ _ _ _ _ =>
    intro id txn hl stream hs
    by_cases hid : id = request.id
    · subst hid
      rw [TransactionCreation.register, AList.lookup_insert] at hl
      obtain rfl := Option.some.inj hl
      exact hopened.path stream hs
    · rw [TransactionCreation.register, AList.lookup_insert_ne hid] at hl
      exact h id txn hl stream hs

theorem Placed.delete {dir : Path} (h : Placed cfg maps)
    (hd : TransactionServer.deleteTransaction maps id job rank = .ok (dir, maps')) :
    Placed cfg maps' := by
  obtain ⟨txn, -, -, -, -, rfl⟩ := deleteTransaction_ok hd
  intro other txn' hl
  by_cases hid : other = id
  · subst hid
    rw [AList.lookup_erase] at hl
    cases hl
  · rw [AList.lookup_erase_ne hid] at hl
    exact h other txn' hl

theorem Placed.stream {path : Path} (h : Placed cfg maps)
    (hs : transactionStream maps id name job rank = .ok path) :
    path = ringPath (directory cfg job rank id) name := by
  unfold transactionStream at hs
  split at hs
  · cases hs
  next txn hl =>
    split at hs
    · cases hs
    next howner =>
      push Not at howner
      obtain ⟨rfl, rfl⟩ := howner
      dsimp only at hs
      split at hs
      · cases hs
      next hne =>
        obtain rfl := Except.ok.inj hs
        cases hfind : txn.streams.lookup name with
        | none => exact absurd (by rw [hfind]; rfl) hne
        | some path =>
          obtain ⟨before, after, hstreams, -⟩ := List.lookup_eq_some_iff.mp hfind
          exact h id txn hl (name, path) (by simp [hstreams])

end Maps

section Calls

variable {cfg : Config} {s s' : Server} {e : ServerEvent}

def Claim (run : String) (job : UInt64) : ServerEvent := ⟨.claimRun run job, .ok ()⟩

/-- What a call does to the server: it takes a run that is free or its own, it is
a call on the store, or it does neither and keeps the rings in their places. -/
inductive Does (cfg : Config) (s : Server) (e : ServerEvent) : Server → Prop
  | claims {run : String} {job : UInt64} (he : e = Claim run job)
      (hfree : s.runOwners run = 0 ∨ s.runOwners run = job) :
      Does cfg s e { s with runOwners := Function.update s.runOwners run job }
  | stores {e₀ : StoreEvent} {objects : Store String Bytes} (he : storeCalls.back e = some e₀)
      (hs : ObjectStore.Serves s.objects e₀ objects) : Does cfg s e { s with objects := objects }
  | other {maps : Maps} (he : storeCalls.back e = none) (hn : ∀ run job, e ≠ Claim run job)
      (hp : Placed cfg s.maps → Placed cfg maps) : Does cfg s e { s with maps := maps }

theorem serves_does (h : CheckpointServer.Serves cfg s e s') : Does cfg s e s' := by
  have nothing : storeCalls.back e = none → (∀ run job, e ≠ Claim run job) → s' = s →
      Does cfg s e s' := by
    rintro he hn rfl
    exact .other he hn id
  obtain ⟨c, r⟩ := e
  cases c with
  | claimRun run job =>
    have hclaim : (r, s') = claimRun s run job := h
    unfold claimRun at hclaim
    split at hclaim
    · obtain ⟨rfl, rfl⟩ := Prod.mk.inj hclaim
      exact nothing rfl nofun rfl
    next hfree =>
      obtain ⟨rfl, rfl⟩ := Prod.mk.inj hclaim
      exact .claims rfl (by tauto)
  | create request =>
    obtain ⟨maps, log, rfl, hx⟩ := h
    exact .other rfl nofun (fun hp => hp.create hx)
  | delete id job rank =>
    dsimp only [CheckpointServer.Serves] at h
    split at h
    · exact nothing rfl nofun h.2
    next dir maps hd =>
      subst h
      exact .other rfl nofun (fun hp => hp.delete hd)
  | stream id name job rank => exact nothing rfl nofun h.2
  | openRing | writeRing | list => exact nothing rfl nofun h
  | store c =>
    obtain ⟨objects, rfl, hs⟩ := h
    exact .stores rfl hs

theorem Does.extends (h : Does cfg s e s') : Extends s.objects s'.objects := by
  cases h with
  | claims | other => exact Extends.refl _
  | stores he hs => exact hs.extends

theorem Does.owner {run : String} {job : UInt64}
    (h : Does cfg s e s') (howner : s.runOwners run = job) (hne : job ≠ 0) :
    s'.runOwners run = job := by
  cases h with
  | stores | other => exact howner
  | @claims run' job' he hfree =>
    by_cases hrun : run = run'
    · subst hrun
      obtain hzero | hsame := hfree
      · exact absurd (howner.symm.trans hzero) hne
      · exact (Function.update_self ..).trans (hsame.symm.trans howner)
    · exact (Function.update_of_ne hrun ..).trans howner

theorem Does.claimed {run : String} {job : UInt64}
    (h : Does cfg s (Claim run job) s') : s'.runOwners run = job := by
  cases h with
  | stores he hs => cases he
  | other he hn hp => exact absurd rfl (hn run job)
  | claims he hfree =>
    cases he
    exact Function.update_self ..

end Calls

section Runs

variable {κ ω : Type} [DecidableEq κ] [DecidableEq ω] {cfg : ω → Config} {codec : Codec}
variable {host : κ → ω} {requests : κ → HttpRequest} {s s' : Cluster ω} {server : Server}
variable {logs : κ → ServerLog} {k : κ} {e : ServerEvent}

/-- A request that has claimed its run has written the object, and had not seen
it before. -/
def Written (codec : Codec) (requests : κ → HttpRequest) (logs : κ → ServerLog) (key : String)
    (content : Bytes) : Prop :=
  ∃ k job rank before, before ⊆ logs k ∧ Claims (requests k) before job rank ∧
    Writes codec (requests k) rank before key content ∧
    ∀ info, (⟨.stat key, .ok info⟩ : StoreEvent) ∉ storeCalls.log before

structure Sound (cfg : ω → Config) (codec : Codec) (host : κ → ω) (requests : κ → HttpRequest)
    (s : Cluster ω) (logs : κ → ServerLog) : Prop where
  facts : ∀ k, ∀ e ∈ storeCalls.log (logs k), Fact e s.objects
  owners : ∀ k run job, Claim run job ∈ logs k → s.runOwners (host k) run = job ∧ job ≠ 0
  placed : ∀ w, Placed (cfg w) (s.maps w)
  streams : ∀ k id name job rank path, (⟨.stream id name job rank, .ok path⟩ : ServerEvent) ∈ logs k →
    path = ringPath (directory (cfg (host k)) job rank id) name
  written : ∀ key content, s.objects key = some content → Written codec requests logs key content

omit [DecidableEq ω] in
theorem subset_update (logs : κ → ServerLog) (k j : κ) (e : ServerEvent) :
    logs j ⊆ Function.update logs k (logs k ++ [e]) j :=
  fun _ hx => mem_update_snoc.mpr (.inl hx)

omit [DecidableEq ω] in
theorem Sound.facts_call (h : Sound cfg codec host requests s logs)
    (hs : Does (cfg (host k)) (s.server (host k)) e server) (j : κ) :
    ∀ f ∈ storeCalls.log (Function.update logs k (logs k ++ [e]) j), Fact f server.objects := by
  intro f hf
  obtain ⟨f', hf', hback⟩ := storeCalls.mem_log.mp hf
  obtain hold | ⟨-, rfl⟩ := mem_update_snoc.mp hf'
  · exact (h.facts j f (storeCalls.mem_log.mpr ⟨f', hold, hback⟩)).mono hs.extends
  · cases hs with
    | claims he hfree =>
      subst he
      cases hback
    | stores he hs₀ =>
      obtain rfl := Option.some.inj (hback.symm.trans he)
      exact CommitProtocol.Serves.fact hs₀
    | other he hn hp =>
      rw [he] at hback
      cases hback

theorem Sound.owners_call (h : Sound cfg codec host requests s logs)
    (hg : Permitted codec (requests k) (logs k) e)
    (hs : Does (cfg (host k)) (s.server (host k)) e server) (j : κ) (run : String) (job : UInt64)
    (hm : Claim run job ∈ Function.update logs k (logs k ++ [e]) j) :
    (s.update (host k) server).runOwners (host j) run = job ∧ job ≠ 0 := by
  obtain hold | ⟨rfl, rfl⟩ := mem_update_snoc.mp hm
  · obtain ⟨howner, hne⟩ := h.owners j run job hold
    refine ⟨?_, hne⟩
    dsimp only [Cluster.update]
    by_cases hw : host j = host k
    · rw [hw, Function.update_self]
      exact hs.owner (by rw [← howner, hw]; rfl) hne
    · rw [Function.update_of_ne hw]
      exact howner
  · dsimp only [Cluster.update]
    rw [Function.update_self]
    exact ⟨hs.claimed, hg.2⟩

omit [DecidableEq κ] in
theorem Sound.placed_call (h : Sound cfg codec host requests s logs)
    (hs : Does (cfg (host k)) (s.server (host k)) e server) (w : ω) :
    Placed (cfg w) ((s.update (host k) server).maps w) := by
  dsimp only [Cluster.update]
  by_cases hw : w = host k
  · subst hw
    rw [Function.update_self]
    cases hs with
    | claims | stores => exact h.placed _
    | other he hn hp => exact hp (h.placed _)
  · rw [Function.update_of_ne hw]
    exact h.placed w

omit [DecidableEq ω] in
theorem Sound.written_call (h : Sound cfg codec host requests s logs)
    (hg : Permitted codec (requests k) (logs k) e)
    (hs : Does (cfg (host k)) (s.server (host k)) e server) {key : String} {content : Bytes}
    (hc : server.objects key = some content) :
    Written codec requests (Function.update logs k (logs k ++ [e])) key content := by
  have hold : s.objects key = some content →
      Written codec requests (Function.update logs k (logs k ++ [e])) key content := by
    intro hc
    obtain ⟨j, job, rank, before, hsub, hrest⟩ := h.written key content hc
    exact ⟨j, job, rank, before, List.Subset.trans hsub (subset_update logs k j e), hrest⟩
  cases hs with
  | claims | other => exact hold hc
  | stores hback hs₀ =>
    obtain hsame | ⟨key', body, r, rfl, hnone, hinsert⟩ := hs₀.cases_put
    · exact hold (by rw [← hc, hsame]; rfl)
    · dsimp only at hc
      by_cases hkey : key = key'
      · subst hkey
        rw [hinsert, insert_self] at hc
        obtain rfl := Option.some.inj hc
        obtain ⟨c, r'⟩ := e
        cases c with
        | store c =>
          cases hback
          obtain ⟨job, rank, hclaims, hwrites⟩ := hg
          refine ⟨k, job, rank, logs k, subset_update logs k k _, hclaims, hwrites, ?_⟩
          intro info hstat
          obtain ⟨content, hsome, -⟩ := h.facts k _ hstat
          cases hnone.symm.trans hsome
        | _ => cases hback
      · rw [hinsert, insert_of_ne _ _ hkey] at hc
        exact hold hc

theorem Sound.call (h : Sound cfg codec host requests s logs)
    (hg : Permitted codec (requests k) (logs k) e)
    (hs : CheckpointServer.Serves (cfg (host k)) (s.server (host k)) e server) :
    Sound cfg codec host requests (s.update (host k) server)
      (Function.update logs k (logs k ++ [e])) where
  facts := h.facts_call (serves_does hs)
  owners := h.owners_call hg (serves_does hs)
  placed := h.placed_call (serves_does hs)
  streams := by
    intro j id name job rank path hm
    obtain hold | ⟨rfl, rfl⟩ := mem_update_snoc.mp hm
    · exact h.streams j id name job rank path hold
    · exact (h.placed (host j)).stream hs.1.symm
  written := fun key content hc => h.written_call hg (serves_does hs) hc

omit [DecidableEq κ] [DecidableEq ω] in
theorem sound_initial : Sound cfg codec host requests (Cluster.initial ω) (fun _ => []) where
  facts := by simp [Embedding.log]
  owners := by simp [Claim]
  placed := by simp [Placed, Cluster.initial]
  streams := by simp
  written := by simp [Cluster.initial]

variable {t : κ → Thread (@ClusterReply ω) Response}

/-- A call of a process that is permitted after what it has seen. -/
def Sent (codec : Codec) (w : ω) (http : HttpRequest) (log : ClusterLog ω) (e : ClusterEvent ω) :
    Prop :=
  ∃ e₀, (callsOf w).back e = some e₀ ∧ Permitted codec http ((callsOf w).log log) e₀

theorem clusterRequest_keeps (codec : Codec) (w : ω) (http : HttpRequest) :
    Ensures (fun _ _ => True) (Sent codec w http) (clusterRequest codec w http) []
      (fun response log => Answered codec http response ((callsOf w).log log)) :=
  ((callsOf w).ensures_program (serveHTTP_keeps codec http) (fun _ _ _ _ _ => trivial)
    fun _ _ e₀ _ hback hg => ⟨e₀, hback, hg⟩).mono fun _ _ hpost => hpost.2

/-- The log of a request, as the process it was sent to saw it. -/
def seen (host : κ → ω) (t : κ → Thread (@ClusterReply ω) Response) (k : κ) : ServerLog :=
  (callsOf (host k)).log (t k).log

theorem callsOf_back {w : ω} {e : ClusterEvent ω} {e₀ : ServerEvent}
    (h : (callsOf w).back e = some e₀) : e.1.1 = w ∧ e₀ = ⟨e.1.2, e.2⟩ := by
  have h : (if e.1.1 = w then some (⟨e.1.2, e.2⟩ : ServerEvent) else none) = some e₀ := h
  split at h
  next hw => exact ⟨hw, (Option.some.inj h).symm⟩
  · cases h

abbrev Runs (cfg : ω → Config) (codec : Codec) (host : κ → ω) (requests : κ → HttpRequest)
    (s : Cluster ω) (t : κ → Thread (@ClusterReply ω) Response) : Prop :=
  Reach (ClusterServes cfg) (fun _ _ => False) (Cluster.initial ω)
    (fun k => clusterRequest codec (host k) (requests k)) s t

theorem sound_of_runs (h : Runs cfg codec host requests s t) :
    Sound cfg codec host requests s (seen host t) := by
  apply h.invariant (fun k => clusterRequest_keeps codec (host k) (requests k))
    (fun s logs => Sound cfg codec host requests s (fun k => (callsOf (host k)).log (logs k)))
  · exact sound_initial
  · exact fun _ _ _ _ hno => hno.elim
  · rintro s s' logs k e hI ⟨e₀, hback, hg⟩ ⟨server, hs, rfl⟩
    obtain ⟨hw, rfl⟩ := callsOf_back hback
    rw [hw] at hs ⊢
    have hlogs : (fun j => (callsOf (host j)).log (Function.update logs k (logs k ++ [e]) j)) =
        Function.update (fun j => (callsOf (host j)).log (logs j)) k
          ((callsOf (host k)).log (logs k) ++ [⟨e.1.2, e.2⟩]) := by
      funext j
      by_cases hj : j = k
      · subst hj
        rw [Function.update_self, Function.update_self, Embedding.log_snoc _ _ hback]
      · rw [Function.update_of_ne hj, Function.update_of_ne hj]
    rw [hlogs]
    exact hI.call hg hs

theorem permitted_of_runs (h : Runs cfg codec host requests s t) {k : κ} {e : ServerEvent}
    (he : e ∈ seen host t k) :
    ∃ before, before ⊆ seen host t k ∧ Permitted codec (requests k) before e := by
  obtain ⟨e', he', hback⟩ := (callsOf (host k)).mem_log.mp he
  obtain ⟨before, after, hlog⟩ := List.append_of_mem he'
  obtain ⟨e₀, hback₀, hg⟩ := h.good (fun k => clusterRequest_keeps codec (host k) (requests k)) k hlog
  obtain rfl := Option.some.inj (hback.symm.trans hback₀)
  refine ⟨_, (callsOf (host k)).log_subset ?_, hg⟩
  rw [hlog]
  exact List.subset_append_left before _

end Runs

section Sample

variable {ω : Type} [DecidableEq ω]

open CommitProtocol (reliable reliable_serves sampleCodec sampleManifest)
open TransactionServer (createTransaction deleteTransaction FileReply FileLog FileCall)
open TransactionCreation (defaultConfig)

/-- A ring that holds one byte, which its name tells. -/
def ringAt (path : Path) : OpenedRing :=
  if path.getLast? = some "w.ring" then ⟨1, ⟨[7], none⟩⟩
  else if path.getLast? = some "o.ring" then ⟨1, ⟨[1], none⟩⟩
  else ⟨1, ⟨[2], none⟩⟩

def noFailure (_ : FileLog) (i : FileCall) : FileReply i := none

def reliableServer (cfg : Config) (s : Server) : (c : ServerCall) → ServerReply c × Server
  | .claimRun run job => claimRun s run job
  | .create request =>
    let r := (serve noFailure (fun l i => l ++ [⟨i, noFailure l i⟩])
      (createTransaction cfg s.maps request) []).1
    (r.1, { s with maps := r.2 })
  | .delete id job rank =>
    match deleteTransaction s.maps id job rank with
    | .error e => (.error e, s)
    | .ok (_, maps) => (.ok (), { s with maps := maps })
  | .stream id name job rank => (transactionStream s.maps id name job rank, s)
  | .openRing path _ => (.ok (ringAt path), s)
  | .writeRing _ _ => (.ok (), s)
  | .list _ => (⟨[], none⟩, s)
  | .store c => ((reliable s.objects c).1, { s with objects := (reliable s.objects c).2 })

theorem reliableServer_serves (cfg : Config) (s : Server) (c : ServerCall) :
    CheckpointServer.Serves cfg s ⟨c, (reliableServer cfg s c).1⟩ (reliableServer cfg s c).2 := by
  cases c with
  | claimRun run job => exact rfl
  | create request =>
    exact ⟨_, _, rfl, serve_executes (fun _ _ => trivial) (createTransaction cfg s.maps request) []⟩
  | delete id job rank =>
    dsimp only [CheckpointServer.Serves, reliableServer]
    cases deleteTransaction s.maps id job rank with
    | error e => exact ⟨rfl, rfl⟩
    | ok r => rfl
  | stream id name job rank => exact ⟨rfl, rfl⟩
  | openRing | writeRing | list => exact rfl
  | store c => exact ⟨_, rfl, reliable_serves s.objects c⟩

def reliableCluster (cfg : ω → Config) (s : Cluster ω) (c : ω × ServerCall) :
    ClusterReply c × Cluster ω :=
  ((reliableServer (cfg c.1) (s.server c.1) c.2).1,
    s.update c.1 (reliableServer (cfg c.1) (s.server c.1) c.2).2)

def sampleID : String := "0123456789abcdef0123456789abcdef"

def sampleParts : Fin 7 → List String
  | 0 => ["v1", "transactions", sampleID]
  | 1 => ["v1", "checkpoints", "run", "7", "chunks", "w.0"]
  | 2 => ["v1", "checkpoints", "run", "7", "chunks", "optimizer_metadata"]
  | 3 => ["v1", "transactions", sampleID]
  | 4 => ["v1", "checkpoints", "run", "7", "chunks", "rng_0"]
  | 5 => ["v1", "checkpoints", "run", "7", "commit"]
  | 6 => ["v1", "checkpoints", "run", "7", "chunks", "w.0"]

def sampleRequest (k : Fin 7) (method : Method) (proc stream storagePath : String) :
    HttpRequest where
  method := method
  path := "/" ++ String.intercalate "/" (sampleParts k)
  jobHeader := "1"
  procHeader := proc
  transaction := sampleID
  stream := stream
  storagePath := storagePath
  compatibility := .error ""
  beforeStep := ""
  streams := if proc = "0" then .ok [⟨"w", 1⟩, ⟨"o", 1⟩] else .ok [⟨"r", 1⟩]
  body := ⟨[42], none⟩

/-- Two ranks of a job save a checkpoint, each through the flusher of its worker, and
the second one reads an object of the first. -/
def sampleRequests : Fin 7 → HttpRequest
  | 0 => sampleRequest 0 .post "0" "" ""
  | 1 => sampleRequest 1 .put "0" "w" "w.bin"
  | 2 => sampleRequest 2 .put "0" "o" "optimizer_state.json"
  | 3 => sampleRequest 3 .post "1" "" ""
  | 4 => sampleRequest 4 .put "1" "r" "rng/0.bin"
  | 5 => sampleRequest 5 .post "0" "" ""
  | 6 => sampleRequest 6 .get "1" "r" ""

def sampleHost (k : Fin 7) : Bool := k = 3 || k = 4 || k = 6

theorem pathParts_sampleRequests (k : Fin 7) : pathParts (sampleRequests k) = sampleParts k := by
  revert k
  decide +kernel

def sampleRun : Cluster Bool × (Fin 7 → Thread (@ClusterReply Bool) Response) :=
  play (reliableCluster fun _ => defaultConfig) (Cluster.initial Bool)
    (fun k => (callsOf (sampleHost k)).program (route sampleCodec (sampleRequests k) (sampleParts k)))
    ([(0, 1), (1, 5), (2, 5), (3, 1), (4, 5), (5, 14), (6, 7)].flatMap fun m =>
      List.replicate m.2 (.inl m.1))

theorem sampleRun_runs : Runs (fun _ => defaultConfig) sampleCodec sampleHost sampleRequests
    sampleRun.1 sampleRun.2 := by
  have hprograms : (fun k => clusterRequest sampleCodec (sampleHost k) (sampleRequests k)) =
      fun k => (callsOf (sampleHost k)).program
        (route sampleCodec (sampleRequests k) (sampleParts k)) := by
    funext k
    rw [clusterRequest, serveHTTP, pathParts_sampleRequests]
  unfold Runs
  rw [hprograms]
  apply play_reach
  · intro s c
    exact ⟨_, reliableServer_serves _ _ _, rfl⟩
  · intro f hf
    simp at hf

end Sample

section Results

open TransactionCreation (defaultConfig)

variable {κ ω : Type} [DecidableEq κ] [DecidableEq ω] {cfg : ω → Config} {codec : Codec}
variable {host : κ → ω} {requests : κ → HttpRequest} {s : Cluster ω}
variable {t : κ → Thread (@ClusterReply ω) Response} {k k' : κ}

def keyOf : StoreCall → Option String
  | .stat key => some key
  | .get key _ => some key
  | .put key _ _ => some key
  | .now => none
  | .order _ => none

/-- A request has looked at a key or written to it. -/
def Touches (log : ServerLog) (key : String) : Prop :=
  ∃ c r, (⟨.store c, r⟩ : ServerEvent) ∈ log ∧ keyOf c = some key

def Opens (log : ServerLog) (path : Path) : Prop :=
  ∃ producer r, (⟨.openRing path producer, r⟩ : ServerEvent) ∈ log

theorem inRun_of_within {run key : String} {writes : String → Bytes → Prop} {c : StoreCall}
    (h : Within (InRun run) writes c) (hw : ∀ key body, writes key body → InRun run key)
    (hk : keyOf c = some key) : InRun run key := by
  cases c with
  | stat | get =>
    cases hk
    exact h
  | put _ _ body =>
    cases hk
    exact hw key body h
  | now | order => cases hk

theorem Writes.inRun {request : HttpRequest} {rank : Int} {log : ServerLog} {key : String}
    {body : Bytes} (h : Writes codec request rank log key body) : InRun (runOf request) key := by
  cases h with
  | upload | manifest => exact ⟨_, .inr ⟨_, rfl⟩⟩
  | marker => exact ⟨_, .inl rfl⟩

/-- A request that touches a key belongs to the job that owns the run of the key. -/
theorem owner_of_touches (h : Runs cfg codec host requests s t) {key : String}
    (hk : Touches (seen host t k) key) : ∃ job rank, identity (requests k) = .ok (job, rank) ∧
      streamPattern (runOf (requests k)) = true ∧ InRun (runOf (requests k)) key ∧
      s.runOwners (host k) (runOf (requests k)) = job := by
  obtain ⟨c, r, hm, hkey⟩ := hk
  obtain ⟨before, hsub, job, rank, hclaims, hwithin⟩ := permitted_of_runs h hm
  exact ⟨job, rank, hclaims.sender, hclaims.valid,
    inRun_of_within hwithin (fun _ _ hw => Writes.inRun hw) hkey,
    ((sound_of_runs h).owners k _ job (hsub hclaims.claimed)).1⟩

theorem place_of_opens (h : Runs cfg codec host requests s t) {path : Path}
    (hp : Opens (seen host t k) path) : ∃ name job rank, identity (requests k) = .ok (job, rank) ∧
      path = ringPath (directory (cfg (host k)) job rank (requests k).transaction) name := by
  obtain ⟨producer, r, hm⟩ := hp
  obtain ⟨before, hsub, name, job, rank, hi, hstream⟩ := permitted_of_runs h hm
  exact ⟨name, job, rank, hi, (sound_of_runs h).streams k _ name job rank path (hsub hstream)⟩

theorem ringPath_inj {cfg : Config} {job job' : UInt64} {rank rank' : Int} {id id' name name' : String}
    (h : ringPath (directory cfg job rank id) name = ringPath (directory cfg job' rank' id') name') :
    job = job' ∧ rank = rank' := by
  simp only [ringPath, directory, List.cons_append, List.nil_append, List.cons.injEq, true_and] at h
  exact ⟨UInt64.toNat_inj.mp (Nat.repr_inj.mp h.1), Int.repr_inj.mp h.2.1⟩

/-- In every interleaving of requests to a flusher, those that touch a key of the
bucket belong to one job, and those that open a ring to one job and rank. -/
theorem requests_isolated (h : Runs cfg codec host requests s t) (hw : host k = host k') :
    (∀ key, Touches (seen host t k) key → Touches (seen host t k') key → ∃ job rank rank',
      identity (requests k) = .ok (job, rank) ∧ identity (requests k') = .ok (job, rank')) ∧
    ∀ path, Opens (seen host t k) path → Opens (seen host t k') path → ∃ job rank,
      identity (requests k) = .ok (job, rank) ∧ identity (requests k') = .ok (job, rank) := by
  constructor
  · intro key hk hk'
    obtain ⟨job, rank, hi, hv, hin, howner⟩ := owner_of_touches h hk
    obtain ⟨job', rank', hi', hv', hin', howner'⟩ := owner_of_touches h hk'
    rw [← hw, ← hin.unique hv hv' hin', howner] at howner'
    subst howner'
    exact ⟨job, rank, rank', hi, hi'⟩
  · intro path hp hp'
    obtain ⟨name, job, rank, hi, hpath⟩ := place_of_opens h hp
    obtain ⟨name', job', rank', hi', hpath'⟩ := place_of_opens h hp'
    rw [hpath, ← hw] at hpath'
    obtain ⟨rfl, rfl⟩ := ringPath_inj hpath'
    exact ⟨job, rank, hi, hi'⟩

def touched : ServerEvent → Option String
  | ⟨.store c, _⟩ => keyOf c
  | _ => none

def opened : ServerEvent → Option Path
  | ⟨.openRing path _, _⟩ => some path
  | _ => none

theorem touches_of_any {log : ServerLog} {key : String}
    (h : log.any (fun e => touched e == some key) = true) : Touches log key := by
  obtain ⟨⟨c, r⟩, he, hk⟩ := List.any_eq_true.mp h
  cases c with
  | store c => exact ⟨c, r, he, eq_of_beq hk⟩
  | _ => cases hk

theorem opens_of_any {log : ServerLog} {path : Path}
    (h : log.any (fun e => opened e == some path) = true) : Opens log path := by
  obtain ⟨⟨c, r⟩, he, hp⟩ := List.any_eq_true.mp h
  cases c with
  | openRing p producer =>
    obtain rfl : p = path := Option.some.inj (eq_of_beq hp)
    exact ⟨producer, r, he⟩
  | _ => cases hp

def weightsKey : String := ObjectKeys.objectKey "run" 7 "w.bin"

def restoreRing : Path := ringPath (directory defaultConfig 1 1 sampleID) "r"

theorem sampleRun_uses :
    (∀ k ∈ [(1 : Fin 7), 5], (seen sampleHost sampleRun.2 k).any
      (fun e => touched e == some weightsKey) = true) ∧
    ∀ k ∈ [(4 : Fin 7), 6], (seen sampleHost sampleRun.2 k).any
      (fun e => opened e == some restoreRing) = true := by
  decide +kernel

/-- The upload of the weights and the commit look at one key, and the second rank
saves and restores through one ring. -/
theorem requests_isolated_sampleRun :
    (Touches (seen sampleHost sampleRun.2 1) weightsKey ∧
      Touches (seen sampleHost sampleRun.2 5) weightsKey ∧
      ∃ job rank rank', identity (sampleRequests 1) = .ok (job, rank) ∧
        identity (sampleRequests 5) = .ok (job, rank')) ∧
    Opens (seen sampleHost sampleRun.2 4) restoreRing ∧
      Opens (seen sampleHost sampleRun.2 6) restoreRing ∧
      ∃ job rank, identity (sampleRequests 4) = .ok (job, rank) ∧
        identity (sampleRequests 6) = .ok (job, rank) := by
  obtain ⟨hkeys, hrings⟩ := sampleRun_uses
  have hupload := touches_of_any (hkeys 1 (by simp))
  have hcommit := touches_of_any (hkeys 5 (by simp))
  have hsave := opens_of_any (hrings 4 (by simp))
  have hrestore := opens_of_any (hrings 6 (by simp))
  exact ⟨⟨hupload, hcommit, (requests_isolated sampleRun_runs (by decide)).1 _ hupload hcommit⟩,
    hsave, hrestore, (requests_isolated sampleRun_runs (by decide)).2 _ hsave hrestore⟩

end Results

end HeteroCluster.ServerIsolation
