import HeteroCluster.CommitProtocol
import HeteroCluster.ProgramEmbedding
import HeteroCluster.TransactionOwners

namespace HeteroCluster.CheckpointServer

open GoStrings CallProgram ProgramEmbedding CheckpointManifest CheckpointCodec ObjectKeys
open ObjectStore
open TransactionServer (Config Maps Path CreateRequest CreateResponse StreamRequest
  createTransaction deleteTransaction)
open TransactionOwners (requestIdentity transactionStream handleTransaction Route)
open CommitProtocol (streamPattern)

inductive Method where
  | get
  | put
  | post
  | delete
  | other
  deriving DecidableEq

/-- A request with the headers the server looks at. The compatibility header
and the body of a transaction are given as the JSON decoder finds them. -/
structure HttpRequest where
  method : Method
  path : String
  jobHeader : String
  procHeader : String
  transaction : String
  stream : String
  storagePath : String
  compatibility : Except String Compatibility
  beforeStep : String
  streams : Except String (List StreamRequest)
  body : Source

def HttpRequest.forTransaction (request : HttpRequest) (parts : List String) :
    TransactionOwners.HttpRequest where
  method := match request.method with
    | .post => .post
    | .delete => .delete
    | _ => .other
  parts := parts
  jobHeader := request.jobHeader
  procHeader := request.procHeader
  body := request.streams

inductive Body where
  | error (code : String) (message : FlushError)
  | created (r : CreateResponse)
  | deleted
  | latest (r : LatestResult)
  | receipt (r : Receipt)
  | marker (m : CommitMarker)

structure Response where
  status : Nat
  body : Body

/-- An opened ring: the length in its header and, for a reader, what it yields. -/
structure OpenedRing where
  total : UInt64
  source : Source

/-- What a request does outside its own code: sections under the mutex of the
server, rings in shared memory, and the object store. -/
inductive ServerCall where
  | claimRun (run : String) (job : UInt64)
  | create (request : CreateRequest)
  | delete (id : String) (job : UInt64) (rank : Int)
  | stream (id name : String) (job : UInt64) (rank : Int)
  | openRing (path : Path) (producer : Bool)
  | writeRing (path : Path) (data : Bytes)
  | list (run : String)
  | store (c : StoreCall)

/-- A write that fails tells how many bytes the ring had taken. -/
abbrev ServerReply : ServerCall → Type
  | .claimRun _ _ => Except String Unit
  | .create _ => Except String CreateResponse
  | .delete _ _ _ => Except String Unit
  | .stream _ _ _ _ => Except String Path
  | .openRing _ _ => Except String OpenedRing
  | .writeRing _ _ => Except (Nat × String) Unit
  | .list _ => Listing
  | .store c => StoreReply c

abbrev Handler := Program ServerReply
abbrev ServerEvent := Event ServerReply
abbrev ServerLog := Log ServerReply

abbrev ask (c : ServerCall) : Handler (ServerReply c) := Program.perform c

def storeCalls : Embedding StoreReply ServerReply where
  call := .store
  reply _ r := r
  back
    | ⟨.store c, r⟩ => some ⟨c, r⟩
    | _ => none
  back_call _ _ := rfl

abbrev onStore {α : Type} (p : Flusher α) : Handler α := storeCalls.program p

def writeError (status : Nat) (code : String) (message : FlushError) : Response :=
  ⟨status, .error code message⟩

def restore (codec : Codec) (run : String) (step : UInt64) (object : Object) (target : Path) :
    Handler (Except FlushError Receipt) := do
  match ← ask (.store (.get (objectKey run step object.path)
      (some (object.offset, object.length)))) with
  | .error e => return .error (.response e)
  | .ok content =>
    -- The bytes go to the ring and into the hash as they arrive.
    let data := content.take object.length.toNat
    match ← ask (.writeRing target data) with
    | .error (n, e) =>
      return .error (.text ("restore " ++ quote object.id ++ ": copied " ++ toString n ++
        " bytes: " ++ e))
    | .ok () =>
      if data.length ≠ object.length.toNat then
        return .error (.text ("restore " ++ quote object.id ++ ": copied " ++ toString data.length ++
          " bytes: EOF"))
      else if codec.sha256 data ≠ object.sha256 then
        return .error (.text ("restore " ++ quote object.id ++ " hash mismatch"))
      else return .ok ⟨object.path, object.length, codec.sha256 data, ""⟩

/-- What `strconv.ParseUint` finds wrong first, reading from the left. -/
def parseUintProblem : List Char → Nat → String
  | [], _ => "invalid syntax"
  | c :: rest, n =>
    if c.isDigit = false then "invalid syntax"
    else if 2 ^ 64 ≤ n * 10 + (c.toNat - '0'.toNat) then "value out of range"
    else parseUintProblem rest (n * 10 + (c.toNat - '0'.toNat))

def handleLatest (codec : Codec) (request : HttpRequest) (run : String) : Handler Response :=
  match request.compatibility with
  | .error e => return writeError 400 "invalid_compatibility" (.text e)
  | .ok compatibility =>
    if request.beforeStep ≠ "" ∧ parseUint request.beforeStep = none then
      return writeError 400 "invalid_before_step"
        (.text ("strconv.ParseUint: parsing " ++ quote request.beforeStep ++ ": " ++
          parseUintProblem request.beforeStep.toList 0))
    else do
      let listing ← ask (.list run)
      match ← onStore (latest codec listing run compatibility (parseUint request.beforeStep)) with
      | .error e => return writeError 404 "checkpoint_not_found" e
      | .ok result => return ⟨200, .latest result⟩

/-- The object is sent from the ring of the transaction to the store. -/
def putChunk (codec : Codec) (request : HttpRequest) (run : String) (step : UInt64) (path : Path) :
    Handler Response :=
  if validStoragePath request.storagePath = false then
    return writeError 400 "invalid_storage_path" (.text "invalid storage path")
  else do
    match ← ask (.openRing path false) with
    | .error e => return writeError 400 "invalid_ring" (.text e)
    | .ok ring =>
      match ← onStore (upload codec run step request.storagePath ring.source ring.total) with
      | .error e => return writeError 409 "upload_failed" e
      | .ok receipt => return ⟨200, .receipt receipt⟩

/-- An object of a committed checkpoint is sent to the ring of the transaction. -/
def getChunk (codec : Codec) (run : String) (step : UInt64) (id : String) (path : Path) :
    Handler Response := do
  match ← onStore (loadCommitted codec run step) with
  | .error e => return writeError 404 "checkpoint_not_found" e
  | .ok committed =>
    match committed.manifest.object id with
    | .error e => return writeError 403 "object_not_authorized" (.text e)
    | .ok object =>
      if object.length = 0 then
        return writeError 400 "empty_object" (.text "zero-length objects do not use rings")
      else
        match ← ask (.openRing path true) with
        | .error e => return writeError 400 "invalid_ring" (.text e)
        | .ok ring =>
          if ring.total ≠ object.length then
            return writeError 400 "invalid_ring" (.text "ring length does not match object")
          else
            match ← restore codec run step object path with
            | .error e => return writeError 422 "restore_failed" e
            | .ok receipt => return ⟨200, .receipt receipt⟩

def handleChunk (codec : Codec) (request : HttpRequest) (run : String) (step : UInt64) (id : String)
    (job : UInt64) (rank : Int) : Handler Response := do
  match ← ask (.stream request.transaction request.stream job rank) with
  | .error e => return writeError 400 "invalid_transaction" (.text e)
  | .ok path =>
    match request.method with
    | .put => putChunk codec request run step path
    | .get => getChunk codec run step id path
    | _ => return writeError 405 "method_not_allowed" (.text "method not allowed")

def cpuCoordinator (manifest : Manifest) : Bool :=
  manifest.world.ranks.any (fun worldRank => worldRank.rank == 0 && worldRank.hardware == "cpu")

/-- The manifest in the body of a commit, read up to its limit. -/
def commitManifest (codec : Codec) (body : Source) (run : String) (step : UInt64) :
    Except String Manifest :=
  if body.err.isSome ∨ body.data.length > maxManifestBytes then
    .error "manifest exceeds the bounded request size"
  else
    match decodeManifest codec body.data with
    | .error e => .error e
    | .ok manifest =>
      if manifest.runID ≠ run ∨ manifest.globalStep ≠ step ∨ cpuCoordinator manifest = false then
        .error "manifest route identity or CPU coordinator mismatch"
      else .ok manifest

def handleCommit (codec : Codec) (request : HttpRequest) (run : String) (step : UInt64)
    (job : UInt64) (rank : Int) : Handler Response :=
  if rank ≠ 0 then return writeError 403 "rank_zero_required" (.text "only rank zero may commit")
  else
    match commitManifest codec request.body run step with
    | .error e => return writeError 400 "invalid_manifest" (.text e)
    | .ok manifest => do
      match ← onStore (commit codec request.body.data manifest job) with
      | .error e => return writeError 409 "commit_rejected" e
      | .ok marker => return ⟨200, .marker marker⟩

def handleRun (codec : Codec) (request : HttpRequest) (parts : List String) (run : String)
    (job : UInt64) (rank : Int) : Handler Response :=
  if parts.length = 4 ∧ parts.getD 3 "" = "latest" ∧ request.method = .get then
    handleLatest codec request run
  else if parts.length ≠ 5 ∧ parts.length ≠ 6 then
    return writeError 404 "not_found" (.text "unknown checkpoint endpoint")
  else
    match parseUint (parts.getD 3 "") with
    | none => return writeError 400 "invalid_step" (.text "step must be a non-negative integer")
    | some step =>
      if parts.length = 6 ∧ parts.getD 4 "" = "chunks" ∧ streamPattern (parts.getD 5 "") = true then
        handleChunk codec request run step (parts.getD 5 "") job rank
      else if parts.length = 5 ∧ parts.getD 4 "" = "commit" ∧ request.method = .post then
        handleCommit codec request run step job rank
      else return writeError 404 "not_found" (.text "unknown checkpoint endpoint")

def identity (request : HttpRequest) : Except String (UInt64 × Int) :=
  requestIdentity (request.forTransaction [])

def handleCheckpoint (codec : Codec) (request : HttpRequest) (parts : List String) :
    Handler Response :=
  match identity request with
  | .error e => return writeError 401 "invalid_identity" (.text e)
  | .ok (job, rank) =>
    let run := parts.getD 2 ""
    if streamPattern run = false then
      return writeError 400 "invalid_run" (.text "invalid run identifier")
    else do
      match ← ask (.claimRun run job) with
      | .error e => return writeError 403 "run_owner_mismatch" (.text e)
      | .ok () => handleRun codec request parts run job rank

def serveTransaction (request : HttpRequest) (parts : List String) : Handler Response :=
  match handleTransaction (request.forTransaction parts) with
  | .refused status code message => return writeError status code (.text message)
  | .create create => do
    match ← ask (.create create) with
    | .error e => return writeError 409 "transaction_rejected" (.text e)
    | .ok result => return ⟨201, .created result⟩
  | .delete id job rank => do
    match ← ask (.delete id job rank) with
    | .error e => return writeError 404 "transaction_not_found" (.text e)
    | .ok () => return ⟨200, .deleted⟩

/-- `strings.Trim` of the slashes of a path. -/
def trimSlashes (s : String) : String :=
  String.ofList ((s.toList.dropWhile (· == '/')).reverse.dropWhile (· == '/')).reverse

@[irreducible] def pathParts (request : HttpRequest) : List String :=
  split (trimSlashes request.path) '/'

def route (codec : Codec) (request : HttpRequest) (parts : List String) : Handler Response :=
  if 3 ≤ parts.length ∧ parts.getD 0 "" = "v1" ∧ parts.getD 1 "" = "transactions" then
    serveTransaction request parts
  else if 4 ≤ parts.length ∧ parts.getD 0 "" = "v1" ∧ parts.getD 1 "" = "checkpoints" then
    handleCheckpoint codec request parts
  else return writeError 404 "not_found" (.text "unknown endpoint")

def serveHTTP (codec : Codec) (request : HttpRequest) : Handler Response :=
  route codec request (pathParts request)

section Server

/-- What a flusher process works on: its own maps, and the objects in the bucket
it shares with the others. An absent owner is the zero of the map. -/
structure Server where
  maps : Maps
  runOwners : String → UInt64
  objects : Store String Bytes

def claimRun (s : Server) (run : String) (job : UInt64) : Except String Unit × Server :=
  if s.runOwners run ≠ 0 ∧ s.runOwners run ≠ job then
    (.error ("run is owned by job " ++ toString (s.runOwners run)), s)
  else (.ok (), { s with runOwners := Function.update s.runOwners run job })

/-- What a call does. Files and rings are outside: they answer in any way. -/
def Serves (cfg : Config) (s : Server) : ServerEvent → Server → Prop
  | ⟨.claimRun run job, r⟩, s' => (r, s') = claimRun s run job
  | ⟨.create request, r⟩, s' => ∃ maps log, s' = { s with maps := maps } ∧
      Executes (fun _ _ => True) (createTransaction cfg s.maps request) [] log (some (r, maps))
  | ⟨.delete id job rank, r⟩, s' =>
      match deleteTransaction s.maps id job rank with
      | .error e => r = .error e ∧ s' = s
      | .ok (_, maps) => s' = { s with maps := maps }
  | ⟨.stream id name job rank, r⟩, s' => r = transactionStream s.maps id name job rank ∧ s' = s
  | ⟨.openRing _ _, _⟩, s' => s' = s
  | ⟨.writeRing _ _, _⟩, s' => s' = s
  | ⟨.list _, _⟩, s' => s' = s
  | ⟨.store c, r⟩, s' => ∃ objects, s' = { s with objects := objects } ∧
      ObjectStore.Serves s.objects ⟨c, r⟩ objects

end Server

section Cluster

variable {ω : Type} [DecidableEq ω]

/-- The flushers of the workers, one process each, with the bucket they share. A
process that is started again is another one. -/
structure Cluster (ω : Type) where
  maps : ω → Maps
  runOwners : ω → String → UInt64
  objects : Store String Bytes

def Cluster.initial (ω : Type) : Cluster ω := ⟨fun _ => ⟨∅, ∅⟩, fun _ _ => 0, fun _ => none⟩

def Cluster.server (s : Cluster ω) (w : ω) : Server := ⟨s.maps w, s.runOwners w, s.objects⟩

def Cluster.update (s : Cluster ω) (w : ω) (server : Server) : Cluster ω :=
  ⟨Function.update s.maps w server.maps, Function.update s.runOwners w server.runOwners,
    server.objects⟩

abbrev ClusterReply (c : ω × ServerCall) : Type := ServerReply c.2

abbrev ClusterEvent (ω : Type) := Event (@ClusterReply ω)
abbrev ClusterLog (ω : Type) := Log (@ClusterReply ω)

def ClusterServes (cfg : ω → Config) (s : Cluster ω) (e : ClusterEvent ω) (s' : Cluster ω) : Prop :=
  ∃ server, Serves (cfg e.1.1) (s.server e.1.1) ⟨e.1.2, e.2⟩ server ∧ s' = s.update e.1.1 server

def callsOf (w : ω) : Embedding ServerReply (@ClusterReply ω) where
  call c := (w, c)
  reply _ r := r
  back e := if e.1.1 = w then some ⟨e.1.2, e.2⟩ else none
  back_call _ _ := if_pos rfl

def clusterRequest (codec : Codec) (w : ω) (http : HttpRequest) :
    Program (@ClusterReply ω) Response :=
  (callsOf w).program (serveHTTP codec http)

end Cluster

end HeteroCluster.CheckpointServer
