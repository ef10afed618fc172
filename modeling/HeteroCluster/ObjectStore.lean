import HeteroCluster.CallProgram
import HeteroCluster.CheckpointCodec
import HeteroCluster.ObjectKeys

namespace HeteroCluster.ObjectStore

open GoStrings CallProgram CheckpointManifest CheckpointCodec ObjectKeys

section WriteOnce

variable {κ β : Type}

abbrev Store (κ β : Type) := κ → Option β

def Extends (s s' : Store κ β) : Prop := ∀ k b, s k = some b → s' k = some b

variable {s s' s'' : Store κ β} {k : κ}

theorem Extends.refl (s : Store κ β) : Extends s s := fun _ _ h => h

theorem Extends.trans (h : Extends s s') (h' : Extends s' s'') : Extends s s'' :=
  fun k b hk => h' k b (h k b hk)

variable [DecidableEq κ]

def insert (s : Store κ β) (k : κ) (b : β) : Store κ β := Function.update s k (some b)

@[simp] theorem insert_self (s : Store κ β) (k : κ) (b : β) : insert s k b k = some b :=
  Function.update_self ..

theorem insert_of_ne {j : κ} (s : Store κ β) (b : β) (h : j ≠ k) : insert s k b j = s j :=
  Function.update_of_ne h ..

theorem insert_extends (h : s k = none) (b : β) : Extends s (insert s k b) := by
  intro j c hj
  by_cases hjk : j = k
  · rw [hjk, h] at hj
    cases hj
  · rw [insert_of_ne s b hjk]
    exact hj

end WriteOnce

/-- What `minio.ToErrorResponse` makes of an error. -/
structure ErrorResponse where
  code : String
  statusCode : Int
  message : String

structure ObjectInfo where
  size : Nat
  etag : String

/-- A failed put, with the number of bytes the client had taken from the body. -/
structure PutFailure where
  response : ErrorResponse
  consumed : Nat

inductive FlushError where
  | response (r : ErrorResponse)
  | text (message : String)
  | wrapped (message : String) (cause : FlushError)

/-- The operations of a flusher on the object store. Every put is conditional
on the key being absent. Ranging over the maps of a manifest lists its objects
in some order. -/
inductive StoreCall where
  | stat (key : String)
  | get (key : String) (range : Option (UInt64 × UInt64))
  | put (key : String) (size : Nat) (body : Bytes)
  | now
  | order (objects : List Object)

abbrev StoreReply : StoreCall → Type
  | .stat _ => Except ErrorResponse ObjectInfo
  | .get _ _ => Except ErrorResponse Bytes
  | .put _ _ _ => Except PutFailure String
  | .now => String
  | .order objects => { order : List Object // order.Perm objects }

abbrev Flusher := Program StoreReply
abbrev StoreEvent := Event StoreReply
abbrev StoreLog := Log StoreReply

abbrev ask (c : StoreCall) : Flusher (StoreReply c) := Program.perform c

structure Receipt where
  storagePath : String
  byteLength : UInt64
  sha256 : String
  etag : String

/-- What a reader yields before its end, and the error it ends with, if any. -/
structure Source where
  data : Bytes
  err : Option String

def notFound (e : ErrorResponse) : Bool :=
  e.code == "NoSuchKey" || e.code == "NoSuchObject" || e.statusCode == 404

def preconditionFailed (e : ErrorResponse) : Bool :=
  e.code == "PreconditionFailed" || e.statusCode == 412

/-- `strings.Trim` of the double quotes of an ETag. -/
def trimQuotes (s : String) : String :=
  let isQuote := fun c : Char => c.toNat == 34
  String.ofList ((s.toList.dropWhile isQuote).reverse.dropWhile isQuote).reverse

def readBounded (key : String) (limit : Nat) : Flusher (Except FlushError Bytes) := do
  match ← ask (.get key none) with
  | .error e => return .error (.response e)
  | .ok content =>
    let data := content.take (limit + 1)
    if data.length > limit then
      return .error (.text ("object " ++ quote key ++ " exceeds " ++ toString limit ++ " bytes"))
    else return .ok data

def readArtifact (run : String) (step : UInt64) (artifact : Artifact) :
    Flusher (Except FlushError Bytes) := do
  if artifact.byteLength.toNat > maxOptimizerMetadataBytes then
    return .error (.text "artifact is too large")
  else
    let key := objectKey run step artifact.storagePath
    match ← readBounded key artifact.byteLength.toNat with
    | .error e => return .error e
    | .ok data =>
      if data.length ≠ artifact.byteLength.toNat then
        return .error (.text ("object " ++ quote key ++ " length mismatch"))
      else return .ok data

def putImmutable (key : String) (data : Bytes) : Flusher (Option FlushError) := do
  match ← ask (.stat key) with
  | .ok _ =>
    match ← readBounded key data.length with
    | .ok existing =>
      if existing = data then return none
      else return some (.text ("immutable object " ++ quote key ++ " conflicts"))
    | .error _ => return some (.text ("immutable object " ++ quote key ++ " conflicts"))
  | .error e =>
    if notFound e = false then return some (.response e)
    else
      match ← ask (.put key data.length data) with
      | .ok _ => return none
      | .error failure =>
        if preconditionFailed failure.response then
          match ← readBounded key data.length with
          | .ok existing =>
            if existing = data then return none else return some (.response failure.response)
          | .error _ => return some (.response failure.response)
        else return some (.response failure.response)

section Codec

variable (codec : Codec)

def putImmutableMarker (key : String) (data : Bytes) (marker : CommitMarker) :
    Flusher (Option FlushError) := do
  match ← putImmutable key data with
  | none => return none
  | some e =>
    match ← readBounded key (64 <<< 10) with
    | .error _ => return some (.wrapped "create commit marker" e)
    | .ok existing =>
      match codec.decodeMarkerJSON existing with
      | .error _ => return some (.wrapped "commit marker conflicts" e)
      | .ok old =>
        if old.checkpointVersion = marker.checkpointVersion ∧ old.globalStep = marker.globalStep ∧
            old.manifestSHA256 = marker.manifestSHA256 then return none
        else return some (.wrapped "commit marker conflicts" e)

def hashRange (key : String) (offset length : UInt64) : Flusher (Except FlushError String) := do
  if length = 0 then return .error (.text "cannot hash an empty object range")
  else
    match ← ask (.get key (some (offset, length))) with
    | .error e => return .error (.response e)
    | .ok content =>
      let data := content.take length.toNat
      if data.length ≠ length.toNat then
        return .error (.text ("hash object " ++ quote key ++ ": copied " ++ toString data.length ++
          " of " ++ toString length ++ " bytes: EOF"))
      else return .ok (codec.sha256 data)

def verifyObject (run : String) (step : UInt64) (object : Object) : Flusher (Option FlushError) := do
  let key := objectKey run step object.path
  match ← ask (.stat key) with
  | .error e => return some (.wrapped ("stat " ++ quote object.path) (.response e))
  | .ok info =>
    if object.offset.toNat > info.size ∨ object.length.toNat > info.size - object.offset.toNat then
      return some (.text ("object " ++ quote object.path ++ " byte range exceeds stored length"))
    else
      match ← hashRange codec key object.offset object.length with
      | .error e => return some e
      | .ok digest =>
        if digest ≠ object.sha256 then
          return some (.text ("object " ++ quote object.path ++ " hash mismatch"))
        else return none

def verifyObjects (run : String) (step : UInt64) : List Object → Flusher (Option FlushError)
  | [] => return none
  | object :: rest => do
    match ← verifyObject codec run step object with
    | some e => return some e
    | none => verifyObjects run step rest

def compareExistingHash (key : String) (info : ObjectInfo) (storagePath : String) (size : UInt64)
    (wantedHash : String) : Flusher (Except FlushError Receipt) := do
  if info.size ≠ size.toNat then
    return .error (.text ("immutable object " ++ quote storagePath ++
      " already exists with a different length"))
  else
    match ← hashRange codec key 0 size with
    | .error e => return .error e
    | .ok actual =>
      if actual ≠ wantedHash then
        return .error (.text ("immutable object " ++ quote storagePath ++
          " already exists with different bytes"))
      else return .ok ⟨storagePath, size, wantedHash, trimQuotes info.etag⟩

def compareExisting (key : String) (info : ObjectInfo) (storagePath : String) (source : Source)
    (size : UInt64) : Flusher (Except FlushError Receipt) :=
  if source.err.isSome ∨ source.data.length ≠ size.toNat then
    return .error (.text ("read retry body: copied " ++ toString source.data.length ++ " of " ++
      toString size ++ " bytes: " ++ source.err.getD "%!w(<nil>)"))
  else compareExistingHash codec key info storagePath size (codec.sha256 source.data)

/-- The client takes at most `size` bytes from the source. When it is refused
it has hashed only those it took. -/
def upload (run : String) (step : UInt64) (storagePath : String) (source : Source)
    (size : UInt64) : Flusher (Except FlushError Receipt) := do
  let key := objectKey run step storagePath
  match ← ask (.stat key) with
  | .ok existing => compareExisting codec key existing storagePath source size
  | .error e =>
    if notFound e = false then return .error (.wrapped "stat immutable object" (.response e))
    else
      let body := source.data.take size.toNat
      match ← ask (.put key size.toNat body) with
      | .ok etag => return .ok ⟨storagePath, size, codec.sha256 body, trimQuotes etag⟩
      | .error failure =>
        let failed := FlushError.wrapped "upload immutable object" (.response failure.response)
        if preconditionFailed failure.response then
          match ← ask (.stat key) with
          | .ok existing =>
            compareExistingHash codec key existing storagePath size
              (codec.sha256 (body.take failure.consumed))
          | .error _ => return .error failed
        else return .error failed

def commit (data : Bytes) (manifest : Manifest) (jobID : UInt64) :
    Flusher (Except FlushError CommitMarker) := do
  match ← readArtifact manifest.runID manifest.globalStep manifest.state.optimizerMetadata with
  | .error e => return .error (.wrapped "optimizer metadata" e)
  | .ok optimizer =>
    match decodeOptimizerState codec optimizer manifest with
    | .error e => return .error (.text e)
    | .ok _ =>
      let objects ← ask (.order manifest.objects)
      match ← verifyObjects codec manifest.runID manifest.globalStep objects.val with
      | some e => return .error e
      | none =>
        match ← putImmutable (objectKey manifest.runID manifest.globalStep "manifest.json") data with
        | some e => return .error (.wrapped "store manifest" e)
        | none =>
          let committedAt ← ask .now
          let marker : CommitMarker :=
            ⟨version, manifest.globalStep, codec.sha256 data, committedAt, jobID⟩
          match ← putImmutableMarker codec (markerKey manifest.runID manifest.globalStep)
              (codec.marshalMarker marker) marker with
          | some e => return .error e
          | none => return .ok marker

structure LatestResult where
  marker : CommitMarker
  manifest : Manifest

/-- The checks on the bytes of a marker. Both RFC 3339 layouts of the time
package accept the same texts. -/
def checkMarker (step : UInt64) (data : Bytes) : Except FlushError CommitMarker :=
  match codec.decodeMarkerJSON data with
  | .error _ => .error (.text "invalid commit marker")
  | .ok marker =>
    if marker.checkpointVersion ≠ version ∨ marker.globalStep ≠ step ∨
        marker.manifestSHA256.utf8ByteSize ≠ 64 then .error (.text "invalid commit marker")
    else
      match codec.parseTime marker.committedAt with
      | .error _ => .error (.text "invalid commit timestamp")
      | .ok () => .ok marker

def checkManifest (run : String) (step : UInt64) (marker : CommitMarker) (data : Bytes) :
    Except FlushError Manifest :=
  if codec.sha256 data ≠ marker.manifestSHA256 then
    .error (.text "manifest hash does not match commit marker")
  else
    match decodeManifest codec data with
    | .error _ => .error (.text "manifest route identity mismatch")
    | .ok manifest =>
      if manifest.runID ≠ run ∨ manifest.globalStep ≠ step then
        .error (.text "manifest route identity mismatch")
      else .ok manifest

def loadCommitted (run : String) (step : UInt64) : Flusher (Except FlushError LatestResult) := do
  match ← readBounded (markerKey run step) (64 <<< 10) with
  | .error e => return .error e
  | .ok markerBytes =>
    match checkMarker codec step markerBytes with
    | .error e => return .error e
    | .ok marker =>
      match ← readBounded (objectKey run step "manifest.json") maxManifestBytes with
      | .error e => return .error e
      | .ok manifestBytes =>
        match checkManifest codec run step marker manifestBytes with
        | .error e => return .error e
        | .ok manifest => return .ok ⟨marker, manifest⟩

def scanSteps (run : String) (want : Compatibility) :
    List UInt64 → Flusher (Except FlushError LatestResult)
  | [] => return .error (.text "no compatible committed checkpoint")
  | step :: steps => do
    match ← loadCommitted codec run step with
    | .error _ => scanSteps run want steps
    | .ok result =>
      match result.manifest.compatible want with
      | .error _ => scanSteps run want steps
      | .ok () =>
        let objects ← ask (.order result.manifest.objects)
        match ← verifyObjects codec run step objects.val with
        | some _ => scanSteps run want steps
        | none => return .ok result

end Codec

/-- The keys that `ListObjects` yields, and the error it ends with, if any. -/
structure Listing where
  keys : List String
  err : Option ErrorResponse

def markedStep (start key : String) : Option UInt64 :=
  ((cutPrefix key (start ++ "step_")).bind (fun name => cutSuffix name ".complete")).bind parseUint

def listedStep (start : String) (before : Option UInt64) (key : String) : Option UInt64 :=
  (markedStep start key).filter (fun step => !before.any (fun b => decide (step ≥ b)))

def collectSteps (start : String) (before : Option UInt64) :
    List String → List UInt64 → Except FlushError (List UInt64)
  | [], steps => .ok steps
  | key :: keys, steps =>
    match listedStep start before key with
    | none => collectSteps start before keys steps
    | some step =>
      if (steps ++ [step]).length > 10000 then
        .error (.text "checkpoint commit listing exceeds 10000 entries")
      else collectSteps start before keys (steps ++ [step])

def runPrefix (run : String) : String := "checkpoints/" ++ run ++ "/"

/-- The latest checkpoint, given the listing of what is stored under the run. -/
def latest (codec : Codec) (listing : Listing) (run : String) (want : Compatibility)
    (before : Option UInt64) : Flusher (Except FlushError LatestResult) :=
  match collectSteps (runPrefix run) before listing.keys [] with
  | .error e => return .error e
  | .ok steps =>
    match listing.err with
    | some e => return .error (.response e)
    | none => scanSteps codec run want (steps.mergeSort (fun a b => decide (a ≤ b))).reverse

/-- Reads are exact and a put stores its whole body under an absent key. Any
operation may fail, and of a put only the reply may be lost. -/
inductive Serves : Store String Bytes → StoreEvent → Store String Bytes → Prop
  | stat {s : Store String Bytes} {key : String} {content : Bytes} (h : s key = some content)
      (etag : String) : Serves s ⟨.stat key, .ok ⟨content.length, etag⟩⟩ s
  | statFailed (s : Store String Bytes) (key : String) (e : ErrorResponse) :
      Serves s ⟨.stat key, .error e⟩ s
  | get {s : Store String Bytes} {key : String} {content : Bytes} (h : s key = some content) :
      Serves s ⟨.get key none, .ok content⟩ s
  | getRange {s : Store String Bytes} {key : String} {content : Bytes} (h : s key = some content)
      (offset length : UInt64) : Serves s ⟨.get key (some (offset, length)),
        .ok ((content.drop offset.toNat).take length.toNat)⟩ s
  | getFailed (s : Store String Bytes) (key : String) (range : Option (UInt64 × UInt64))
      (e : ErrorResponse) : Serves s ⟨.get key range, .error e⟩ s
  | put {s : Store String Bytes} {key : String} (h : s key = none) (body : Bytes) (etag : String) :
      Serves s ⟨.put key body.length body, .ok etag⟩ (insert s key body)
  | putFailed (s : Store String Bytes) (key : String) (size : Nat) (body : Bytes) (e : PutFailure) :
      Serves s ⟨.put key size body, .error e⟩ s
  | putLost {s : Store String Bytes} {key : String} (h : s key = none) (body : Bytes)
      (e : PutFailure) : Serves s ⟨.put key body.length body, .error e⟩ (insert s key body)
  | now (s : Store String Bytes) (time : String) : Serves s ⟨.now, time⟩ s
  | order (s : Store String Bytes) (objects : List Object)
      (r : { order : List Object // order.Perm objects }) : Serves s ⟨.order objects, r⟩ s

variable {s s' : Store String Bytes} {e : StoreEvent}

theorem Serves.cases_put (h : Serves s e s') :
    s' = s ∨ ∃ key body r, e = ⟨.put key body.length body, r⟩ ∧ s key = none ∧
      s' = insert s key body := by
  cases h with
  | put h body etag => exact .inr ⟨_, body, _, rfl, h, rfl⟩
  | putLost h body e => exact .inr ⟨_, body, _, rfl, h, rfl⟩
  | _ => exact .inl rfl

theorem Serves.extends (h : Serves s e s') : Extends s s' := by
  obtain rfl | ⟨key, body, r, -, hn, rfl⟩ := Serves.cases_put h
  · exact Extends.refl _
  · exact insert_extends hn body

end HeteroCluster.ObjectStore
