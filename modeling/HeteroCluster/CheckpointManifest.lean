import HeteroCluster.FailFast
import HeteroCluster.GoStrings
import Mathlib.Data.Rat.Defs

namespace HeteroCluster.CheckpointManifest

open GoStrings FailFast

def version : Int := 2
def maxManifestBytes : Nat := 16 <<< 20
def maxChunks : Nat := 4096
def maxDimensions : Nat := 16
def maxUint64 : UInt64 := 18446744073709551615

/-- A `float64` as far as the manifest looks at it. -/
inductive Float64 where
  | nan
  | inf (negative : Bool)
  | finite (value : ℚ)
  deriving DecidableEq

structure Metadata where
  totalParameters : UInt64
  canonicalDType : String
  modelID : String
  modelSchemaHash : String
  datasetID : String
  containerImageDigest : String
  framework : String
  frameworkVersion : String
  adapterVersions : GoMap String

structure Rank where
  rank : Int
  hardware : String
  adapter : String
  deriving DecidableEq

structure World where
  size : Int
  ranks : List Rank

structure Quantization where
  scheme : String
  scale : Float64
  zeroPoint : Int
  rounding : String
  clamp : Int × Int

structure Chunk where
  chunkID : String
  storagePath : String
  slice : List (UInt64 × UInt64)
  shape : List UInt64
  byteOffset : UInt64
  byteLength : UInt64
  sha256 : String
  writerRank : Int
  deriving DecidableEq

structure Tensor where
  role : String
  globalShape : List UInt64
  canonicalDType : String
  byteOrder : String
  layout : String
  quantization : Option Quantization
  chunks : List Chunk

structure Artifact where
  storagePath : String
  byteLength : UInt64
  sha256 : String

/-- The scheduler and the data cursor are raw JSON objects, or nil. -/
structure State where
  optimizerMetadata : Artifact
  scheduler : Option (GoMap String)
  rng : GoMap Artifact
  dataCursor : Option (GoMap String)

structure Manifest where
  checkpointVersion : Int
  runID : String
  globalStep : UInt64
  epoch : Float64
  createdAt : String
  metadata : Metadata
  world : World
  tensors : GoMap Tensor
  state : State

structure Object where
  id : String
  path : String
  offset : UInt64
  length : UInt64
  sha256 : String
  writerRank : Int

def isAlnum (c : Char) : Bool :=
  decide ('A' ≤ c ∧ c ≤ 'Z') || decide ('a' ≤ c ∧ c ≤ 'z') || decide ('0' ≤ c ∧ c ≤ '9')

def isHex (c : Char) : Bool := decide ('0' ≤ c ∧ c ≤ '9') || decide ('a' ≤ c ∧ c ≤ 'f')

def idPattern : String → Bool :=
  hasForm isAlnum (fun c => isAlnum c || c == '.' || c == '_' || c == '-') 127

def tensorPattern : String → Bool :=
  hasForm isAlnum
    (fun c => isAlnum c || c == '.' || c == '_' || c == ':' || c == '/' || c == '-') 511

def adapterPattern : String → Bool :=
  hasForm isAlnum (fun c => isAlnum c || c == '.' || c == '_' || c == '-') 63

def hashPattern (s : String) : Bool := s.toList.all isHex && decide (s.toList.length = 64)

def finitePositive : Float64 → Bool
  | .finite value => decide (0 < value)
  | _ => false

def finiteNonNegative : Float64 → Bool
  | .finite value => decide (0 ≤ value)
  | _ => false

def dtypeSize (dtype : String) : Option UInt64 :=
  [("float16", 2), ("bfloat16", 2), ("float32", 4), ("float64", 8), ("int8", 1), ("uint8", 1),
    ("int16", 2), ("int32", 4), ("int64", 8), ("bool", 1)].lookup dtype

def productStep (result dimension : UInt64) : Except String UInt64 := do
  refuse (dimension = 0 ∨ result > maxUint64 / dimension) "shape is empty or overflows"
  return result * dimension

def product (shape : List UInt64) : Except String UInt64 := shape.foldlM productStep 1

def slicesOverlap (a b : List (UInt64 × UInt64)) : Bool :=
  (a.zip b).all (fun p => !(decide (p.1.2 ≤ p.2.1) || decide (p.2.2 ≤ p.1.1)))

def validStoragePath (value : String) : Bool :=
  value != "" && decide (value.utf8ByteSize ≤ 1024) &&
    !value.toList.any (fun c => c == '\\' || c.toNat == 0) && !"/".toList.isPrefixOf value.toList &&
    pathClean value == value && value != "." && !"../".toList.isPrefixOf value.toList

def uniquePath (value owner : String) (paths : StringMap) : Except String StringMap := do
  refuse (validStoragePath value = false) (owner ++ " has invalid storage path")
  match paths.lookup value with
  | some previous =>
    throw ("storage path " ++ quote value ++ " is shared by " ++ previous ++ " and " ++ owner)
  | none => return (value, owner) :: paths

def Artifact.validate (a : Artifact) (owner : String) (paths : StringMap) :
    Except String StringMap := do
  let paths ← uniquePath a.storagePath owner paths
  refuse (a.byteLength = 0 ∨ hashPattern a.sha256 = false) (owner ++ " has invalid length or hash")
  return paths

def validateRNG (world : World) (paths : StringMap) (entry : String × Artifact) :
    Except String StringMap :=
  match atoi entry.1 with
  | none => throw ("invalid RNG rank " ++ quote entry.1)
  | some value => do
    refuse (value < 0 ∨ value ≥ world.size) ("invalid RNG rank " ++ quote entry.1)
    entry.2.validate ("rng rank " ++ entry.1) paths

def State.validate (s : State) (world : World) (paths : StringMap) : Except String Unit := do
  let paths ← s.optimizerMetadata.validate "optimizer_metadata" paths
  refuse (s.scheduler.isNone ∨ s.dataCursor.isNone ∨ (s.rng.len : Int) ≠ world.size)
    "scheduler, data_cursor, and one RNG artifact per rank are required"
  let _ ← s.rng.entries.foldlM (validateRNG world) paths
  return ()

/-- The chunks of a tensor that passed so far, and what they use and cover. -/
structure Coverage where
  paths : StringMap
  chunkIDs : List String
  covered : UInt64
  earlier : List Chunk

def validBounds (chunk : Chunk) (globalShape : List UInt64) : Bool :=
  (chunk.slice.zip (globalShape.zip chunk.shape)).all (fun p =>
    !(decide (p.1.1 ≥ p.1.2) || decide (p.1.2 > p.2.1) || decide (p.2.2 ≠ p.1.2 - p.1.1)))

def validateChunk (t : Tensor) (name : String) (world : World) (size : UInt64) (c : Coverage)
    (chunk : Chunk) : Except String Coverage := do
  refuse (idPattern chunk.chunkID = false) ("tensor " ++ quote name ++ " has invalid chunk_id")
  refuse (chunk.chunkID ∈ c.chunkIDs) ("duplicate chunk_id " ++ quote chunk.chunkID)
  let paths ← uniquePath chunk.storagePath ("chunk " ++ chunk.chunkID) c.paths
  refuse (chunk.slice.length ≠ t.globalShape.length ∨ chunk.shape.length ≠ t.globalShape.length)
    ("chunk " ++ quote chunk.chunkID ++ " dimensionality does not match tensor")
  refuse (validBounds chunk t.globalShape = false)
    ("chunk " ++ quote chunk.chunkID ++ " has invalid slice or shape")
  let badRange := "chunk " ++ quote chunk.chunkID ++ " has invalid byte range"
  let elements ← (product chunk.shape).mapError (fun _ => badRange)
  refuse (elements > maxUint64 / size ∨ elements * size ≠ chunk.byteLength ∨ chunk.byteLength = 0 ∨
    chunk.byteOffset > maxUint64 - chunk.byteLength) badRange
  refuse (hashPattern chunk.sha256 = false ∨ chunk.writerRank < 0 ∨ chunk.writerRank ≥ world.size)
    ("chunk " ++ quote chunk.chunkID ++ " has invalid hash or writer rank")
  refuse (maxUint64 - c.covered < elements) ("tensor " ++ quote name ++ " coverage overflows")
  match c.earlier.find? (fun other => slicesOverlap chunk.slice other.slice) with
  | some other =>
    throw ("tensor " ++ quote name ++ " chunks " ++ quote chunk.chunkID ++ " and " ++
      quote other.chunkID ++ " overlap")
  | none => return ⟨paths, chunk.chunkID :: c.chunkIDs, c.covered + elements, c.earlier ++ [chunk]⟩

def Quantization.validate (q : Quantization) (name dtype : String) : Except String Unit := do
  refuse (q.scheme ≠ "affine_int8" ∨ finitePositive q.scale = false ∨ q.zeroPoint < -128 ∨
    q.zeroPoint > 127 ∨ q.rounding ≠ "ties_to_even" ∨ q.clamp ≠ (-128, 127))
    ("tensor " ++ quote name ++ " has invalid quantization")
  refuse (dtype ≠ "float32" ∧ dtype ≠ "bfloat16")
    ("tensor " ++ quote name ++ " quantization requires float32 or bfloat16")

def validateQuantization (q : Option Quantization) (name dtype : String) : Except String Unit :=
  match q with
  | none => return ()
  | some q => q.validate name dtype

def roles : List String :=
  ["model_parameter", "model_buffer", "optimizer_tensor", "application_state"]

/-- The paths and chunk identifiers of the whole manifest go in and come out. -/
def Tensor.validate (t : Tensor) (name : String) (world : World) (paths : StringMap)
    (chunkIDs : List String) : Except String (StringMap × List String) := do
  refuse (t.role ∉ roles) ("tensor " ++ quote name ++ " has invalid role")
  refuse (t.globalShape.length = 0 ∨ t.globalShape.length > maxDimensions)
    ("tensor " ++ quote name ++ " has invalid dimensionality")
  let globalElements ← (product t.globalShape).mapError (fun e => "tensor " ++ quote name ++ ": " ++ e)
  let badLayout := "tensor " ++ quote name ++ " has invalid dtype, byte order, layout, or chunks"
  match dtypeSize t.canonicalDType with
  | none => throw badLayout
  | some size =>
    refuse (t.byteOrder ≠ "little" ∨ t.layout ≠ "C" ∨ t.chunks.length = 0) badLayout
    validateQuantization t.quantization name t.canonicalDType
    let c ← t.chunks.foldlM (validateChunk t name world size) ⟨paths, chunkIDs, 0, []⟩
    refuse (c.covered ≠ globalElements) ("tensor " ++ quote name ++ " chunks cover " ++
      toString c.covered ++ " of " ++ toString globalElements ++ " elements")
    return (c.paths, c.chunkIDs)

def World.validateRank (w : World) (seen : List Int) (rank : Rank) : Except String (List Int) := do
  refuse (rank.rank < 0 ∨ rank.rank ≥ w.size ∨ rank.rank ∈ seen)
    ("invalid or duplicate rank " ++ toString rank.rank)
  refuse (rank.hardware ∉ ["cpu", "nvidia-gpu", "opentpu-sim"] ∨ rank.adapter = "" ∨
    rank.adapter.utf8ByteSize > 64)
    ("rank " ++ toString rank.rank ++ " has invalid hardware or adapter")
  return rank.rank :: seen

def World.validate (w : World) : Except String Unit := do
  refuse (w.size < 1 ∨ w.size > 65536 ∨ (w.ranks.length : Int) ≠ w.size)
    "size must match 1 to 65536 ranks"
  let _ ← w.ranks.foldlM w.validateRank []
  return ()

def Metadata.validate (m : Metadata) : Except String Unit := do
  refuse ((dtypeSize m.canonicalDType).isNone) "invalid canonical_dtype"
  [("model_id", m.modelID), ("dataset_id", m.datasetID), ("framework", m.framework),
    ("framework_version", m.frameworkVersion)].forM (fun field =>
      refuse (field.2 = "" ∨ field.2.utf8ByteSize > 512) (field.1 ++ " is empty or too long"))
  refuse (hashPattern m.modelSchemaHash = false) "invalid model_schema_hash"
  refuse ("sha256:".toList.isPrefixOf m.containerImageDigest.toList = false ∨
    hashPattern (String.ofList (m.containerImageDigest.toList.drop 7)) = false)
    "invalid container_image_digest"
  refuse (m.adapterVersions.len = 0 ∨ m.adapterVersions.len > 64)
    "adapter_versions must contain 1 to 64 entries"
  m.adapterVersions.entries.forM (fun entry =>
    refuse (adapterPattern entry.1 = false ∨ entry.2 = "" ∨ entry.2.utf8ByteSize > 64)
      ("invalid adapter version " ++ quote entry.1))

structure Totals where
  paths : StringMap
  chunkIDs : List String
  chunks : Nat
  parameters : UInt64

def Manifest.validateTensor (m : Manifest) (totals : Totals) (entry : String × Tensor) :
    Except String Totals := do
  refuse (tensorPattern entry.1 = false) ("invalid tensor name " ++ quote entry.1)
  let seen ← entry.2.validate entry.1 m.world totals.paths totals.chunkIDs
  let chunks := totals.chunks + entry.2.chunks.length
  refuse (chunks > maxChunks) ("manifest contains more than " ++ toString maxChunks ++ " chunks")
  if entry.2.role = "model_parameter" then
    let overflow := "tensor " ++ quote entry.1 ++ " parameter count overflows"
    let elements ← (product entry.2.globalShape).mapError (fun _ => overflow)
    refuse (maxUint64 - totals.parameters < elements) overflow
    refuse (entry.2.canonicalDType ≠ m.metadata.canonicalDType)
      ("tensor " ++ quote entry.1 ++ " dtype differs from metadata canonical_dtype")
    return ⟨seen.1, seen.2, chunks, totals.parameters + elements⟩
  else return ⟨seen.1, seen.2, chunks, totals.parameters⟩

/-- `Validate`. The parser of `created_at` is the one of the time package. -/
def Manifest.validate (parseTime : String → Except String Unit) (m : Manifest) :
    Except String Unit := do
  refuse (m.checkpointVersion ≠ version) ("checkpoint_version must be " ++ toString version)
  refuse (idPattern m.runID = false) "invalid run_id"
  refuse (finiteNonNegative m.epoch = false) "epoch must be finite and non-negative"
  (parseTime m.createdAt).mapError (fun e => "invalid created_at: " ++ e)
  m.metadata.validate.mapError (fun e => "metadata: " ++ e)
  m.world.validate.mapError (fun e => "world: " ++ e)
  m.world.ranks.forM (fun rank =>
    refuse ((m.metadata.adapterVersions.get? rank.hardware).getD "" = "")
      ("rank " ++ toString rank.rank ++ " hardware " ++ quote rank.hardware ++
        " has no advertised adapter version"))
  refuse (m.tensors.len = 0) "tensors must not be empty"
  let totals ← m.tensors.entries.foldlM m.validateTensor ⟨[], [], 0, 0⟩
  refuse (totals.parameters ≠ m.metadata.totalParameters) ("total_parameters is " ++
    toString m.metadata.totalParameters ++ ", tensors contain " ++ toString totals.parameters)
  (m.state.validate m.world totals.paths).mapError (fun e => "state: " ++ e)

def Tensor.objects (t : Tensor) : List Object :=
  t.chunks.map (fun chunk => ⟨chunk.chunkID, chunk.storagePath, chunk.byteOffset, chunk.byteLength,
    chunk.sha256, chunk.writerRank⟩)

def rngObject (entry : String × Artifact) : Object :=
  ⟨"rng_" ++ entry.1, entry.2.storagePath, 0, entry.2.byteLength, entry.2.sha256,
    (atoi entry.1).getD 0⟩

def Manifest.objects (m : Manifest) : List Object :=
  m.tensors.entries.flatMap (fun entry => entry.2.objects) ++
    ⟨"optimizer_metadata", m.state.optimizerMetadata.storagePath, 0,
      m.state.optimizerMetadata.byteLength, m.state.optimizerMetadata.sha256, 0⟩ ::
    m.state.rng.entries.map rngObject

def Manifest.object (m : Manifest) (id : String) : Except String Object :=
  match m.objects.find? (fun object => object.id == id) with
  | some object => .ok object
  | none => .error ("object " ++ quote id ++ " is not authorized by the manifest")

structure Compatibility where
  modelID : String
  modelSchemaHash : String
  datasetID : String
  containerImageDigest : String
  framework : String
  frameworkVersion : String
  adapterVersions : GoMap String

def Manifest.compatible (m : Manifest) (want : Compatibility) : Except String Unit := do
  [("model_id", m.metadata.modelID, want.modelID),
    ("model_schema_hash", m.metadata.modelSchemaHash, want.modelSchemaHash),
    ("dataset_id", m.metadata.datasetID, want.datasetID),
    ("container_image_digest", m.metadata.containerImageDigest, want.containerImageDigest),
    ("framework", m.metadata.framework, want.framework),
    ("framework_version", m.metadata.frameworkVersion, want.frameworkVersion)].forM (fun check =>
      refuse (check.2.2 = "" ∨ check.2.1 ≠ check.2.2) ("incompatible " ++ check.1))
  refuse (want.adapterVersions.len = 0) "at least one adapter version is required"
  want.adapterVersions.entries.forM (fun entry =>
    refuse ((m.metadata.adapterVersions.get? entry.1).getD "" ≠ entry.2)
      ("incompatible adapter " ++ quote entry.1))

def zeroHash : String := String.ofList (List.replicate 64 '0')

/-- A manifest of one CPU rank, for examples. -/
def singleRank (tensors : GoMap Tensor) (totalParameters : UInt64) (optimizer rng : Artifact) :
    Manifest where
  checkpointVersion := version
  runID := "run"
  globalStep := 7
  epoch := .finite 0
  createdAt := "2026-01-01T00:00:00Z"
  metadata :=
    { totalParameters, canonicalDType := "int8", modelID := "model", modelSchemaHash := zeroHash
      datasetID := "data", containerImageDigest := "sha256:" ++ zeroHash, framework := "torch"
      frameworkVersion := "2", adapterVersions := ⟨[("cpu", "1")], by decide⟩ }
  world := ⟨1, [⟨0, "cpu", "cpu"⟩]⟩
  tensors
  state :=
    { optimizerMetadata := optimizer, scheduler := some ⟨[], by decide⟩, rng := ⟨[("0", rng)], by simp⟩
      dataCursor := some ⟨[], by decide⟩ }

end HeteroCluster.CheckpointManifest
