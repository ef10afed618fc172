import HeteroCluster.AcceptedManifest
import HeteroCluster.CleanPaths
import Mathlib.Algebra.Order.BigOperators.Group.List
import Mathlib.Algebra.Order.Group.Nat
import Mathlib.Data.List.Nodup

namespace HeteroCluster.ManifestSchema

open GoStrings CleanPaths CheckpointManifest AcceptedManifest

section Document

/-- `minLength` and `maxLength` of the schema, which count characters. -/
def Text (maxLength : Nat) (s : String) : Prop := 1 ≤ s.length ∧ s.length ≤ maxLength

def isPathChar (c : Char) : Bool := isAlnum c || c == '.' || c == '_' || c == '/' || c == '-'

/-- The pattern of `storagePath`, its two lookaheads first. -/
def storagePathPattern (s : String) : Bool :=
  s.toList.head? != some '/' && !(s.toList.splitOn '/').contains ['.', '.'] &&
    hasForm isAlnum isPathChar 1023 s

/-- The pattern of the property names of `rng`. -/
def rngPattern (s : String) : Bool := s != "" && s.toList.all Char.isDigit

def dtypes : List String :=
  ["float16", "bfloat16", "float32", "float64", "int8", "uint8", "int16", "int32", "int64", "bool"]

structure ArtifactSchema (a : Artifact) : Prop where
  storagePath : storagePathPattern a.storagePath = true
  byteLength : 1 ≤ a.byteLength
  sha256 : hashPattern a.sha256 = true

structure ChunkSchema (chunk : Chunk) : Prop where
  chunkID : idPattern chunk.chunkID = true
  storagePath : storagePathPattern chunk.storagePath = true
  slice : 1 ≤ chunk.slice.length ∧ chunk.slice.length ≤ 16
  shape : 1 ≤ chunk.shape.length ∧ chunk.shape.length ≤ 16
  dimensions : ∀ n ∈ chunk.shape, 1 ≤ n
  byteLength : 1 ≤ chunk.byteLength
  sha256 : hashPattern chunk.sha256 = true
  writerRank : 0 ≤ chunk.writerRank

structure QuantizationSchema (q : Quantization) : Prop where
  scheme : q.scheme = "affine_int8"
  scale : ∃ v, q.scale = .finite v ∧ 0 < v
  zeroPoint : -128 ≤ q.zeroPoint ∧ q.zeroPoint ≤ 127
  rounding : q.rounding = "ties_to_even"
  clamp : q.clamp = (-128, 127)

structure TensorSchema (t : Tensor) : Prop where
  role : t.role ∈ ["model_parameter", "model_buffer", "optimizer_tensor", "application_state"]
  globalShape : 1 ≤ t.globalShape.length ∧ t.globalShape.length ≤ 16
  dimensions : ∀ n ∈ t.globalShape, 1 ≤ n
  canonicalDType : t.canonicalDType ∈ dtypes
  byteOrder : t.byteOrder = "little"
  layout : t.layout = "C"
  quantization : ∀ q, t.quantization = some q → QuantizationSchema q
  chunks : 1 ≤ t.chunks.length ∧ t.chunks.length ≤ 4096
  chunk : ∀ chunk ∈ t.chunks, ChunkSchema chunk

structure MetadataSchema (m : Metadata) : Prop where
  canonicalDType : m.canonicalDType ∈ dtypes
  modelID : Text 256 m.modelID
  modelSchemaHash : hashPattern m.modelSchemaHash = true
  datasetID : Text 512 m.datasetID
  containerImageDigest : ∃ digest, m.containerImageDigest = "sha256:" ++ digest ∧
    hashPattern digest = true
  framework : Text 64 m.framework
  frameworkVersion : Text 64 m.frameworkVersion
  adapterVersions : 1 ≤ m.adapterVersions.len
  adapterVersion : ∀ entry ∈ m.adapterVersions.entries,
    adapterPattern entry.1 = true ∧ Text 64 entry.2

structure WorldSchema (w : World) : Prop where
  size : 1 ≤ w.size
  ranks : 1 ≤ w.ranks.length ∧ w.ranks.length ≤ 65536
  rank : ∀ rank ∈ w.ranks, 0 ≤ rank.rank ∧ rank.hardware ∈ ["cpu", "nvidia-gpu", "opentpu-sim"] ∧
    Text 64 rank.adapter

structure StateSchema (s : State) : Prop where
  optimizerMetadata : ArtifactSchema s.optimizerMetadata
  scheduler : s.scheduler.isSome
  rng : 1 ≤ s.rng.len
  rngNames : ∀ entry ∈ s.rng.entries, rngPattern entry.1 = true
  rngArtifacts : ∀ entry ∈ s.rng.entries, ArtifactSchema entry.2
  dataCursor : s.dataCursor.isSome

/-- What `checkpoint-manifest-v2.schema.json` says of the fields of a manifest,
apart from the types a decoded manifest has anyway. -/
structure Schema (m : Manifest) : Prop where
  checkpointVersion : m.checkpointVersion = 2
  runID : idPattern m.runID = true
  epoch : ∃ v, m.epoch = .finite v ∧ 0 ≤ v
  metadata : MetadataSchema m.metadata
  world : WorldSchema m.world
  tensors : 1 ≤ m.tensors.len ∧ m.tensors.len ≤ 4096
  tensorNames : ∀ entry ∈ m.tensors.entries, tensorPattern entry.1 = true
  tensor : ∀ entry ∈ m.tensors.entries, TensorSchema entry.2
  state : StateSchema m.state

end Document

section Texts

theorem Text.of_bytes {n : Nat} {s : String} (h : s ≠ "" ∧ s.utf8ByteSize ≤ n) : Text n s := by
  have hlen := length_le_utf8ByteSize s
  refine ⟨?_, by omega⟩
  rw [Nat.one_le_iff_ne_zero]
  intro h0
  exact h.1 (String.length_eq_zero_iff.mp h0)

theorem dtype_of_size {dtype : String} (h : (dtypeSize dtype).isSome) : dtype ∈ dtypes := by
  rw [dtypeSize, List.lookup_isSome_iff] at h
  simpa [dtypes] using h

theorem digest_of_algorithm {algorithm s : String} (h : algorithm.toList.isPrefixOf s.toList = true)
    (hd : hashPattern (String.ofList (s.toList.drop algorithm.toList.length)) = true) :
    ∃ digest, s = algorithm ++ digest ∧ hashPattern digest = true := by
  obtain ⟨rest, hrest⟩ := List.isPrefixOf_iff_prefix.mp h
  refine ⟨String.ofList rest, ?_, ?_⟩
  · rw [← String.toList_inj, String.toList_append, String.toList_ofList, hrest]
  · rw [← hrest, List.drop_left] at hd
    exact hd

end Texts

section Paths

def plainPath (s : String) : Bool :=
  match s.toList with
  | [] => false
  | c :: cs => isAlnum c && cs.all isPathChar

theorem isAlnum_ne {c d : Char} (h : isAlnum c = true) (hd : isAlnum d = false) : c ≠ d := by
  rintro rfl
  exact absurd h (by simp [hd])

/-- Of a valid path the schema asks only what characters it has: a clean path
that starts with a letter or a digit does not leave its root. -/
theorem storagePathPattern_iff {s : String} (h : validStoragePath s = true) :
    storagePathPattern s = true ↔ plainPath s = true := by
  simp only [validStoragePath, Bool.and_eq_true, decide_eq_true_eq, beq_iff_eq] at h
  obtain ⟨⟨⟨⟨⟨⟨-, hbytes⟩, -⟩, -⟩, hclean⟩, -⟩, -⟩ := h
  have hlen := (length_le_utf8ByteSize s).trans hbytes
  rw [← String.length_toList] at hlen
  simp only [storagePathPattern, hasForm, plainPath, Bool.and_eq_true]
  cases hs : s.toList with
  | nil => simp
  | cons c cs =>
    rw [hs, List.length_cons] at hlen
    simp only [Bool.and_eq_true, decide_eq_true_eq]
    constructor
    · rintro ⟨-, ⟨hc, hcs⟩, -⟩
      exact ⟨hc, hcs⟩
    · rintro ⟨hc, hcs⟩
      have hslash : c ≠ '/' := isAlnum_ne hc (by decide)
      have hdot : c ≠ '.' := isAlnum_ne hc (by decide)
      have hparent := not_parent_of_clean hclean (by simpa [hs] using hslash)
        (by simpa [hs] using hdot)
      rw [hs] at hparent
      exact ⟨⟨by simpa using hslash, by simpa using hparent⟩, ⟨hc, hcs⟩, by omega⟩

/-- `Atoi` reads a sign where the schema allows none. -/
def signed (s : String) : Bool := s.toList.head? == some '+' || s.toList.head? == some '-'

theorem rngPattern_iff {key : String} {r : Int} (h : Denotes key r) :
    rngPattern key = true ↔ signed key = false := by
  obtain ⟨hdigits, -⟩ := atoi_eq_some h
  have hne : key ≠ "" := by
    rintro rfl
    have h0 : atoi "" = none := by decide
    rw [Denotes, h0] at h
    cases h
  simp only [rngPattern, signed, Bool.and_eq_true, bne_iff_ne, hne, ne_eq, not_false_eq_true,
    true_and, Bool.or_eq_false_iff, beq_eq_false_iff_ne]
  cases hs : key.toList with
  | nil => simp
  | cons c cs =>
    rw [hs] at hdigits
    constructor
    · intro hall
      have hc : c.isDigit = true := by simp_all
      constructor <;> rintro ⟨⟩ <;> exact absurd hc (by decide)
    · rintro ⟨hplus, hminus⟩
      rwa [unsigned] at hdigits
      · rintro digits ⟨⟩
        exact hminus rfl
      · rintro digits ⟨⟩
        exact hplus rfl

end Paths

section Fields

theorem one_le_of_ne_zero {n : UInt64} (h : n ≠ 0) : 1 ≤ n := by
  have hpos := UInt64.lt_iff_toNat_lt.mp (UInt64.pos_iff_ne_zero.mpr h)
  exact UInt64.le_iff_toNat_le.mpr hpos

theorem artifact_schema {a : Artifact} (h : AcceptedArtifact a) :
    ArtifactSchema a ↔ plainPath a.storagePath = true := by
  rw [← storagePathPattern_iff h.path]
  constructor
  · intro hs
    exact hs.storagePath
  · intro hp
    exact ⟨hp, one_le_of_ne_zero h.length, h.hash⟩

variable {world : World} {t : Tensor}

theorem chunk_schema {chunk : Chunk} (ht : AcceptedTensor world t)
    (h : AcceptedChunk world t chunk) :
    ChunkSchema chunk ↔ plainPath chunk.storagePath = true := by
  rw [← storagePathPattern_iff h.path]
  constructor
  · intro hs
    exact hs.storagePath
  · intro hp
    have hdims := ht.dimensions
    rw [← List.length_pos_iff, maxDimensions] at hdims
    refine ⟨h.id, hp, ?_, ?_, ?_, one_le_of_ne_zero h.length, h.hash, h.writer.1⟩
    · rw [h.slice]
      exact hdims
    · rw [h.shape]
      exact hdims
    · intro n hn
      exact one_le_of_ne_zero (h.positive n hn)

theorem quantization_schema {q : Quantization} (h : AcceptedQuantization q) :
    QuantizationSchema q := by
  refine ⟨h.scheme, ?_, h.zeroPoint, h.rounding, h.clamp⟩
  have hscale := h.scale
  unfold finitePositive at hscale
  split at hscale
  next v hv => exact ⟨v, hv, of_decide_eq_true hscale⟩
  · cases hscale

theorem tensor_schema (h : AcceptedTensor world t) (hlen : t.chunks.length ≤ maxChunks) :
    TensorSchema t ↔ ∀ chunk ∈ t.chunks, plainPath chunk.storagePath = true := by
  constructor
  · intro hs chunk hc
    exact (chunk_schema h (h.chunks chunk hc)).mp (hs.chunk chunk hc)
  · intro hp
    have hdims := h.dimensions
    rw [← List.length_pos_iff, maxDimensions] at hdims
    refine ⟨h.role, hdims, ?_, dtype_of_size h.dtype, h.order, h.layout, ?_, ⟨?_, hlen⟩, ?_⟩
    · intro n hn
      exact one_le_of_ne_zero (h.positive n hn)
    · intro q hq
      exact quantization_schema (h.quantization q hq)
    · exact List.length_pos_iff.mpr h.some
    · intro chunk hc
      exact (chunk_schema h (h.chunks chunk hc)).mpr (hp chunk hc)

theorem metadata_schema {m : Metadata} (h : AcceptedMetadata m) : MetadataSchema m ↔
    m.modelID.length ≤ 256 ∧ m.framework.length ≤ 64 ∧ m.frameworkVersion.length ≤ 64 := by
  constructor
  · intro hs
    exact ⟨hs.modelID.2, hs.framework.2, hs.frameworkVersion.2⟩
  · rintro ⟨hmodel, hframework, hversion⟩
    have htext : ∀ text ∈ [m.modelID, m.datasetID, m.framework, m.frameworkVersion], Text 512 text :=
      fun text ht => Text.of_bytes (h.texts text ht)
    refine ⟨dtype_of_size h.dtype, ⟨(htext _ (by simp)).1, hmodel⟩, h.hash, htext _ (by simp),
      digest_of_algorithm h.algorithm h.digest, ⟨(htext _ (by simp)).1, hframework⟩,
      ⟨(htext _ (by simp)).1, hversion⟩, h.adapters.1, ?_⟩
    intro entry he
    obtain ⟨hname, hvalue⟩ := h.adapter entry he
    exact ⟨hname, Text.of_bytes hvalue⟩

theorem world_schema {w : World} (h : AcceptedWorld w) : WorldSchema w := by
  have hsize := h.size
  have hlen := h.length
  refine ⟨hsize.1, ⟨by omega, by omega⟩, ?_⟩
  intro rank hr
  obtain ⟨h0, -, hhardware, hadapter⟩ := h.ranks rank hr
  exact ⟨h0, hhardware, Text.of_bytes hadapter⟩

theorem state_schema {s : State} (hw : AcceptedWorld world) (h : AcceptedState world s) :
    StateSchema s ↔ plainPath s.optimizerMetadata.storagePath = true ∧
      ∀ entry ∈ s.rng.entries, plainPath entry.2.storagePath = true ∧ signed entry.1 = false := by
  have hname : ∀ entry ∈ s.rng.entries, (rngPattern entry.1 = true ↔ signed entry.1 = false) := by
    intro entry he
    obtain ⟨⟨r, hr, -⟩, -⟩ := h.rng entry he
    exact rngPattern_iff hr
  constructor
  · intro hs
    refine ⟨(artifact_schema h.optimizer).mp hs.optimizerMetadata, ?_⟩
    intro entry he
    exact ⟨(artifact_schema (h.rng entry he).2).mp (hs.rngArtifacts entry he),
      (hname entry he).mp (hs.rngNames entry he)⟩
  · rintro ⟨hoptimizer, hrng⟩
    have hsize := hw.size
    have hlen := h.length
    refine ⟨(artifact_schema h.optimizer).mpr hoptimizer, h.scheduler, by omega, ?_, ?_, h.cursor⟩
    · intro entry he
      exact (hname entry he).mpr (hrng entry he).2
    · intro entry he
      exact (artifact_schema (h.rng entry he).2).mpr (hrng entry he).1

end Fields

/-- Where the limits of the schema are tighter than those of the code. -/
structure Narrow (m : Manifest) : Prop where
  modelID : m.metadata.modelID.length ≤ 256
  framework : m.metadata.framework.length ≤ 64
  frameworkVersion : m.metadata.frameworkVersion.length ≤ 64
  paths : ∀ object ∈ m.objects, plainPath object.path = true
  rng : ∀ entry ∈ m.state.rng.entries, signed entry.1 = false

theorem forall_objects {m : Manifest} (P : String → Prop) : (∀ object ∈ m.objects, P object.path) ↔
    (∀ entry ∈ m.tensors.entries, ∀ chunk ∈ entry.2.chunks, P chunk.storagePath) ∧
      P m.state.optimizerMetadata.storagePath ∧
      ∀ entry ∈ m.state.rng.entries, P entry.2.storagePath := by
  simp only [Manifest.objects, Tensor.objects, rngObject, List.forall_mem_append,
    List.forall_mem_cons, List.forall_mem_flatMap, List.forall_mem_map]

/-- Every tensor has a chunk, so that the limit on the chunks limits the tensors. -/
theorem tensors_le {m : Manifest} (h : Accepted m) : m.tensors.len ≤ 4096 ∧
    ∀ entry ∈ m.tensors.entries, entry.2.chunks.length ≤ maxChunks := by
  have hone : ∀ n ∈ m.tensors.entries.map (fun entry => entry.2.chunks.length), 1 ≤ n := by
    rw [List.forall_mem_map]
    intro entry he
    exact List.length_pos_iff.mpr (h.tensors entry he).some
  constructor
  · have hlen := List.length_le_sum_of_one_le _ hone
    rw [List.length_map] at hlen
    exact hlen.trans h.chunks
  · intro entry he
    have hmem := List.mem_map_of_mem (f := fun entry => entry.2.chunks.length) he
    exact (List.le_sum_of_mem hmem).trans h.chunks

/-- An accepted manifest meets the schema exactly if it is narrow: every other
limit of the schema follows from one of the validation. -/
theorem schema_iff (parseTime : String → Except String Unit) (m : Manifest)
    (h : m.validate parseTime = .ok ()) : Schema m ↔ Narrow m := by
  have ha := manifest_accepted h
  obtain ⟨hcount, hchunks⟩ := tensors_le ha
  have htensor := fun entry he => tensor_schema (ha.tensors entry he) (hchunks entry he)
  constructor
  · intro hs
    obtain ⟨hmodel, hframework, hversion⟩ := (metadata_schema ha.metadata).mp hs.metadata
    obtain ⟨hoptimizer, hrng⟩ := (state_schema ha.world ha.state).mp hs.state
    refine ⟨hmodel, hframework, hversion,
      (forall_objects (fun path => plainPath path = true)).mpr ⟨?_, hoptimizer, ?_⟩, ?_⟩
    · intro entry he
      exact (htensor entry he).mp (hs.tensor entry he)
    · exact fun entry he => (hrng entry he).1
    · exact fun entry he => (hrng entry he).2
  · intro hn
    obtain ⟨hpaths, hoptimizer, hrng⟩ :=
      (forall_objects (fun path => plainPath path = true)).mp hn.paths
    refine ⟨ha.version, ha.runID, ?_, ?_, world_schema ha.world, ⟨?_, hcount⟩, ha.names, ?_, ?_⟩
    · have hepoch := ha.epoch
      unfold finiteNonNegative at hepoch
      split at hepoch
      next v hv => exact ⟨v, hv, of_decide_eq_true hepoch⟩
      · cases hepoch
    · exact (metadata_schema ha.metadata).mpr ⟨hn.modelID, hn.framework, hn.frameworkVersion⟩
    · exact List.length_pos_iff.mpr ha.some
    · intro entry he
      exact (htensor entry he).mpr (hpaths entry he)
    · refine (state_schema ha.world ha.state).mpr ⟨hoptimizer, ?_⟩
      exact fun entry he => ⟨hrng entry he, hn.rng entry he⟩

/-- A manifest of one rank, with a chunk at the path and an RNG artifact under
the key. -/
def oneRank (path key : String) : Manifest :=
  let m := singleRank ⟨[("w", ⟨"model_parameter", [1], "int8", "little", "C", none,
    [⟨"w", path, [(0, 1)], [1], 0, 1, zeroHash, 0⟩]⟩)], List.nodup_singleton _⟩ 1
    ⟨"optimizer_state.json", 1, zeroHash⟩ ⟨"rng/0.bin", 1, zeroHash⟩
  { m with
    state := { m.state with rng := ⟨[(key, ⟨"rng/0.bin", 1, zeroHash⟩)], List.nodup_singleton _⟩ } }

theorem schema_oneRank : (oneRank "w/0.bin" "0").validate (fun _ => .ok ()) = .ok () ∧
    Schema (oneRank "w/0.bin" "0") := by
  have hvalid : (oneRank "w/0.bin" "0").validate (fun _ => .ok ()) = .ok () := by decide +kernel
  refine ⟨hvalid, (schema_iff _ _ hvalid).mpr ⟨?_, ?_, ?_, ?_, ?_⟩⟩ <;> decide +kernel

/-- The parent directory passes for a storage path, and a sign for part of a
rank. -/
theorem schema_violated : (oneRank ".." "+0").validate (fun _ => .ok ()) = .ok () ∧
    ¬ Schema (oneRank ".." "+0") := by
  refine ⟨by decide +kernel, fun hs => ?_⟩
  have hkey := hs.state.rngNames ("+0", ⟨"rng/0.bin", 1, zeroHash⟩) (by simp [oneRank])
  exact absurd hkey (by decide +kernel)

end HeteroCluster.ManifestSchema
