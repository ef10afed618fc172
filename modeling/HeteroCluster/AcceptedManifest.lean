import HeteroCluster.CheckpointManifest

namespace HeteroCluster.AcceptedManifest

open GoStrings FailFast CheckpointManifest

structure AcceptedArtifact (a : Artifact) : Prop where
  path : validStoragePath a.storagePath = true
  length : a.byteLength ≠ 0
  hash : hashPattern a.sha256 = true

structure AcceptedChunk (world : World) (t : Tensor) (chunk : Chunk) : Prop where
  id : idPattern chunk.chunkID = true
  path : validStoragePath chunk.storagePath = true
  slice : chunk.slice.length = t.globalShape.length
  shape : chunk.shape.length = t.globalShape.length
  positive : ∀ n ∈ chunk.shape, n ≠ 0
  length : chunk.byteLength ≠ 0
  hash : hashPattern chunk.sha256 = true
  writer : 0 ≤ chunk.writerRank ∧ chunk.writerRank < world.size

structure AcceptedQuantization (q : Quantization) : Prop where
  scheme : q.scheme = "affine_int8"
  scale : finitePositive q.scale = true
  zeroPoint : -128 ≤ q.zeroPoint ∧ q.zeroPoint ≤ 127
  rounding : q.rounding = "ties_to_even"
  clamp : q.clamp = (-128, 127)

structure AcceptedTensor (world : World) (t : Tensor) : Prop where
  role : t.role ∈ roles
  dimensions : t.globalShape ≠ [] ∧ t.globalShape.length ≤ maxDimensions
  positive : ∀ n ∈ t.globalShape, n ≠ 0
  dtype : (dtypeSize t.canonicalDType).isSome
  order : t.byteOrder = "little"
  layout : t.layout = "C"
  quantization : ∀ q, t.quantization = some q → AcceptedQuantization q
  some : t.chunks ≠ []
  chunks : ∀ chunk ∈ t.chunks, AcceptedChunk world t chunk

structure AcceptedMetadata (m : Metadata) : Prop where
  dtype : (dtypeSize m.canonicalDType).isSome
  texts : ∀ text ∈ [m.modelID, m.datasetID, m.framework, m.frameworkVersion],
    text ≠ "" ∧ text.utf8ByteSize ≤ 512
  hash : hashPattern m.modelSchemaHash = true
  algorithm : "sha256:".toList.isPrefixOf m.containerImageDigest.toList = true
  digest : hashPattern (String.ofList (m.containerImageDigest.toList.drop 7)) = true
  adapters : 0 < m.adapterVersions.len ∧ m.adapterVersions.len ≤ 64
  adapter : ∀ entry ∈ m.adapterVersions.entries,
    adapterPattern entry.1 = true ∧ entry.2 ≠ "" ∧ entry.2.utf8ByteSize ≤ 64

structure AcceptedWorld (w : World) : Prop where
  size : 1 ≤ w.size ∧ w.size ≤ 65536
  length : (w.ranks.length : Int) = w.size
  ranks : ∀ rank ∈ w.ranks, 0 ≤ rank.rank ∧ rank.rank < w.size ∧
    rank.hardware ∈ ["cpu", "nvidia-gpu", "opentpu-sim"] ∧ rank.adapter ≠ "" ∧
    rank.adapter.utf8ByteSize ≤ 64

/-- The key of an RNG artifact denotes a rank of the world. -/
def Denotes (key : String) (r : Int) : Prop := atoi key = some r

structure AcceptedState (world : World) (s : State) : Prop where
  optimizer : AcceptedArtifact s.optimizerMetadata
  scheduler : s.scheduler.isSome
  cursor : s.dataCursor.isSome
  length : (s.rng.len : Int) = world.size
  rng : ∀ entry ∈ s.rng.entries,
    (∃ r, Denotes entry.1 r ∧ 0 ≤ r ∧ r < world.size) ∧ AcceptedArtifact entry.2

/-- What the validation says of the fields of a manifest one by one. -/
structure Accepted (m : Manifest) : Prop where
  version : m.checkpointVersion = version
  runID : idPattern m.runID = true
  epoch : finiteNonNegative m.epoch = true
  metadata : AcceptedMetadata m.metadata
  world : AcceptedWorld m.world
  some : m.tensors.entries ≠ []
  names : ∀ entry ∈ m.tensors.entries, tensorPattern entry.1 = true
  tensors : ∀ entry ∈ m.tensors.entries, AcceptedTensor m.world entry.2
  chunks : (m.tensors.entries.map (fun entry => entry.2.chunks.length)).sum ≤ maxChunks
  state : AcceptedState m.world m.state

section Artifacts

variable {value owner : String} {paths paths' : StringMap} {a : Artifact} {world : World}
  {entry : String × Artifact}

theorem lookup_eq_none_iff (paths : StringMap) (value : String) :
    paths.lookup value = none ↔ value ∉ paths.map Prod.fst := by
  rw [List.lookup_eq_none_iff]
  simp only [List.mem_map, not_exists, not_and, bne_iff_ne, ne_comm, Ne]

theorem uniquePath_eq_ok : uniquePath value owner paths = .ok paths' ↔
    validStoragePath value = true ∧ value ∉ paths.map Prod.fst ∧
      (value, owner) :: paths = paths' := by
  simp only [uniquePath, bind_eq_ok, exists_unit, refuse_eq_ok, Bool.not_eq_false]
  rw [← lookup_eq_none_iff]
  cases paths.lookup value <;> simp

theorem artifact_eq_ok : a.validate owner paths = .ok paths' ↔ AcceptedArtifact a ∧
    a.storagePath ∉ paths.map Prod.fst ∧ (a.storagePath, owner) :: paths = paths' := by
  simp only [Artifact.validate, bind_eq_ok, exists_unit, refuse_eq_ok, uniquePath_eq_ok, pure_eq_ok,
    not_or, Bool.not_eq_false]
  constructor
  · rintro ⟨_, ⟨hvalid, hfresh, rfl⟩, ⟨hlength, hhash⟩, rfl⟩
    exact ⟨⟨hvalid, hlength, hhash⟩, hfresh, rfl⟩
  · rintro ⟨⟨hvalid, hlength, hhash⟩, hfresh, rfl⟩
    exact ⟨_, ⟨hvalid, hfresh, rfl⟩, ⟨hlength, hhash⟩, rfl⟩

theorem validateRNG_eq_ok : validateRNG world paths entry = .ok paths' ↔
    ((∃ r, Denotes entry.1 r ∧ 0 ≤ r ∧ r < world.size) ∧ AcceptedArtifact entry.2) ∧
      entry.2.storagePath ∉ paths.map Prod.fst ∧
      (entry.2.storagePath, "rng rank " ++ entry.1) :: paths = paths' := by
  unfold validateRNG Denotes
  cases atoi entry.1 with
  | none => simp
  | some value =>
    simp only [bind_eq_ok, exists_unit, refuse_eq_ok, artifact_eq_ok, not_or, Int.not_lt, ge_iff_le,
      Int.not_le, Option.some.injEq, exists_eq_left', and_assoc]

theorem state_accepted {s : State} (h : s.validate world paths = .ok ()) :
    AcceptedState world s := by
  simp only [State.validate, bind_eq_ok, exists_unit, refuse_eq_ok, not_or, not_not,
    Option.isNone_iff_eq_none, ← Option.isSome_iff_ne_none] at h
  obtain ⟨paths', hoptimizer, ⟨hscheduler, hcursor, hlength⟩, last, hrng, -⟩ := h
  refine ⟨(artifact_eq_ok.mp hoptimizer).1, hscheduler, hcursor, hlength, ?_⟩
  intro entry he
  obtain ⟨_, _, hstep⟩ := foldlM_mem hrng he
  exact (validateRNG_eq_ok.mp hstep).1

end Artifacts

section Tensors

variable {t : Tensor} {name : String} {world : World}

theorem product_positive {shape : List UInt64} {r : UInt64} (h : product shape = .ok r) :
    ∀ n ∈ shape, n ≠ 0 := by
  intro n hn
  obtain ⟨_, _, hstep⟩ := foldlM_mem h hn
  simp only [productStep, bind_eq_ok, exists_unit, refuse_eq_ok, not_or] at hstep
  exact hstep.1.1

theorem chunk_accepted {size : UInt64} {c c' : Coverage} {chunk : Chunk}
    (h : validateChunk t name world size c chunk = .ok c') : AcceptedChunk world t chunk := by
  simp only [validateChunk, bind_eq_ok, exists_unit, refuse_eq_ok, mapError_eq_ok, not_or,
    not_not, Bool.not_eq_false] at h
  obtain ⟨hid, -, paths, hpath, ⟨hslice, hshape⟩, -, n, hproduct, ⟨-, -, hlen, -⟩,
    ⟨hhash, hlow, hhigh⟩, -⟩ := h
  exact ⟨hid, (uniquePath_eq_ok.mp hpath).1, hslice, hshape, product_positive hproduct, hlen, hhash,
    by omega, by omega⟩

theorem quantization_accepted {q : Option Quantization} {dtype : String}
    (h : validateQuantization q name dtype = .ok ()) : ∀ x, q = some x → AcceptedQuantization x := by
  rintro x rfl
  simp only [validateQuantization, Quantization.validate, bind_eq_ok, exists_unit, refuse_eq_ok,
    not_or, not_not, Bool.not_eq_false] at h
  obtain ⟨⟨hscheme, hscale, hlow, hhigh, hrounding, hclamp⟩, -⟩ := h
  exact ⟨hscheme, hscale, ⟨by omega, by omega⟩, hrounding, hclamp⟩

theorem tensor_accepted {paths : StringMap} {ids : List String} {r : StringMap × List String}
    (h : t.validate name world paths ids = .ok r) : AcceptedTensor world t := by
  simp only [Tensor.validate, bind_eq_ok, exists_unit, refuse_eq_ok, mapError_eq_ok, not_or,
    not_not] at h
  obtain ⟨hrole, ⟨hdim, hmax⟩, n, hproduct, h⟩ := h
  split at h
  · exact absurd h throw_ne_ok
  next size hsize =>
    simp only [bind_eq_ok, exists_unit, refuse_eq_ok, not_or, not_not] at h
    obtain ⟨⟨horder, hlayout, hchunks⟩, hquantization, c, hfold, -⟩ := h
    refine ⟨hrole, ⟨?_, by omega⟩, product_positive hproduct, by simp [hsize], horder, hlayout,
      quantization_accepted hquantization, ?_, ?_⟩
    · rwa [Ne, ← List.length_eq_zero_iff]
    · rwa [Ne, ← List.length_eq_zero_iff]
    · intro chunk hchunk
      obtain ⟨_, _, hstep⟩ := foldlM_mem hfold hchunk
      exact chunk_accepted hstep

theorem validateTensor_accepted {m : Manifest} {totals totals' : Totals} {entry : String × Tensor}
    (h : m.validateTensor totals entry = .ok totals') :
    tensorPattern entry.1 = true ∧ AcceptedTensor m.world entry.2 ∧
      totals'.chunks = totals.chunks + entry.2.chunks.length ∧ totals'.chunks ≤ maxChunks := by
  simp only [Manifest.validateTensor, bind_eq_ok, exists_unit, refuse_eq_ok, not_lt, gt_iff_lt,
    Bool.not_eq_false] at h
  obtain ⟨hname, seen, htensor, hmax, h⟩ := h
  refine ⟨hname, tensor_accepted htensor, ?_⟩
  split at h
  · simp only [bind_eq_ok, exists_unit, pure_eq_ok] at h
    obtain ⟨-, -, -, -, rfl⟩ := h
    exact ⟨rfl, hmax⟩
  · obtain rfl := pure_eq_ok.mp h
    exact ⟨rfl, hmax⟩

end Tensors

section Fields

theorem metadata_accepted {m : Metadata} (h : m.validate = .ok ()) : AcceptedMetadata m := by
  simp only [Metadata.validate, bind_eq_ok, exists_unit, refuse_eq_ok, forM_eq_ok, not_or,
    Bool.not_eq_false, Option.isNone_iff_eq_none, ← Option.isSome_iff_ne_none] at h
  obtain ⟨hdtype, htexts, hhash, ⟨halgorithm, hdigest⟩, ⟨hsome, hmany⟩, hadapter⟩ := h
  refine ⟨hdtype, ?_, hhash, halgorithm, hdigest, ⟨by omega, by omega⟩, ?_⟩
  · intro text ht
    obtain ⟨field, hfield, rfl⟩ : ∃ field ∈ [("model_id", m.modelID), ("dataset_id", m.datasetID),
        ("framework", m.framework), ("framework_version", m.frameworkVersion)], field.2 = text := by
      exact List.mem_map.mp ht
    obtain ⟨hne, hlen⟩ := htexts field hfield
    exact ⟨hne, Nat.not_lt.mp hlen⟩
  · intro entry he
    obtain ⟨hpattern, hne, hlen⟩ := hadapter entry he
    exact ⟨hpattern, hne, Nat.not_lt.mp hlen⟩

theorem world_accepted {w : World} (h : w.validate = .ok ()) : AcceptedWorld w := by
  simp only [World.validate, bind_eq_ok, exists_unit, refuse_eq_ok, not_or, not_not] at h
  obtain ⟨⟨hlow, hhigh, hlength⟩, seen, hranks, -⟩ := h
  refine ⟨⟨by omega, by omega⟩, hlength, ?_⟩
  intro rank hr
  obtain ⟨_, _, hstep⟩ := foldlM_mem hranks hr
  simp only [World.validateRank, bind_eq_ok, exists_unit, refuse_eq_ok, not_or, not_not] at hstep
  obtain ⟨⟨hneg, hbig, -⟩, ⟨hhardware, hadapter, hlen⟩, -⟩ := hstep
  exact ⟨by omega, by omega, hhardware, hadapter, Nat.not_lt.mp hlen⟩

end Fields

theorem manifest_accepted {m : Manifest} {parseTime : String → Except String Unit}
    (h : m.validate parseTime = .ok ()) : Accepted m := by
  simp only [Manifest.validate, bind_eq_ok, exists_unit, refuse_eq_ok, mapError_eq_ok, not_not,
    Bool.not_eq_false] at h
  obtain ⟨hversion, hrun, hepoch, -, hmetadata, hworld, -, hsome, totals, hfold, -, hstate⟩ := h
  have hstep : ∀ entry ∈ m.tensors.entries,
      tensorPattern entry.1 = true ∧ AcceptedTensor m.world entry.2 := by
    intro entry he
    obtain ⟨_, _, hs⟩ := foldlM_mem hfold he
    obtain ⟨hname, htensor, -⟩ := validateTensor_accepted hs
    exact ⟨hname, htensor⟩
  have hcount : totals.chunks = (m.tensors.entries.map (fun entry => entry.2.chunks.length)).sum ∧
      totals.chunks ≤ maxChunks := by
    apply foldlM_invariant (fun done (totals : Totals) =>
      totals.chunks = (done.map (fun entry => entry.2.chunks.length)).sum ∧
        totals.chunks ≤ maxChunks) hfold
    · exact ⟨rfl, Nat.zero_le _⟩
    · intro done entry s s' _ hs hnext
      obtain ⟨-, -, hchunks, hmax⟩ := validateTensor_accepted hnext
      refine ⟨?_, hmax⟩
      rw [hchunks, hs.1, List.map_append, List.sum_append]
      simp
  refine ⟨hversion, hrun, hepoch, metadata_accepted hmetadata, world_accepted hworld, ?_,
    fun entry he => (hstep entry he).1, fun entry he => (hstep entry he).2, ?_,
    state_accepted hstate⟩
  · rwa [Ne, ← List.length_eq_zero_iff]
  · rw [← hcount.1]
    exact hcount.2

end HeteroCluster.AcceptedManifest
