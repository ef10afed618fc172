import HeteroCluster.CheckpointManifest

namespace HeteroCluster.CheckpointCodec

open GoStrings FailFast CheckpointManifest

abbrev Bytes := List UInt8

def maxOptimizerMetadataBytes : Nat := 4 <<< 20

structure OptimizerParameterGroup where
  parameters : List String
  options : Option (GoMap String)

structure OptimizerParameter where
  tensors : GoMap String

structure OptimizerState where
  formatVersion : Int
  parameterGroups : List OptimizerParameterGroup
  parameters : GoMap OptimizerParameter

structure CommitMarker where
  checkpointVersion : Int
  globalStep : UInt64
  manifestSHA256 : String
  committedAt : String
  slurmJobID : UInt64
  deriving DecidableEq

/-- What the checkpoint code takes from the standard library: strict JSON
decoding, the encoding of a commit marker, which is read back as it was
written, the parser of time stamps and SHA-256 in hexadecimal digits. -/
structure Codec where
  decodeManifestJSON : Bytes → Except String Manifest
  decodeOptimizerJSON : Bytes → Except String OptimizerState
  decodeMarkerJSON : Bytes → Except String CommitMarker
  marshalMarker : CommitMarker → Bytes
  parseTime : String → Except String Unit
  sha256 : Bytes → String
  decode_marshal : ∀ marker, marker.checkpointVersion = version →
    decodeMarkerJSON (marshalMarker marker) = .ok marker

variable (codec : Codec)

def decodeManifest (data : Bytes) : Except String Manifest := do
  refuse (data.length = 0 ∨ data.length > maxManifestBytes)
    ("manifest length must be between 1 and " ++ toString maxManifestBytes ++ " bytes")
  let manifest ← (codec.decodeManifestJSON data).mapError (fun e => "decode manifest: " ++ e)
  manifest.validate codec.parseTime
  return manifest

theorem decodeManifest_valid {data : Bytes} {manifest : Manifest}
    (h : decodeManifest codec data = .ok manifest) : manifest.validate codec.parseTime = .ok () := by
  simp only [decodeManifest, bind_eq_ok, exists_unit, pure_eq_ok] at h
  obtain ⟨-, m, -, hv, rfl⟩ := h
  exact hv

def tensorNames (manifest : Manifest) (role : String) : List String :=
  (manifest.tensors.entries.filter (fun entry => entry.2.role == role)).map Prod.fst

def checkGroup (manifest : Manifest) (group : OptimizerParameterGroup) : Except String Unit := do
  refuse (group.parameters.length = 0 ∨ group.options.isNone)
    "optimizer parameter groups require parameters and options"
  group.parameters.forM (fun name => refuse (name ∉ tensorNames manifest "model_parameter")
    ("optimizer group references unknown model parameter " ++ quote name))

def checkParameter (manifest : Manifest) (entry : String × OptimizerParameter) :
    Except String Unit := do
  refuse (entry.1 ∉ tensorNames manifest "model_parameter")
    ("optimizer state references unknown model parameter " ++ quote entry.1)
  entry.2.tensors.entries.forM (fun slot => do
    refuse (slot.1 = "") ("optimizer parameter " ++ quote entry.1 ++ " has an empty slot name")
    refuse (slot.2 ∉ tensorNames manifest "optimizer_tensor")
      ("optimizer slot " ++ quote slot.1 ++ " references unknown tensor " ++ quote slot.2))

def decodeOptimizerState (data : Bytes) (manifest : Manifest) : Except String OptimizerState := do
  refuse (data.length = 0 ∨ data.length > maxOptimizerMetadataBytes)
    ("optimizer metadata length must be between 1 and " ++ toString maxOptimizerMetadataBytes ++
      " bytes")
  let state ← (codec.decodeOptimizerJSON data).mapError
    (fun e => "decode optimizer metadata: " ++ e)
  refuse (state.formatVersion ≠ 1) "optimizer format_version must be 1"
  state.parameterGroups.forM (checkGroup manifest)
  state.parameters.entries.forM (checkParameter manifest)
  return state

end HeteroCluster.CheckpointCodec
