import HeteroCluster.ObjectStore

namespace HeteroCluster.KeySpaces

open GoStrings CallProgram CheckpointManifest CheckpointCodec ObjectKeys ObjectStore

/-- Where `commit` stores the manifest of a checkpoint. -/
abbrev manifestKey (run : String) (step : UInt64) : String := objectKey run step "manifest.json"

variable {run run' path path' key : String} {step step' : UInt64} {codec : Codec}

section Upload

variable {log log' : StoreLog}

/-- Every put goes to the one key. -/
def PutsOnly (key : String) (_ : StoreLog) : StoreEvent → Prop
  | ⟨.put k _ _, _⟩ => k = key
  | _ => True

abbrev Puts {α : Type} (key : String) (p : Flusher α) (log : StoreLog) : Prop :=
  Ensures (fun _ _ => True) (PutsOnly key) p log (fun _ _ => True)

theorem hashRange_puts (k : String) (offset length : UInt64) :
    Puts key (hashRange codec k offset length) log := by
  unfold hashRange
  split
  · trivial
  · refine Ensures.perform (fun _ _ => trivial) fun r _ => ?_
    cases r with
    | error e => trivial
    | ok content =>
      dsimp only
      split <;> trivial

theorem compareExistingHash_puts (k : String) (info : ObjectInfo) (storagePath : String)
    (size : UInt64) (wanted : String) :
    Puts key (compareExistingHash codec k info storagePath size wanted) log := by
  unfold compareExistingHash
  split
  · trivial
  · refine (hashRange_puts k 0 size).bind fun r _ _ => ?_
    cases r with
    | error e => trivial
    | ok actual =>
      dsimp only
      split <;> trivial

/-- Whatever the store answers, an upload writes under its own key and under
no other. -/
theorem upload_puts (run : String) (step : UInt64) (storagePath : String) (source : Source)
    (size : UInt64) :
    Puts (objectKey run step storagePath) (upload codec run step storagePath source size) log := by
  refine Ensures.perform (fun _ _ => trivial) fun r _ => ?_
  split
  · unfold compareExisting
    split
    · trivial
    · exact compareExistingHash_puts _ _ _ _ _
  · split
    · trivial
    · refine Ensures.perform (fun _ _ => rfl) fun r _ => ?_
      split
      · trivial
      · dsimp only
        split
        · refine Ensures.perform (fun _ _ => trivial) fun r _ => ?_
          split
          · exact compareExistingHash_puts _ _ _ _ _
          · trivial
        · trivial

theorem key_of_upload {source : Source} {size : UInt64} {n : Nat} {body : Bytes}
    {r : Except PutFailure String} {o : Option (Except FlushError Receipt)}
    (he : Executes (fun _ _ => True) (upload codec run step path source size) [] log o)
    (hm : (⟨.put key n body, r⟩ : StoreEvent) ∈ log) : key = objectKey run step path := by
  obtain ⟨t, rfl, hgood, -⟩ := (upload_puts run step path source size).executes he
  obtain ⟨s, u, hs⟩ := List.append_of_mem hm
  exact hgood s _ u (by simpa using hs)

end Upload

/-- An object of a checkpoint shares its key with no other object, and an
upload of it touches no marker and no manifest. -/
structure KeysApart (run : String) (step : UInt64) (path : String) : Prop where
  injective : ∀ run' step' path', idPattern run' = true → validStoragePath path' = true →
    objectKey run step path = objectKey run' step' path' → run = run' ∧ step = step' ∧ path = path'
  marker : ∀ run' step', idPattern run' = true → objectKey run step path ≠ markerKey run' step'
  manifest : ∀ run' step', idPattern run' = true → objectKey run step path ≠ manifestKey run' step'
  upload : ∀ codec source size log o,
    Executes (fun _ _ => True) (upload codec run step path source size) [] log o →
    ∀ key n body r, (⟨.put key n body, r⟩ : StoreEvent) ∈ log →
    ∀ run' step', idPattern run' = true → key ≠ manifestKey run' step' ∧ key ≠ markerKey run' step'

/-- `ValidStoragePath` lets one reserved name through: an upload to it is an
upload of the manifest of its checkpoint. -/
theorem keysApart_iff (run : String) (step : UInt64) (path : String) (hr : idPattern run = true)
    (hp : validStoragePath path = true) : KeysApart run step path ↔ path ≠ "manifest.json" := by
  constructor
  · rintro h rfl
    exact h.manifest run step hr rfl
  · intro hn
    have marker : ∀ run' step', idPattern run' = true →
        objectKey run step path ≠ markerKey run' step' := by
      intro run' step' hr' h
      exact markerKey_ne_objectKey hr' hr h.symm
    have manifest : ∀ run' step', idPattern run' = true →
        objectKey run step path ≠ manifestKey run' step' := by
      intro run' step' hr' h
      obtain ⟨-, -, rfl⟩ := objectKey_injective hr hr' h
      exact hn rfl
    refine ⟨?_, marker, manifest, ?_⟩
    · intro run' step' path' hr' _ h
      exact objectKey_injective hr hr' h
    · intro codec source size log o he key n body r hm run' step' hr'
      obtain rfl := key_of_upload he hm
      exact ⟨manifest run' step' hr', marker run' step' hr'⟩

theorem keysApart_weights : KeysApart "run" 7 "tensors/w.bin" :=
  (keysApart_iff "run" 7 "tensors/w.bin" (by decide +kernel) (by decide +kernel)).mpr (by decide)

theorem manifest_uploaded : idPattern "run" = true ∧ validStoragePath "manifest.json" = true ∧
    ¬ KeysApart "run" 7 "manifest.json" := by
  refine ⟨by decide +kernel, by decide +kernel, fun h => ?_⟩
  exact h.manifest "run" 7 (by decide +kernel) rfl

end HeteroCluster.KeySpaces
