import HeteroCluster.ManifestTables

namespace HeteroCluster.ObjectIdentity

open GoStrings FailFast CheckpointManifest ManifestTables

/-- The same manifest, with its maps ranged over in other orders. -/
structure Reordered (m m' : Manifest) : Prop where
  tensors : m'.tensors.entries.Perm m.tensors.entries
  rng : m'.state.rng.entries.Perm m.state.rng.entries
  rest : m' = { m with tensors := m'.tensors, state := { m.state with rng := m'.state.rng } }

/-- No two objects share an ID, so the lookup does not depend on the order. -/
structure Identified (m : Manifest) : Prop where
  distinct : (m.objects.map Object.id).Nodup
  stable : ∀ m', Reordered m m' → ∀ id, m'.object id = m.object id

def chunkIDs (m : Manifest) : List String :=
  m.tensors.entries.flatMap (fun entry => entry.2.chunks.map Chunk.chunkID)

def ranks (m : Manifest) : List String := m.state.rng.entries.map Prod.fst

/-- No chunk has the name of the optimizer metadata or of an RNG artifact. -/
def Unshadowed (m : Manifest) : Prop :=
  ∀ id ∈ chunkIDs m, id ≠ "optimizer_metadata" ∧ ∀ rank ∈ ranks m, id ≠ "rng_" ++ rank

variable {m : Manifest}

section ChunkIDs

theorem manifestKeys_perm (m : Manifest) :
    (manifestKeys m).Perm ((chunkPaths m).map .inl ++ (chunkIDs m).map .inr) := by
  have hkeys : manifestKeys m =
      (m.tensors.entries.flatMap (fun entry => entry.2.chunks)).flatMap chunkKeys := by
    rw [List.flatMap_assoc]
    rfl
  have hpaths : (chunkPaths m).map Sum.inl =
      (m.tensors.entries.flatMap (fun entry => entry.2.chunks)).flatMap
        (fun chunk => [(.inl chunk.storagePath : String ⊕ String)]) := by
    simp [chunkPaths, List.map_flatMap, List.flatMap_assoc, ← List.map_eq_flatMap,
      Function.comp_def]
  have hids : (chunkIDs m).map Sum.inr =
      (m.tensors.entries.flatMap (fun entry => entry.2.chunks)).flatMap
        (fun chunk => [(.inr chunk.chunkID : String ⊕ String)]) := by
    simp [chunkIDs, List.map_flatMap, List.flatMap_assoc, ← List.map_eq_flatMap,
      Function.comp_def]
  rw [hkeys, hpaths, hids]
  exact (List.flatMap_append_perm _ (fun chunk : Chunk => [Sum.inl chunk.storagePath])
    (fun chunk => [Sum.inr chunk.chunkID])).symm

theorem manifestKeys_nodup (m : Manifest) :
    (manifestKeys m).Nodup ↔ (chunkPaths m).Nodup ∧ (chunkIDs m).Nodup := by
  rw [(manifestKeys_perm m).nodup_iff, List.nodup_append,
    List.nodup_map_iff Sum.inl_injective, List.nodup_map_iff Sum.inr_injective]
  simp

theorem chunkIDs_nodup {parseTime : String → Except String Unit}
    (h : m.validate parseTime = .ok ()) : (chunkIDs m).Nodup := by
  simp only [Manifest.validate, bind_eq_ok, exists_unit] at h
  obtain ⟨-, -, -, -, -, -, -, -, totals, hfold, -, -⟩ := h
  obtain ⟨hnodup, -⟩ := (validateTensor_decides m).toEnters.run hfold
  exact ((manifestKeys_nodup m).mp hnodup).2

end ChunkIDs

section Lookup

theorem map_id_objects (m : Manifest) : m.objects.map Object.id =
    chunkIDs m ++ "optimizer_metadata" :: (ranks m).map (fun rank => "rng_" ++ rank) := by
  have hchunks : (m.tensors.entries.flatMap (fun entry => entry.2.objects)).map Object.id =
      chunkIDs m := by
    rw [List.map_flatMap]
    simp [chunkIDs, Tensor.objects, Function.comp_def]
  rw [Manifest.objects, List.map_append, hchunks, List.map_cons]
  simp [ranks, rngObject, Function.comp_def]

theorem ranks_nodup (m : Manifest) : ((ranks m).map (fun rank => "rng_" ++ rank)).Nodup := by
  apply m.state.rng.distinct.map
  intro a b h
  have hlist := congrArg String.toList h
  simp only [String.toList_append] at hlist
  exact String.toList_injective (List.append_cancel_left hlist)

theorem optimizer_ne_rng (rank : String) : "optimizer_metadata" ≠ "rng_" ++ rank := by
  intro h
  have hhead := congrArg (fun s => s.toList.head?) h
  simp at hhead

theorem ids_nodup_iff (hchunks : (chunkIDs m).Nodup) :
    (m.objects.map Object.id).Nodup ↔ Unshadowed m := by
  have hothers : ("optimizer_metadata" :: (ranks m).map (fun rank => "rng_" ++ rank)).Nodup := by
    rw [List.nodup_cons]
    refine ⟨?_, ranks_nodup m⟩
    intro hmem
    obtain ⟨rank, -, heq⟩ := List.mem_map.mp hmem
    exact optimizer_ne_rng rank heq.symm
  rw [map_id_objects, List.nodup_append]
  constructor
  · rintro ⟨-, -, hdisjoint⟩ id hid
    constructor
    · exact hdisjoint id hid "optimizer_metadata" (by simp)
    · intro rank hrank
      exact hdisjoint id hid _ (by simp [hrank])
  · intro h
    refine ⟨hchunks, hothers, ?_⟩
    intro id hid other hother
    cases hother with
    | head => exact (h id hid).1
    | tail _ hother =>
      obtain ⟨rank, hrank, rfl⟩ := List.mem_map.mp hother
      exact (h id hid).2 rank hrank

theorem find?_id_perm {objects objects' : List Object} (hp : objects'.Perm objects)
    (hn : (objects.map Object.id).Nodup) (id : String) :
    objects'.find? (fun object => object.id == id) =
      objects.find? (fun object => object.id == id) := by
  cases h : objects.find? (fun object => object.id == id) with
  | none =>
    rw [List.find?_eq_none] at h ⊢
    intro object ho
    exact h object (hp.mem_iff.mp ho)
  | some object =>
    have hmem := List.mem_of_find?_eq_some h
    have hid := List.find?_some h
    cases h' : objects'.find? (fun object => object.id == id) with
    | none => exact absurd hid (List.find?_eq_none.mp h' object (hp.mem_iff.mpr hmem))
    | some object' =>
      have hmem' := hp.mem_iff.mp (List.mem_of_find?_eq_some h')
      have hid' := List.find?_some h'
      rw [List.inj_on_of_nodup_map hn hmem' hmem ((eq_of_beq hid').trans (eq_of_beq hid).symm)]

theorem Reordered.objects {m' : Manifest} (h : Reordered m m') : m'.objects.Perm m.objects := by
  have hoptimizer : m'.state.optimizerMetadata = m.state.optimizerMetadata := by
    rw [h.rest]
  unfold Manifest.objects
  rw [hoptimizer]
  exact (h.tensors.flatMap_right _).append ((h.rng.map rngObject).cons _)

end Lookup

/-- The objects of an accepted manifest are told apart by their IDs exactly if
no chunk shadows another object. -/
theorem objects_identified_iff {parseTime : String → Except String Unit}
    (h : m.validate parseTime = .ok ()) : Identified m ↔ Unshadowed m := by
  have hids := ids_nodup_iff (chunkIDs_nodup h)
  constructor
  · intro hi
    exact hids.mp hi.distinct
  · intro hu
    have hn := hids.mpr hu
    refine ⟨hn, ?_⟩
    intro m' hm' id
    rw [Manifest.object, Manifest.object, find?_id_perm hm'.objects hn]

def twoChunks (a b : String) : Manifest :=
  singleRank ⟨[("w", ⟨"model_parameter", [2], "int8", "little", "C", none,
    [⟨a, "w0.bin", [(0, 1)], [1], 0, 1, zeroHash, 0⟩,
      ⟨b, "w1.bin", [(1, 2)], [1], 0, 1, zeroHash, 0⟩]⟩)], List.nodup_singleton _⟩ 2
    ⟨"optimizer_state.json", 1, zeroHash⟩ ⟨"rng/0.bin", 1, zeroHash⟩

theorem objects_identified_twoChunks :
    (twoChunks "w.0" "w.1").validate (fun _ => .ok ()) = .ok () ∧
      Identified (twoChunks "w.0" "w.1") := by
  have hvalid : (twoChunks "w.0" "w.1").validate (fun _ => .ok ()) = .ok () := by decide +kernel
  have hu : Unshadowed (twoChunks "w.0" "w.1") := by
    unfold Unshadowed
    decide +kernel
  exact ⟨hvalid, (objects_identified_iff hvalid).mpr hu⟩

/-- Chunks take the names of the optimizer metadata and of the RNG state, and
are what is restored under these names. -/
theorem chunks_shadow_artifacts :
    (twoChunks "optimizer_metadata" "rng_0").validate (fun _ => .ok ()) = .ok () ∧
      ¬ Identified (twoChunks "optimizer_metadata" "rng_0") ∧
      ((twoChunks "optimizer_metadata" "rng_0").object "optimizer_metadata").map Object.path =
        .ok "w0.bin" ∧
      ((twoChunks "optimizer_metadata" "rng_0").object "rng_0").map Object.path = .ok "w1.bin" := by
  refine ⟨by decide +kernel, ?_, by decide +kernel, by decide +kernel⟩
  intro hi
  have hnot : ¬ ((twoChunks "optimizer_metadata" "rng_0").objects.map Object.id).Nodup := by
    decide +kernel
  exact hnot hi.distinct

end HeteroCluster.ObjectIdentity
