import HeteroCluster.AcceptedManifest
import HeteroCluster.ObjectIdentity

namespace HeteroCluster.ManifestOrder

open GoStrings FailFast FreshTables CheckpointManifest AcceptedManifest TensorTiling
open ManifestTables ObjectIdentity

/-- The same manifest, with the maps that the validation ranges over in other
orders. -/
structure Shuffled (m m' : Manifest) : Prop where
  tensors : m'.tensors.entries.Perm m.tensors.entries
  adapters : m'.metadata.adapterVersions.entries.Perm m.metadata.adapterVersions.entries
  rng : m'.state.rng.entries.Perm m.state.rng.entries
  rest : m' = { m with
    tensors := m'.tensors
    metadata := { m.metadata with adapterVersions := m'.metadata.adapterVersions }
    state := { m.state with rng := m'.state.rng } }

def statePaths (s : State) : List String :=
  s.optimizerMetadata.storagePath :: s.rng.entries.map (fun entry => entry.2.storagePath)

def chunkCount (m : Manifest) : ℕ :=
  (m.tensors.entries.map (fun entry => entry.2.chunks.length)).sum

/-- The elements of the model parameters, as a number without a bound. -/
def parameterCount (m : Manifest) : ℕ :=
  ((m.tensors.entries.filter (fun entry => entry.2.role == "model_parameter")).map
    (fun entry => elements entry.2.globalShape)).sum

structure Consistent (m : Manifest) : Prop where
  parameters : m.metadata.totalParameters.toNat = parameterCount m
  paths : (chunkPaths m ++ statePaths m.state).Nodup
  chunks : chunkCount m ≤ maxChunks

section Loop

variable {m : Manifest} {totals : Totals}

theorem sum_weight (m : Manifest) :
    (m.tensors.entries.map weight).sum = (chunkCount m, parameterCount m) := by
  unfold chunkCount parameterCount
  induction m.tensors.entries with
  | nil => rfl
  | cons entry rest ih =>
    rw [List.map_cons, List.sum_cons, ih, weight, Prod.mk_add_mk, List.map_cons, List.sum_cons]
    by_cases hrole : entry.2.role = "model_parameter" <;> simp [parameters, hrole]

theorem tensors_iff : (∃ totals, m.tensors.entries.foldlM m.validateTensor ⟨[], [], 0, 0⟩ =
      .ok totals) ↔ (∀ entry ∈ m.tensors.entries, TensorAlone m entry) ∧ (chunkPaths m).Nodup ∧
        (chunkIDs m).Nodup ∧ chunkCount m ≤ maxChunks ∧ parameterCount m ≤ maxUint64.toNat := by
  have hrun := (validateTensor_decides m).run_iff m.tensors.entries ⟨[], [], 0, 0⟩
    (by simp [load, cap])
  rw [hrun, sum_weight, ← manifestKeys, manifestKeys_nodup]
  simp [taken, load, cap, and_assoc]

theorem tensors_after (h : m.tensors.entries.foldlM m.validateTensor ⟨[], [], 0, 0⟩ = .ok totals) :
    totals.parameters.toNat = parameterCount m ∧
      ∀ path, path ∈ totals.paths.map Prod.fst ↔ path ∈ chunkPaths m := by
  have hdecides := validateTensor_decides m
  have hload := foldlM_load (fun hstep => hdecides.carry hstep) h
  rw [sum_weight] at hload
  refine ⟨by simpa [load] using congrArg Prod.snd hload, ?_⟩
  intro path
  obtain ⟨-, -, hused⟩ := hdecides.toEnters.run h
  have hmem : .inl path ∈ taken totals.paths totals.chunkIDs ↔ path ∈ totals.paths.map Prod.fst :=
    inl_mem_taken
  rw [← hmem, hused, ← manifestKeys, (manifestKeys_perm m).mem_iff]
  simp [taken]

end Loop

section Artifacts

variable {a : Artifact} {owner : String} {paths paths' : StringMap} {world : World}
  {entry : String × Artifact}

/-- What the loop over the RNG artifacts asks of one of them. -/
def RNGAlone (world : World) (entry : String × Artifact) : Prop :=
  (∃ r, Denotes entry.1 r ∧ 0 ≤ r ∧ r < world.size) ∧ AcceptedArtifact entry.2

theorem validateRNG_decides (world : World) : Decides (validateRNG world) (RNGAlone world)
    (fun entry => [entry.2.storagePath]) (fun paths => paths.map Prod.fst) (fun _ => 0)
    (fun _ => 0) (0 : ℕ) := by
  refine ⟨⟨?_, ?_⟩, fun _ => rfl, ?_⟩
  · intro paths entry paths' h
    obtain ⟨-, hfresh, -⟩ := validateRNG_eq_ok.mp h
    simpa using hfresh
  · intro paths entry paths' h k
    obtain ⟨-, -, rfl⟩ := validateRNG_eq_ok.mp h
    simp
  · intro paths entry
    simp [validateRNG_eq_ok, RNGAlone]

theorem rng_iff (entries : List (String × Artifact)) (paths : StringMap) :
    (∃ paths', entries.foldlM (validateRNG world) paths = .ok paths') ↔
      (∀ entry ∈ entries, RNGAlone world entry) ∧
        (entries.map (fun entry => entry.2.storagePath)).Nodup ∧
        ∀ path ∈ entries.map (fun entry => entry.2.storagePath), path ∉ paths.map Prod.fst := by
  rw [(validateRNG_decides world).run_iff entries paths (le_refl 0), ← List.map_eq_flatMap]
  simp

theorem state_iff (s : State) : s.validate world paths = .ok () ↔ AcceptedState world s ∧
    (statePaths s).Nodup ∧ ∀ path ∈ statePaths s, path ∉ paths.map Prod.fst := by
  simp only [State.validate, bind_eq_ok, exists_unit, refuse_eq_ok, artifact_eq_ok, not_or, not_not,
    Option.isNone_iff_eq_none, ← Option.isSome_iff_ne_none, pure_eq_ok, and_true, rng_iff,
    statePaths, List.nodup_cons, List.forall_mem_cons]
  constructor
  · rintro ⟨_, ⟨hoptimizer, hfresh, rfl⟩, ⟨hscheduler, hcursor, hlength⟩, hrng, hnodup, hapart⟩
    simp only [List.map_cons, List.mem_cons, not_or] at hapart
    refine ⟨⟨hoptimizer, hscheduler, hcursor, hlength, hrng⟩, ⟨?_, hnodup⟩, hfresh, ?_⟩
    · intro hmem
      exact (hapart _ hmem).1 rfl
    · intro path hpath
      exact (hapart path hpath).2
  · rintro ⟨haccepted, ⟨hnew, hnodup⟩, hfresh, hapart⟩
    refine ⟨_, ⟨haccepted.optimizer, hfresh, rfl⟩,
      ⟨haccepted.scheduler, haccepted.cursor, haccepted.length⟩, haccepted.rng, hnodup, ?_⟩
    intro path hpath
    rw [List.map_cons, List.mem_cons, not_or]
    refine ⟨?_, hapart path hpath⟩
    rintro rfl
    exact hnew hpath

end Artifacts

/-- What `validate` accepts, in terms that do not see the order of the maps. -/
structure Valid (parseTime : String → Except String Unit) (m : Manifest) : Prop where
  version : m.checkpointVersion = version
  runID : idPattern m.runID = true
  epoch : finiteNonNegative m.epoch = true
  created : parseTime m.createdAt = .ok ()
  metadata : m.metadata.validate = .ok ()
  world : m.world.validate = .ok ()
  adapters : ∀ rank ∈ m.world.ranks, (m.metadata.adapterVersions.get? rank.hardware).getD "" ≠ ""
  some : m.tensors.len ≠ 0
  tensors : ∀ entry ∈ m.tensors.entries, TensorAlone m entry
  ids : (chunkIDs m).Nodup
  state : AcceptedState m.world m.state
  consistent : Consistent m

section Verdict

variable {parseTime : String → Except String Unit} {m m' : Manifest}

theorem paths_nodup_iff : (chunkPaths m ++ statePaths m.state).Nodup ↔ (chunkPaths m).Nodup ∧
    (statePaths m.state).Nodup ∧ ∀ path ∈ statePaths m.state, path ∉ chunkPaths m := by
  rw [List.nodup_append']
  simp only [List.disjoint_left, and_congr_right_iff]
  intro _ _
  constructor
  · intro h path hstate hchunk
    exact h hchunk hstate
  · intro h path hchunk hstate
    exact h path hstate hchunk

theorem validate_iff : m.validate parseTime = .ok () ↔ Valid parseTime m := by
  simp only [Manifest.validate, bind_eq_ok, exists_unit, refuse_eq_ok, mapError_eq_ok, forM_eq_ok,
    not_not, Bool.not_eq_false, state_iff]
  constructor
  · rintro ⟨hversion, hrun, hepoch, hcreated, hmetadata, hworld, hadapters, hsome, totals, hfold,
      hparameters, hstate, hnodup, hapart⟩
    obtain ⟨htensors, hpaths, hids, hchunks, -⟩ := tensors_iff.mp ⟨totals, hfold⟩
    obtain ⟨hsum, hused⟩ := tensors_after hfold
    refine ⟨hversion, hrun, hepoch, hcreated, hmetadata, hworld, hadapters, hsome, htensors, hids,
      hstate, ?_, ?_, hchunks⟩
    · rw [← hparameters, hsum]
    · rw [paths_nodup_iff]
      simp only [hused] at hapart
      exact ⟨hpaths, hnodup, hapart⟩
  · intro h
    obtain ⟨hpaths, hnodup, hapart⟩ := paths_nodup_iff.mp h.consistent.paths
    have hmax : parameterCount m ≤ maxUint64.toNat := by
      rw [← h.consistent.parameters, maxUint64_toNat]
      have := m.metadata.totalParameters.toNat_lt
      omega
    obtain ⟨totals, hfold⟩ :=
      tensors_iff.mpr ⟨h.tensors, hpaths, h.ids, h.consistent.chunks, hmax⟩
    obtain ⟨hsum, hused⟩ := tensors_after hfold
    refine ⟨h.version, h.runID, h.epoch, h.created, h.metadata, h.world, h.adapters, h.some, totals,
      hfold, ?_, h.state, hnodup, ?_⟩
    · rw [← UInt64.toNat_inj, hsum, h.consistent.parameters]
    · simpa only [hused] using hapart

theorem lookup_perm {α : Type} {l l' : List (String × α)} (h : l.Perm l')
    (hl : (l.map Prod.fst).Nodup) (key : String) : l.lookup key = l'.lookup key := by
  induction h with
  | nil => rfl
  | cons x _ ih =>
    rw [List.map_cons, List.nodup_cons] at hl
    rw [List.lookup_cons, List.lookup_cons, ih hl.2]
  | swap x y l =>
    have hne : y.1 ≠ x.1 := by
      intro heq
      simp [heq] at hl
    rw [List.lookup_cons, List.lookup_cons, List.lookup_cons, List.lookup_cons]
    cases hx : key == x.1 with
    | false => rfl
    | true =>
      rw [eq_of_beq hx, beq_false_of_ne hne.symm]
  | trans h₁ _ ih₁ ih₂ => rw [ih₁ hl, ih₂ ((h₁.map Prod.fst).nodup_iff.mp hl)]

theorem metadata_shuffled {md : Metadata} {adapters : GoMap String}
    (h : adapters.entries.Perm md.adapterVersions.entries) (hmd : md.validate = .ok ()) :
    ({ md with adapterVersions := adapters } : Metadata).validate = .ok () := by
  have hlen : adapters.len = md.adapterVersions.len := h.length_eq
  simp only [Metadata.validate, bind_eq_ok, exists_unit, refuse_eq_ok, forM_eq_ok, hlen,
    h.mem_iff] at hmd ⊢
  exact hmd

theorem Shuffled.symm (h : Shuffled m m') : Shuffled m' m := by
  refine ⟨h.tensors.symm, h.adapters.symm, h.rng.symm, ?_⟩
  rw [h.rest]

theorem Consistent.shuffled (h : Consistent m) (hs : Shuffled m m') : Consistent m' := by
  have hparameters : m'.metadata.totalParameters = m.metadata.totalParameters := by rw [hs.rest]
  have hoptimizer : m'.state.optimizerMetadata = m.state.optimizerMetadata := by rw [hs.rest]
  refine ⟨?_, ?_, ?_⟩
  · rw [hparameters, h.parameters]
    exact (((hs.tensors.filter _).map _).sum_eq).symm
  · have hchunks : (chunkPaths m').Perm (chunkPaths m) := hs.tensors.flatMap_right _
    have hstate : (statePaths m'.state).Perm (statePaths m.state) := by
      rw [statePaths, hoptimizer]
      exact (hs.rng.map _).cons _
    exact (hchunks.append hstate).nodup_iff.mpr h.paths
  · have hcount : chunkCount m' = chunkCount m := (hs.tensors.map _).sum_eq
    rw [hcount]
    exact h.chunks

theorem Valid.shuffled (h : Valid parseTime m) (hs : Shuffled m m') : Valid parseTime m' := by
  have hconsistent := h.consistent.shuffled hs
  have hids : (chunkIDs m').Nodup := (hs.tensors.flatMap_right _).nodup_iff.mpr h.ids
  obtain ⟨tensors, adapters, rng, rfl, htensors, hadapters, hrng⟩ : ∃ tensors adapters rng,
      m' = { m with
        tensors, metadata := { m.metadata with adapterVersions := adapters }
        state := { m.state with rng } } ∧
      tensors.entries.Perm m.tensors.entries ∧
      adapters.entries.Perm m.metadata.adapterVersions.entries ∧
      rng.entries.Perm m.state.rng.entries :=
    ⟨_, _, _, hs.rest, hs.tensors, hs.adapters, hs.rng⟩
  refine ⟨h.version, h.runID, h.epoch, h.created, metadata_shuffled hadapters h.metadata, h.world,
    ?_, ?_, ?_, hids, ⟨h.state.optimizer, h.state.scheduler, h.state.cursor, ?_, ?_⟩, hconsistent⟩
  · intro rank hrank
    have hsame : adapters.get? rank.hardware = m.metadata.adapterVersions.get? rank.hardware :=
      lookup_perm hadapters adapters.distinct rank.hardware
    rw [hsame]
    exact h.adapters rank hrank
  · have hlen : tensors.len = m.tensors.len := htensors.length_eq
    rw [hlen]
    exact h.some
  · intro entry he
    have halone := h.tensors entry (htensors.mem_iff.mp he)
    exact ⟨halone.name, halone.valid, halone.dtype⟩
  · have hlen : rng.len = m.state.rng.len := hrng.length_eq
    rw [hlen]
    exact h.state.length
  · intro entry he
    exact h.state.rng entry (hrng.mem_iff.mp he)

/-- The verdict does not depend on the order of the maps, and an accepted manifest
is consistent. -/
theorem validate_shuffled (hs : Shuffled m m') :
    (m'.validate parseTime = .ok () ↔ m.validate parseTime = .ok ()) ∧
      (m.validate parseTime = .ok () → Consistent m) := by
  rw [validate_iff, validate_iff]
  refine ⟨⟨?_, ?_⟩, ?_⟩
  · intro h
    exact h.shuffled hs.symm
  · intro h
    exact h.shuffled hs
  · intro h
    exact h.consistent

end Verdict

def bufferTensor : Tensor :=
  ⟨"model_buffer", [4], "int8", "little", "C", none,
    [⟨"b.0", "b0.bin", [(0, 4)], [4], 0, 4, zeroHash, 0⟩]⟩

def pairManifest (tensors : GoMap Tensor) : Manifest :=
  singleRank tensors 6 ⟨"optimizer_state.json", 1, zeroHash⟩ ⟨"rng/0.bin", 1, zeroHash⟩

def weightsFirst : Manifest := pairManifest ⟨[("w", splitTensor), ("b", bufferTensor)], by simp⟩

def bufferFirst : Manifest := pairManifest ⟨[("b", bufferTensor), ("w", splitTensor)], by simp⟩

theorem validate_shuffled_pair : Shuffled weightsFirst bufferFirst ∧
    weightsFirst.validate (fun _ => .ok ()) = .ok () ∧
    bufferFirst.validate (fun _ => .ok ()) = .ok () ∧ Consistent weightsFirst := by
  have hs : Shuffled weightsFirst bufferFirst := ⟨.swap _ _ _, .refl _, .refl _, rfl⟩
  have hvalid : weightsFirst.validate (fun _ => .ok ()) = .ok () := by decide +kernel
  exact ⟨hs, hvalid, (validate_shuffled hs).1.mpr hvalid, (validate_shuffled hs).2 hvalid⟩

end HeteroCluster.ManifestOrder
