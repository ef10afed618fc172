import HeteroCluster.AcceptedManifest
import HeteroCluster.FreshTables
import HeteroCluster.TensorTiling

namespace HeteroCluster.ManifestTables

open GoStrings FailFast FreshTables CheckpointManifest AcceptedManifest TensorTiling

section Tables

variable {value owner name : String} {paths paths' : StringMap} {t : Tensor} {world : World}
  {size : UInt64} {c c' : Coverage} {chunk : Chunk}

def chunkKeys (chunk : Chunk) : List (String ⊕ String) :=
  [.inl chunk.storagePath, .inr chunk.chunkID]

def taken (paths : StringMap) (chunkIDs : List String) : List (String ⊕ String) :=
  paths.map (fun entry => .inl entry.1) ++ chunkIDs.map .inr

theorem inl_mem_taken {paths : StringMap} {ids : List String} :
    .inl value ∈ taken paths ids ↔ value ∈ paths.map Prod.fst := by
  simp [taken]

theorem inr_mem_taken {paths : StringMap} {ids : List String} :
    .inr value ∈ taken paths ids ↔ value ∈ ids := by
  simp [taken]

theorem chunkKeys_fresh {paths : StringMap} {ids : List String} :
    (∀ k ∈ chunkKeys chunk, k ∉ taken paths ids) ↔
      chunk.storagePath ∉ paths.map Prod.fst ∧ chunk.chunkID ∉ ids := by
  simp only [chunkKeys, List.forall_mem_cons, inl_mem_taken, inr_mem_taken]
  simp

theorem validateChunk_enters (t : Tensor) (name : String) (world : World) (size : UInt64) :
    Enters (validateChunk t name world size) chunkKeys (fun c => taken c.paths c.chunkIDs) := by
  have hstep : ∀ {c c' : Coverage} {chunk : Chunk},
      validateChunk t name world size c chunk = .ok c' →
      (∀ k ∈ chunkKeys chunk, k ∉ taken c.paths c.chunkIDs) ∧
        c'.paths.map Prod.fst = chunk.storagePath :: c.paths.map Prod.fst ∧
        c'.chunkIDs = chunk.chunkID :: c.chunkIDs := by
    intro c c' chunk h
    rw [chunkKeys_fresh]
    simp only [validateChunk, bind_eq_ok, exists_unit, refuse_eq_ok, mapError_eq_ok,
      uniquePath_eq_ok] at h
    obtain ⟨-, hid, paths, ⟨-, hpath, rfl⟩, -, -, n, -, -, -, -, h⟩ := h
    split at h
    · exact absurd h throw_ne_ok
    · obtain rfl := pure_eq_ok.mp h
      exact ⟨⟨hpath, hid⟩, rfl, rfl⟩
  constructor
  · intro c chunk c' h
    exact ⟨by simp [chunkKeys], (hstep h).1⟩
  · intro c chunk c' h k
    obtain ⟨-, hpaths, hids⟩ := hstep h
    cases k with
    | inl path => simp [inl_mem_taken, hpaths, chunkKeys]
    | inr id => simp [inr_mem_taken, hids, chunkKeys]

def after (paths : StringMap) (chunkIDs : List String) (c : Coverage) : Coverage :=
  { c with paths := c.paths ++ paths, chunkIDs := c.chunkIDs ++ chunkIDs }

theorem validateChunk_after {paths : StringMap} {ids : List String} :
    validateChunk t name world size (after paths ids c) chunk = .ok c' ↔
      (∀ k ∈ chunkKeys chunk, k ∉ taken paths ids) ∧
        ∃ d, validateChunk t name world size c chunk = .ok d ∧ after paths ids d = c' := by
  obtain ⟨used, chunkIDs, covered, earlier⟩ := c
  rw [chunkKeys_fresh, after]
  simp only [validateChunk, bind_eq_ok, exists_unit, refuse_eq_ok, mapError_eq_ok,
    uniquePath_eq_ok, List.map_append, List.mem_append, not_or]
  cases earlier.find? (fun other => slicesOverlap chunk.slice other.slice) with
  | some other => simp
  | none =>
    simp only [pure_eq_ok]
    constructor
    · rintro ⟨hpattern, ⟨hid, hother⟩, _, ⟨hvalid, ⟨hpath, hfree⟩, rfl⟩, hdim, hbounds, n, hproduct,
        hrange, hhash, hcover, rfl⟩
      exact ⟨⟨hfree, hother⟩, _, ⟨hpattern, hid, _, ⟨hvalid, hpath, rfl⟩, hdim, hbounds, n,
        hproduct, hrange, hhash, hcover, rfl⟩, rfl⟩
    · rintro ⟨⟨hfree, hother⟩, _, ⟨hpattern, hid, _, ⟨hvalid, hpath, rfl⟩, hdim, hbounds, n,
        hproduct, hrange, hhash, hcover, rfl⟩, rfl⟩
      exact ⟨hpattern, ⟨hid, hother⟩, _, ⟨hvalid, ⟨hpath, hfree⟩, rfl⟩, hdim, hbounds, n, hproduct,
        hrange, hhash, hcover, rfl⟩

def tensorKeys (t : Tensor) : List (String ⊕ String) := t.chunks.flatMap chunkKeys

theorem tensor_keys {ids : List String} {r : StringMap × List String}
    (h : t.validate name world paths ids = .ok r) : (tensorKeys t).Nodup ∧
      ∀ k, k ∈ taken r.1 r.2 ↔ k ∈ tensorKeys t ∨ k ∈ taken paths ids := by
  simp only [Tensor.validate, bind_eq_ok, exists_unit] at h
  obtain ⟨-, -, n, -, h⟩ := h
  split at h
  · exact absurd h throw_ne_ok
  next size _ =>
    simp only [bind_eq_ok, exists_unit, pure_eq_ok] at h
    obtain ⟨-, -, c, hfold, -, rfl⟩ := h
    obtain ⟨hnodup, -, hused⟩ := (validateChunk_enters t name world size).run hfold
    exact ⟨hnodup, hused⟩

/-- A tensor passes after others exactly if it passes by itself and shares no path
and no name with them. -/
theorem tensor_after {ids : List String} {r : StringMap × List String} :
    t.validate name world paths ids = .ok r ↔ (∀ k ∈ tensorKeys t, k ∉ taken paths ids) ∧
      ∃ r', t.validate name world [] [] = .ok r' ∧ (r'.1 ++ paths, r'.2 ++ ids) = r := by
  have hloop : ∀ size c', t.chunks.foldlM (validateChunk t name world size) ⟨paths, ids, 0, []⟩ =
      .ok c' ↔ (∀ k ∈ tensorKeys t, k ∉ taken paths ids) ∧
        ∃ d, t.chunks.foldlM (validateChunk t name world size) ⟨[], [], 0, []⟩ = .ok d ∧
          after paths ids d = c' := by
    intro size c'
    rw [tensorKeys, List.forall_mem_flatMap]
    exact foldlM_extend (fun _ _ _ => validateChunk_after) t.chunks ⟨[], [], 0, []⟩ c'
  simp only [Tensor.validate, bind_eq_ok, exists_unit]
  cases dtypeSize t.canonicalDType with
  | none => simp
  | some size =>
    simp only [bind_eq_ok, exists_unit, pure_eq_ok, hloop]
    constructor
    · rintro ⟨hrole, hdim, n, hproduct, hlayout, hquantization, _, ⟨hfresh, d, hd, rfl⟩, hcover,
        rfl⟩
      exact ⟨hfresh, _, ⟨hrole, hdim, n, hproduct, hlayout, hquantization, d, hd, hcover, rfl⟩, rfl⟩
    · rintro ⟨hfresh, _, ⟨hrole, hdim, n, hproduct, hlayout, hquantization, d, hd, hcover, rfl⟩,
        rfl⟩
      exact ⟨hrole, hdim, n, hproduct, hlayout, hquantization, _, ⟨hfresh, d, hd, rfl⟩, hcover, rfl⟩

theorem tensor_product {ids : List String} {r : StringMap × List String}
    (h : t.validate name world paths ids = .ok r) : ∃ n, product t.globalShape = .ok n := by
  simp only [Tensor.validate, bind_eq_ok, exists_unit, mapError_eq_ok] at h
  obtain ⟨-, -, n, hproduct, -⟩ := h
  exact ⟨n, hproduct⟩

end Tables

section Loop

variable {m : Manifest} {totals totals' : Totals} {entry : String × Tensor}

structure TensorAlone (m : Manifest) (entry : String × Tensor) : Prop where
  name : tensorPattern entry.1 = true
  valid : ∃ r, entry.2.validate entry.1 m.world [] [] = .ok r
  dtype : entry.2.role = "model_parameter" → entry.2.canonicalDType = m.metadata.canonicalDType

def parameters (entry : String × Tensor) : ℕ :=
  if entry.2.role = "model_parameter" then elements entry.2.globalShape else 0

def weight (entry : String × Tensor) : ℕ × ℕ := (entry.2.chunks.length, parameters entry)

def load (totals : Totals) : ℕ × ℕ := (totals.chunks, totals.parameters.toNat)

def cap : ℕ × ℕ := (maxChunks, maxUint64.toNat)

theorem not_lt_sub_iff {a b : UInt64} :
    ¬ maxUint64 - a < b ↔ a.toNat + b.toNat ≤ maxUint64.toNat := by
  have ha : a ≤ maxUint64 := by
    rw [UInt64.le_iff_toNat_le, maxUint64_toNat]
    have := a.toNat_lt
    omega
  rw [UInt64.not_lt, UInt64.le_iff_toNat_le, UInt64.toNat_sub_of_le _ _ ha, maxUint64_toNat]
  have := a.toNat_lt
  omega

theorem validateTensor_eq_ok : m.validateTensor totals entry = .ok totals' ↔
    TensorAlone m entry ∧ (∀ k ∈ tensorKeys entry.2, k ∉ taken totals.paths totals.chunkIDs) ∧
      load totals + weight entry ≤ cap ∧
      ∃ r, entry.2.validate entry.1 m.world [] [] = .ok r ∧ totals' =
        ⟨r.1 ++ totals.paths, r.2 ++ totals.chunkIDs, totals.chunks + entry.2.chunks.length,
          totals.parameters + UInt64.ofNat (parameters entry)⟩ := by
  have hload : load totals + weight entry ≤ cap ↔
      ¬ maxChunks < totals.chunks + entry.2.chunks.length ∧
        totals.parameters.toNat + parameters entry ≤ maxUint64.toNat := by
    rw [load, weight, cap, Prod.mk_add_mk, Prod.mk_le_mk, Nat.not_lt]
  have hafter : ∀ r, entry.2.validate entry.1 m.world totals.paths totals.chunkIDs = .ok r ↔
      (∀ k ∈ tensorKeys entry.2, k ∉ taken totals.paths totals.chunkIDs) ∧
        ∃ r', entry.2.validate entry.1 m.world [] [] = .ok r' ∧
          (r'.1 ++ totals.paths, r'.2 ++ totals.chunkIDs) = r := fun _ => tensor_after
  simp only [Manifest.validateTensor, bind_eq_ok, exists_unit, refuse_eq_ok, hload,
    Bool.not_eq_false, gt_iff_lt, hafter]
  by_cases hrole : entry.2.role = "model_parameter"
  · simp only [bind_eq_ok, exists_unit, refuse_eq_ok, pure_eq_ok, mapError_eq_ok, not_not,
      not_lt_sub_iff, parameters, if_pos hrole]
    constructor
    · rintro ⟨hname, _, ⟨hfresh, r, hr, rfl⟩, hchunks, n, hproduct, hsum, hdtype, rfl⟩
      rw [← product_toNat hproduct, UInt64.ofNat_toNat]
      exact ⟨⟨hname, ⟨r, hr⟩, fun _ => hdtype⟩, hfresh, ⟨hchunks, hsum⟩, r, hr, rfl⟩
    · rintro ⟨⟨hname, -, hdtype⟩, hfresh, ⟨hchunks, hsum⟩, r, hr, rfl⟩
      obtain ⟨n, hproduct⟩ := tensor_product hr
      rw [← product_toNat hproduct] at hsum ⊢
      rw [UInt64.ofNat_toNat]
      exact ⟨hname, _, ⟨hfresh, r, hr, rfl⟩, hchunks, n, hproduct, hsum, hdtype hrole, rfl⟩
  · simp only [pure_eq_ok, parameters, if_neg hrole]
    constructor
    · rintro ⟨hname, _, ⟨hfresh, r, hr, rfl⟩, hchunks, rfl⟩
      refine ⟨⟨hname, ⟨r, hr⟩, fun h => absurd h hrole⟩, hfresh, ⟨hchunks, ?_⟩, r, hr, by simp⟩
      have := totals.parameters.toNat_lt
      rw [maxUint64_toNat]
      omega
    · rintro ⟨⟨hname, -, -⟩, hfresh, ⟨hchunks, -⟩, r, hr, rfl⟩
      exact ⟨hname, _, ⟨hfresh, r, hr, rfl⟩, hchunks, by simp⟩

theorem taken_append (paths paths' : StringMap) (ids ids' : List String) (k : String ⊕ String) :
    k ∈ taken (paths ++ paths') (ids ++ ids') ↔ k ∈ taken paths ids ∨ k ∈ taken paths' ids' := by
  cases k with
  | inl path => simp [inl_mem_taken]
  | inr id => simp [inr_mem_taken]

theorem validateTensor_decides (m : Manifest) : Decides m.validateTensor (TensorAlone m)
    (fun entry => tensorKeys entry.2) (fun totals => taken totals.paths totals.chunkIDs)
    weight load cap := by
  have hkeys : ∀ {r : StringMap × List String} {entry : String × Tensor},
      entry.2.validate entry.1 m.world [] [] = .ok r →
        (tensorKeys entry.2).Nodup ∧ ∀ k, k ∈ taken r.1 r.2 ↔ k ∈ tensorKeys entry.2 := by
    intro r entry h
    obtain ⟨hnodup, hused⟩ := tensor_keys h
    refine ⟨hnodup, ?_⟩
    intro k
    rw [hused]
    simp [taken]
  refine ⟨⟨?_, ?_⟩, ?_, ?_⟩
  · intro totals entry totals' h
    obtain ⟨-, hfresh, -, r, hr, -⟩ := validateTensor_eq_ok.mp h
    exact ⟨(hkeys hr).1, hfresh⟩
  · intro totals entry totals' h k
    obtain ⟨-, -, -, r, hr, rfl⟩ := validateTensor_eq_ok.mp h
    rw [taken_append, (hkeys hr).2]
  · intro totals entry totals' h
    obtain ⟨-, -, hcap, r, hr, rfl⟩ := validateTensor_eq_ok.mp h
    have hsum : totals.parameters.toNat + parameters entry ≤ maxUint64.toNat := hcap.2
    rw [maxUint64_toNat] at hsum
    rw [load, load, weight, Prod.mk_add_mk, UInt64.toNat_add, UInt64.toNat_ofNat',
      Nat.mod_eq_of_lt (by omega : parameters entry < 2 ^ 64), Nat.mod_eq_of_lt (by omega)]
  · intro totals entry
    constructor
    · rintro ⟨totals', h⟩
      obtain ⟨halone, hfresh, hcap, r, hr, -⟩ := validateTensor_eq_ok.mp h
      exact ⟨halone, (hkeys hr).1, hfresh, hcap⟩
    · rintro ⟨halone, -, hfresh, hcap⟩
      obtain ⟨r, hr⟩ := halone.valid
      exact ⟨_, validateTensor_eq_ok.mpr ⟨halone, hfresh, hcap, r, hr, rfl⟩⟩

def chunkPaths (m : Manifest) : List String :=
  m.tensors.entries.flatMap (fun entry => entry.2.chunks.map Chunk.storagePath)

def manifestKeys (m : Manifest) : List (String ⊕ String) :=
  m.tensors.entries.flatMap (fun entry => tensorKeys entry.2)

end Loop

end HeteroCluster.ManifestTables
