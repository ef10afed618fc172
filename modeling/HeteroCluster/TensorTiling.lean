import HeteroCluster.Boxes
import HeteroCluster.CheckpointManifest

namespace HeteroCluster.TensorTiling

open GoStrings FailFast Boxes CheckpointManifest

def InTensor (t : Tensor) (i : List ℕ) : Prop :=
  List.Forall₂ (fun x (n : UInt64) => x < n.toNat) i t.globalShape

def InChunk (chunk : Chunk) (i : List ℕ) : Prop :=
  List.Forall₂ (fun x (b : UInt64 × UInt64) => b.1.toNat ≤ x ∧ x < b.2.toNat) i chunk.slice

def chunkBox (chunk : Chunk) : Box := chunk.slice.map (fun b => (b.1.toNat, b.2.toNat))

def tensorBox (t : Tensor) : Box := t.globalShape.map (fun n => (0, n.toNat))

def elements (shape : List UInt64) : ℕ := (shape.map UInt64.toNat).prod

variable {t : Tensor} {chunk : Chunk} {c c' : Coverage} {size : UInt64}

theorem inChunk_iff {i : List ℕ} : InChunk chunk i ↔ Within i (chunkBox chunk) := by
  rw [Within, chunkBox, List.forall₂_map_right_iff]
  rfl

theorem inTensor_iff {i : List ℕ} : InTensor t i ↔ Within i (tensorBox t) := by
  rw [Within, tensorBox, List.forall₂_map_right_iff]
  simp [InTensor]

theorem maxUint64_toNat : maxUint64.toNat = 2 ^ 64 - 1 := by decide

theorem toNat_mul_of_le {a b : UInt64} (hb : b ≠ 0) (h : ¬ a > maxUint64 / b) :
    (a * b).toNat = a.toNat * b.toNat := by
  have hpos : 0 < b.toNat := by
    apply Nat.pos_of_ne_zero
    intro hz
    exact hb (UInt64.toNat_inj.mp hz)
  have hle : a.toNat ≤ (2 ^ 64 - 1) / b.toNat := by
    have hn := UInt64.le_iff_toNat_le.mp (UInt64.not_lt.mp h)
    rwa [UInt64.toNat_div, maxUint64_toNat] at hn
  have hmul : a.toNat * b.toNat ≤ 2 ^ 64 - 1 := (Nat.le_div_iff_mul_le hpos).mp hle
  rw [UInt64.toNat_mul, Nat.mod_eq_of_lt (by omega)]

theorem toNat_add_of_le {a b : UInt64} (h : ¬ maxUint64 - a < b) :
    (a + b).toNat = a.toNat + b.toNat := by
  have hle := UInt64.le_iff_toNat_le.mp (UInt64.not_lt.mp h)
  have ha : a ≤ maxUint64 := by
    rw [UInt64.le_iff_toNat_le, maxUint64_toNat]
    have := a.toNat_lt
    omega
  rw [UInt64.toNat_sub_of_le _ _ ha, maxUint64_toNat] at hle
  have hlt := a.toNat_lt
  rw [UInt64.toNat_add, Nat.mod_eq_of_lt (by omega)]

theorem product_toNat {shape : List UInt64} {r : UInt64} (h : product shape = .ok r) :
    r.toNat = elements shape := by
  apply foldlM_invariant (fun done (s : UInt64) => s.toNat = elements done) h
  · simp [elements]
  · intro done d s s' _ hs hstep
    simp only [productStep, bind_eq_ok, refuse_eq_ok, exists_unit, pure_eq_ok, not_or] at hstep
    obtain ⟨⟨hd, hle⟩, rfl⟩ := hstep
    rw [toNat_mul_of_le hd hle, hs]
    simp [elements]

structure Fits (t : Tensor) (size : UInt64) (chunk : Chunk) : Prop where
  inside : List.Forall₂ (fun (b : UInt64 × UInt64) (n : UInt64) => b.2.toNat ≤ n.toNat)
    chunk.slice t.globalShape
  shape : chunk.shape.map UInt64.toNat = chunk.slice.map (fun b => b.2.toNat - b.1.toNat)
  byteLength : chunk.byteLength.toNat = elements chunk.shape * size.toNat

theorem bounds_of_all {slice : List (UInt64 × UInt64)} {globalShape shape : List UInt64}
    (hs : slice.length = globalShape.length) (hl : shape.length = globalShape.length)
    (h : (slice.zip (globalShape.zip shape)).all (fun p =>
      !(decide (p.1.1 ≥ p.1.2) || decide (p.1.2 > p.2.1) || decide (p.2.2 ≠ p.1.2 - p.1.1))) = true) :
    List.Forall₂ (fun (b : UInt64 × UInt64) (n : UInt64) => b.2.toNat ≤ n.toNat) slice globalShape ∧
      shape.map UInt64.toNat = slice.map (fun b => b.2.toNat - b.1.toNat) := by
  induction slice generalizing globalShape shape with
  | nil =>
    cases globalShape with
    | nil =>
      cases shape with
      | nil => exact ⟨.nil, rfl⟩
      | cons => simp at hl
    | cons => simp at hs
  | cons b slice ih =>
    cases globalShape with
    | nil => simp at hs
    | cons n globalShape =>
      cases shape with
      | nil => simp at hl
      | cons d shape =>
        simp only [List.zip_cons_cons, List.all_cons, Bool.and_eq_true, Bool.not_eq_true',
          Bool.or_eq_false_iff, decide_eq_false_iff_not, ge_iff_le, gt_iff_lt, not_not,
          UInt64.not_le, UInt64.not_lt] at h
        obtain ⟨⟨⟨hlt, hle⟩, hd⟩, hrest⟩ := h
        obtain ⟨hin, hshape⟩ := ih (by simpa using hs) (by simpa using hl) hrest
        refine ⟨.cons (UInt64.le_iff_toNat_le.mp hle) hin, ?_⟩
        rw [List.map_cons, List.map_cons, hshape, hd,
          UInt64.toNat_sub_of_le _ _ (UInt64.le_of_lt hlt)]

theorem validateChunk_spec {name : String} {world : World}
    (h : validateChunk t name world size c chunk = .ok c') :
    Fits t size chunk ∧ c'.earlier = c.earlier ++ [chunk] ∧
      c'.covered.toNat = c.covered.toNat + elements chunk.shape ∧
      ∀ other ∈ c.earlier, slicesOverlap chunk.slice other.slice = false := by
  simp only [validateChunk, bind_eq_ok, exists_unit, refuse_eq_ok, mapError_eq_ok, not_or,
    not_not] at h
  obtain ⟨-, -, paths, -, ⟨hslice, hshape⟩, hbounds, n, hproduct, ⟨hsize, hlen, hne, -⟩, -, hcover,
    h⟩ := h
  split at h
  · exact absurd h throw_ne_ok
  · rename_i hnone
    obtain rfl := pure_eq_ok.mp h
    obtain ⟨hin, heq⟩ := bounds_of_all hslice hshape ((Bool.not_eq_false _).mp hbounds)
    have hn := product_toNat hproduct
    have hs0 : size ≠ 0 := by
      rintro rfl
      exact hne (hlen ▸ UInt64.mul_zero)
    refine ⟨⟨hin, heq, ?_⟩, rfl, ?_, ?_⟩
    · rw [← hlen, toNat_mul_of_le hs0 hsize, hn]
    · rw [← hn]
      exact toNat_add_of_le hcover
    · intro other ho
      simpa using List.find?_eq_none.mp hnone other ho

structure Covered (t : Tensor) (size : UInt64) (done : List Chunk) (c : Coverage) : Prop where
  earlier : c.earlier = done
  fits : ∀ chunk ∈ done, Fits t size chunk
  apart : done.Pairwise (fun a b => slicesOverlap b.slice a.slice = false)
  covered : c.covered.toNat = (done.map (fun chunk => elements chunk.shape)).sum

theorem Covered.step {name : String} {world : World} {done : List Chunk}
    (h : Covered t size done c) (hstep : validateChunk t name world size c chunk = .ok c') :
    Covered t size (done ++ [chunk]) c' := by
  obtain ⟨hfits, hearlier, hcovered, hapart⟩ := validateChunk_spec hstep
  rw [h.earlier] at hearlier hapart
  refine ⟨hearlier, ?_, ?_, ?_⟩
  · intro other ho
    obtain ho | ho := List.mem_append.mp ho
    · exact h.fits other ho
    · rw [List.mem_singleton.mp ho]
      exact hfits
  · apply List.pairwise_append.mpr
    refine ⟨h.apart, List.pairwise_singleton _ _, ?_⟩
    intro a ha b hb
    rw [List.mem_singleton.mp hb]
    exact hapart a ha
  · rw [hcovered, h.covered]
    simp

/-- A validated tensor: its chunks fit, are apart and cover all its elements. -/
theorem tensor_validate_spec {name : String} {world : World} {paths : StringMap}
    {ids : List String} {r : StringMap × List String} (h : t.validate name world paths ids = .ok r) :
    ∃ size c, dtypeSize t.canonicalDType = some size ∧ Covered t size t.chunks c ∧
      c.covered.toNat = elements t.globalShape := by
  simp only [Tensor.validate, bind_eq_ok, exists_unit, refuse_eq_ok, mapError_eq_ok] at h
  obtain ⟨-, -, n, hproduct, h⟩ := h
  split at h
  · exact absurd h throw_ne_ok
  · rename_i size hsize
    simp only [bind_eq_ok, exists_unit, refuse_eq_ok] at h
    obtain ⟨-, -, c, hfold, hcovered, -⟩ := h
    refine ⟨size, c, hsize, ?_, ?_⟩
    · apply foldlM_invariant (Covered t size) hfold
      · exact ⟨rfl, by simp, .nil, rfl⟩
      · intro done chunk c c' _ hd hstep
        exact hd.step hstep
    · rw [not_not.mp hcovered]
      exact product_toNat hproduct

theorem disjoint_of_not_overlap {a b : Chunk} (h : slicesOverlap a.slice b.slice = false) :
    Disjoint (points (chunkBox a)) (points (chunkBox b)) := by
  apply disjoint_of_apart
  rw [slicesOverlap, List.all_eq_false] at h
  obtain ⟨p, hp, hapart⟩ := h
  refine ⟨((p.1.1.toNat, p.1.2.toNat), (p.2.1.toNat, p.2.2.toNat)), ?_, ?_⟩
  · rw [chunkBox, chunkBox, List.zip_map]
    exact List.mem_map.mpr ⟨p, hp, rfl⟩
  · simp only [Bool.not_eq_true, Bool.not_eq_false', Bool.or_eq_true, decide_eq_true_eq,
      UInt64.le_iff_toNat_le] at hapart
    exact hapart

theorem Fits.subset (h : Fits t size chunk) : points (chunkBox chunk) ⊆ points (tensorBox t) := by
  apply points_subset
  rw [chunkBox, tensorBox, List.forall₂_map_left_iff, List.forall₂_map_right_iff]
  apply h.inside.imp
  intro b n hle
  exact ⟨Nat.zero_le _, hle⟩

theorem Fits.volume_eq (h : Fits t size chunk) : volume (chunkBox chunk) = elements chunk.shape := by
  rw [elements, h.shape, volume, chunkBox, List.map_map]
  rfl

theorem volume_tensorBox (t : Tensor) : volume (tensorBox t) = elements t.globalShape := by
  rw [elements, volume, tensorBox, List.map_map]
  rfl

/-- The chunks of every tensor of an accepted manifest tile it. -/
theorem chunks_tile_tensor {parseTime : String → Except String Unit} {m : Manifest} {name : String}
    (h : m.validate parseTime = .ok ()) (ht : (name, t) ∈ m.tensors.entries) :
    (∀ i, InTensor t i → ∃! j : Fin t.chunks.length, InChunk (t.chunks.get j) i) ∧
    (∀ chunk ∈ t.chunks, ∀ i, InChunk chunk i → InTensor t i) ∧
    ∃ size, dtypeSize t.canonicalDType = some size ∧ ∀ chunk ∈ t.chunks,
      chunk.byteLength.toNat = Set.ncard {i | InChunk chunk i} * size.toNat := by
  simp only [Manifest.validate, bind_eq_ok, exists_unit] at h
  obtain ⟨-, -, -, -, -, -, -, -, totals, hfold, -, -⟩ := h
  obtain ⟨before, after, hstep⟩ := foldlM_mem hfold ht
  simp only [Manifest.validateTensor, bind_eq_ok, exists_unit] at hstep
  obtain ⟨-, r, hvalid, -⟩ := hstep
  obtain ⟨size, c, hsize, hc, hcovered⟩ := tensor_validate_spec hvalid
  refine ⟨?_, ?_, size, hsize, ?_⟩
  · intro i hi
    have hdisj : t.chunks.Pairwise
        (fun a b => Disjoint (points (chunkBox a)) (points (chunkBox b))) := by
      apply hc.apart.imp
      intro a b hab
      exact (disjoint_of_not_overlap hab).symm
    have hvolume : (t.chunks.map (fun chunk => volume (chunkBox chunk))).sum =
        volume (tensorBox t) := by
      rw [volume_tensorBox, ← hcovered, hc.covered]
      congr 1
      apply List.map_congr_left
      intro chunk hm
      exact (hc.fits chunk hm).volume_eq
    have hunique := existsUnique_box (fun chunk hm => (hc.fits chunk hm).subset) hdisj hvolume
      (inTensor_iff.mp hi)
    simpa only [inChunk_iff] using hunique
  · intro chunk hm i hi
    rw [inTensor_iff, ← mem_points]
    apply (hc.fits chunk hm).subset
    rw [mem_points, ← inChunk_iff]
    exact hi
  · intro chunk hm
    have hset : {i | InChunk chunk i} = {i | Within i (chunkBox chunk)} := by
      ext i
      exact inChunk_iff
    rw [hset, ncard_within, (hc.fits chunk hm).volume_eq]
    exact (hc.fits chunk hm).byteLength

/-- Two rows of three elements, in a chunk of one column and one of two. -/
def splitTensor : Tensor :=
  ⟨"model_parameter", [2, 3], "int8", "little", "C", none,
    [⟨"w.0", "w0.bin", [(0, 2), (0, 1)], [2, 1], 0, 2, zeroHash, 0⟩,
      ⟨"w.1", "w1.bin", [(0, 2), (1, 3)], [2, 2], 0, 4, zeroHash, 0⟩]⟩

def splitManifest : Manifest :=
  singleRank ⟨[("w", splitTensor)], by decide⟩ 6 ⟨"optimizer_state.json", 1, zeroHash⟩
    ⟨"rng/0.bin", 1, zeroHash⟩

theorem chunks_tile_tensor_splitTensor :
    splitManifest.validate (fun _ => .ok ()) = .ok () ∧
    ∃! j : Fin splitTensor.chunks.length, InChunk (splitTensor.chunks.get j) [1, 2] := by
  have hvalid : splitManifest.validate (fun _ => .ok ()) = .ok () := by decide +kernel
  have hindex : InTensor splitTensor [1, 2] := .cons (by decide) (.cons (by decide) .nil)
  exact ⟨hvalid, (chunks_tile_tensor hvalid List.mem_cons_self).1 [1, 2] hindex⟩

end HeteroCluster.TensorTiling
