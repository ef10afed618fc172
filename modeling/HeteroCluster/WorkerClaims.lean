import HeteroCluster.RunningTotals
import HeteroCluster.WorkerPods
import Mathlib.Algebra.Order.BigOperators.Group.List

namespace HeteroCluster.WorkerClaims

open FailFast GoStrings OperatorCalls RecoveryIncident RecoveryVerifier RunningTotals WorkerDemand
open WorkerPods

structure ResourceList where
  cpu : Int
  memory : Int
  deriving DecidableEq

structure ResourceRequirements where
  requests : ResourceList
  limits : ResourceList
  deriving DecidableEq

def workerResources (shape : ShapeJSON) (headroom : Int) : Except ApiError ResourceRequirements := do
  refuse (shape.cpus < 1 ∨ shape.memoryBytes < 1) (.other "invalid worker shape")
  let values : ResourceList := ⟨shape.cpus, wrapInt64 (shape.memoryBytes + headroom)⟩
  return ⟨values, values⟩

/-- The claim and the Pod of a worker hold what its shape says, the memory with
the headroom and in whole units. -/
structure Covers (shape : Shape) (unit headroom : Int) (requests : List DeviceRequest) : Prop where
  counts : ∀ r ∈ requests, 1 ≤ r.count
  total : (requests.map DeviceRequest.count).sum ≤ allocationResultsMaxSize
  memory : ∃ r ∈ requests, r.name = "memory" ∧
    (r.count - 1) * unit < shape.memoryBytes + headroom ∧
    shape.memoryBytes + headroom ≤ r.count * unit
  pod : workerResources (shapeJSON shape) headroom =
    .ok ⟨⟨shape.cpus, shape.memoryBytes + headroom⟩, ⟨shape.cpus, shape.memoryBytes + headroom⟩⟩

def gresTotal (shape : Shape) : Int := (shape.gres.keys.map (count shape.gres)).sum

def memoryUnits (shape : Shape) (unit headroom : Int) : Int :=
  (shape.memoryBytes + headroom + unit - 1) / unit

/-- The sums stay in the range of the machine integers. -/
structure InRange (shape : Shape) (unit headroom : Int) : Prop where
  memory : shape.memoryBytes + headroom + unit - 1 < 2 ^ 63
  total : shape.cpus + memoryUnits shape unit headroom + gresTotal shape < 2 ^ 63

section Arithmetic

variable {x unit need : Int}

theorem wrapInt64_wrapping : Wrapping wrapInt64 := wrapping_bmod (2 ^ 64)

theorem wrapInt64_numerator (a b c : Int) :
    wrapInt64 (wrapInt64 (wrapInt64 (a + b) + c) - 1) = wrapInt64 (a + b + c - 1) := by
  rw [wrapInt64_wrapping.absorb, sub_eq_add_neg, wrapInt64_wrapping.absorb, ← sub_eq_add_neg]

theorem wrapped_count (hunit : 0 < unit ∧ unit < 2 ^ 63) (hwrap : 2 ^ 63 ≤ need + unit - 1) :
    (wrapInt64 (need + unit - 1)).tdiv unit * unit < need := by
  have hmod : wrapInt64 (need + unit - 1) < 0 ∨
      wrapInt64 (need + unit - 1) ≤ need + unit - 1 - 2 ^ 64 := by
    unfold wrapInt64
    rw [Int.bmod_def]
    omega
  generalize wrapInt64 (need + unit - 1) = y at hmod ⊢
  by_cases hneg : y < 0
  · have hquot := Int.tdiv_nonneg (a := -y) (by omega) hunit.1.le
    rw [Int.neg_tdiv] at hquot
    have hnone := mul_nonpos_of_nonpos_of_nonneg (a := y.tdiv unit) (by omega) hunit.1.le
    omega
  · rw [Int.tdiv_eq_ediv_of_nonneg (by omega)]
    have hle := Int.ediv_mul_le y hunit.1.ne'
    omega

end Arithmetic

section Requests

variable {quantity : String → Option Int} {shape : Shape} {pool : WorkerPoolSpec}
  {unit headroom : Int} {requests : List DeviceRequest}

theorem gresRequest_ok {profiles : List WorkerProfile} {gres : String} {n : Int} {r : DeviceRequest}
    (h : gresRequest profiles gres n = .ok r) : r.count = n ∧ r.name ≠ "memory" := by
  unfold gresRequest at h
  split at h
  · cases h
  next profile hfind =>
    obtain rfl := Except.ok.inj h
    refine ⟨rfl, fun hname => ?_⟩
    have hhead := congrArg String.toList hname
    simp at hhead

theorem mapM_gresRequest {profiles : List WorkerProfile} {names : List String} {counts : String → Int}
    {rs : List DeviceRequest}
    (h : names.mapM (fun gres => gresRequest profiles gres (counts gres)) = .ok rs) :
    rs.map DeviceRequest.count = names.map counts ∧ ∀ r ∈ rs, r.name ≠ "memory" := by
  induction names generalizing rs with
  | nil =>
    rw [← pure_eq_ok.mp h]
    simp
  | cons gres names ih =>
    simp only [List.mapM_cons, bind_eq_ok, pure_eq_ok] at h
    obtain ⟨r, hr, rest, hrest, rfl⟩ := h
    obtain ⟨hcount, hname⟩ := gresRequest_ok hr
    obtain ⟨hcounts, hnames⟩ := ih hrest
    rw [List.map_cons, List.map_cons, hcounts, hcount, List.forall_mem_cons]
    exact ⟨rfl, hname, hnames⟩

def memoryCount (shape : Shape) (unit headroom : Int) : Int :=
  (wrapInt64 (shape.memoryBytes + headroom + unit - 1)).tdiv unit

def cpuRequest (shape : Shape) : DeviceRequest :=
  ⟨"cpu", "cpu.orchestration.gputpu.io", shape.cpus, kindSelector "cpu"⟩

def memoryRequest (shape : Shape) (unit headroom : Int) : DeviceRequest :=
  ⟨"memory", "memory.orchestration.gputpu.io", memoryCount shape unit headroom,
    kindAndValueSelector "memory" "unitBytes" (toString unit)⟩

/-- An accepted claim, with the sum that was compared with the maximum. -/
structure Accepted (shape : Shape) (unit headroom : Int) (requests accelerators : List DeviceRequest) :
    Prop where
  requests : requests = cpuRequest shape :: memoryRequest shape unit headroom :: accelerators
  counts : (accelerators.map DeviceRequest.count).Perm (shape.gres.keys.map (count shape.gres))
  names : ∀ r ∈ accelerators, r.name ≠ "memory"
  total : wrapInt64 (shape.cpus + memoryCount shape unit headroom + gresTotal shape) ≤
    allocationResultsMaxSize

theorem accepted_of_ok (hquantity : quantity pool.memoryUnit = some unit)
    (h : resourceClaim quantity shape pool headroom = .ok requests) :
    ∃ accelerators, Accepted shape unit headroom requests accelerators := by
  unfold resourceClaim at h
  rw [hquantity] at h
  simp only [bind_eq_ok, exists_unit, refuse_eq_ok, pure_eq_ok] at h
  obtain ⟨-, accelerators, haccelerators, htotal, rfl⟩ := h
  have hperm := List.mergeSort_perm shape.gres.keys (fun a b => decide (a ≤ b))
  have hsum : ((shape.gres.keys.mergeSort (fun a b => decide (a ≤ b))).map (count shape.gres)).sum =
      gresTotal shape := (hperm.map _).sum_eq
  obtain ⟨hcounts, hnames⟩ := mapM_gresRequest haccelerators
  rw [wrapInt64_wrapping.foldl (count shape.gres), hsum, wrapInt64_numerator, not_lt] at htotal
  refine ⟨accelerators, ?_, ?_, hnames, htotal⟩
  · rw [cpuRequest, memoryRequest, memoryCount, wrapInt64_numerator]
    rfl
  · rw [hcounts]
    exact hperm.map _

theorem memoryCount_eq (hunit : 0 < unit) (hpos : 0 ≤ shape.memoryBytes + headroom)
    (h : shape.memoryBytes + headroom + unit - 1 < 2 ^ 63) :
    memoryCount shape unit headroom = memoryUnits shape unit headroom := by
  rw [memoryCount, wrapInt64_of_range (by omega) h, Int.tdiv_eq_ediv_of_nonneg (by omega), memoryUnits]

theorem memoryUnits_pos (hunit : 0 < unit) (hpos : 0 < shape.memoryBytes + headroom) :
    1 ≤ memoryUnits shape unit headroom := by
  have henough := le_ceil (a := shape.memoryBytes + headroom) hunit
  by_contra hnot
  have hnone := mul_nonpos_of_nonpos_of_nonneg (a := memoryUnits shape unit headroom)
    (b := unit) (by omega) hunit.le
  unfold memoryUnits at hnone
  omega

variable {accelerators : List DeviceRequest}

theorem Accepted.memory_request (h : Accepted shape unit headroom requests accelerators)
    {r : DeviceRequest} (hr : r ∈ requests) (hname : r.name = "memory") :
    r = memoryRequest shape unit headroom := by
  rw [h.requests] at hr
  simp only [List.mem_cons] at hr
  obtain rfl | rfl | hr := hr
  · simp [cpuRequest] at hname
  · rfl
  · exact absurd hname (h.names r hr)

theorem Accepted.sum_counts (h : Accepted shape unit headroom requests accelerators) :
    (requests.map DeviceRequest.count).sum =
      shape.cpus + memoryCount shape unit headroom + gresTotal shape := by
  rw [h.requests, List.map_cons, List.map_cons, List.sum_cons, List.sum_cons, h.counts.sum_eq,
    gresTotal, cpuRequest, memoryRequest, Int.add_assoc]

theorem Accepted.inRange (h : Accepted shape unit headroom requests accelerators)
    (hpos : 0 ≤ shape.memoryBytes + headroom) (hunit : 0 < unit ∧ unit < 2 ^ 63)
    (hcovers : Covers shape unit headroom requests) : InRange shape unit headroom := by
  obtain ⟨r, hr, hname, -, henough⟩ := hcovers.memory
  rw [h.memory_request hr hname, memoryRequest] at henough
  have hfits : shape.memoryBytes + headroom + unit - 1 < 2 ^ 63 := by
    by_contra hwrap
    exact absurd henough (not_le.mpr (wrapped_count hunit (not_lt.mp hwrap)))
  have hsum := hcovers.total
  rw [h.sum_counts, memoryCount_eq hunit.1 hpos hfits] at hsum
  refine ⟨hfits, lt_of_le_of_lt hsum (by decide)⟩

theorem Accepted.covers (h : Accepted shape unit headroom requests accelerators)
    (hgres : ∀ gres ∈ shape.gres, 1 ≤ count shape.gres gres) (hunit : 0 < unit)
    (hheadroom : 0 ≤ headroom) (hrange : InRange shape unit headroom) :
    Covers shape unit headroom requests := by
  have hbytes := shape.memory_pos
  have hcpus := shape.cpus_pos
  have hfits := hrange.memory
  have hcount := memoryCount_eq hunit (by omega) hfits
  have hunits : 1 ≤ memoryUnits shape unit headroom := memoryUnits_pos hunit (by omega)
  have haccelerators : ∀ n ∈ accelerators.map DeviceRequest.count, 1 ≤ n := by
    intro n hn
    obtain ⟨gres, hmem, rfl⟩ := List.mem_map.mp (h.counts.mem_iff.mp hn)
    exact hgres gres (AList.mem_keys.mpr hmem)
  have hgresTotal : 0 ≤ gresTotal shape := by
    rw [gresTotal, ← h.counts.sum_eq]
    exact List.sum_nonneg (fun n hn => (by decide : (0 : Int) ≤ 1).trans (haccelerators n hn))
  constructor
  · rw [h.requests]
    simp only [List.forall_mem_cons]
    refine ⟨hcpus, ?_, fun r hr => haccelerators _ (List.mem_map_of_mem hr)⟩
    rw [memoryRequest, hcount]
    exact hunits
  · have htotal := h.total
    rw [hcount, wrapInt64_of_range (by omega) hrange.total] at htotal
    rw [h.sum_counts, hcount]
    exact htotal
  · refine ⟨memoryRequest shape unit headroom, by simp [h.requests], rfl, ?_⟩
    rw [memoryRequest, hcount]
    exact ⟨lt_ceil hunit, le_ceil hunit⟩
  · have hvalid : ¬ ((shapeJSON shape).cpus < 1 ∨ (shapeJSON shape).memoryBytes < 1) := by
      dsimp only [shapeJSON]
      omega
    have hpod : wrapInt64 (shape.memoryBytes + headroom) = shape.memoryBytes + headroom :=
      wrapInt64_of_range (by omega) (by omega)
    rw [workerResources, refuse, if_neg hvalid, ok_bind, shapeJSON, hpod]
    rfl

end Requests

/-- A claim that is accepted is the right one exactly if no sum on the way leaves
the range of the machine integers. -/
theorem claim_covers_iff (quantity : String → Option Int) (shape : Shape) (pool : WorkerPoolSpec)
    (unit headroom : Int) (requests : List DeviceRequest)
    (hgres : ∀ gres ∈ shape.gres, 1 ≤ count shape.gres gres)
    (hmemory : shape.memoryBytes ≤ (2 ^ 43 - 1) * 2 ^ 20)
    (hquantity : quantity pool.memoryUnit = some unit) (hunit : 2 ^ 20 ≤ unit ∧ unit < 2 ^ 63)
    (hheadroom : 0 ≤ headroom ∧ headroom < 2 ^ 63)
    (hclaim : resourceClaim quantity shape pool headroom = .ok requests) :
    Covers shape unit headroom requests ↔ InRange shape unit headroom := by
  obtain ⟨accelerators, haccepted⟩ := accepted_of_ok hquantity hclaim
  have hbytes := shape.memory_pos
  constructor
  · exact haccepted.inRange (by omega) ⟨by omega, hunit.2⟩
  · exact haccepted.covers hgres (by omega) hheadroom.1

section Samples

def twoMebibytes (_ : String) : Option Int := some (2 ^ 21)

def claimPool : WorkerPoolSpec := ⟨"gpu", "batch", "2Mi", ⟨0, 2, 0⟩, [⟨"t4", "gpu:t4", "nvidia"⟩]⟩

def claimShape : Shape := ⟨4, 5 * 2 ^ 20, 0, AList.singleton "gpu:t4" 2, by decide, by decide⟩

theorem claimShape_gres : ∀ gres ∈ claimShape.gres, 1 ≤ count claimShape.gres gres := by
  intro gres h
  obtain rfl : gres = "gpu:t4" := List.mem_singleton.mp h
  decide +kernel

theorem claim_covers_sample : ∃ requests, resourceClaim twoMebibytes claimShape claimPool (2 ^ 20) =
    .ok requests ∧ Covers claimShape (2 ^ 21) (2 ^ 20) requests := by
  have hclaim : (resourceClaim twoMebibytes claimShape claimPool (2 ^ 20)).isOk = true := by
    decide +kernel
  cases h : resourceClaim twoMebibytes claimShape claimPool (2 ^ 20) with
  | error e =>
    rw [h] at hclaim
    cases hclaim
  | ok requests =>
    refine ⟨requests, rfl, ?_⟩
    refine (claim_covers_iff twoMebibytes claimShape claimPool (2 ^ 21) (2 ^ 20) requests
      claimShape_gres (by decide) rfl (by decide) (by decide) h).mpr ?_
    exact ⟨by decide, by decide +kernel⟩

def largeShape : Shape := ⟨1, (2 ^ 43 - 1) * 2 ^ 20, 0, ∅, by decide, by decide⟩

/-- The claim is accepted with a negative count of memory units. -/
theorem large_shape_wraps :
    (resourceClaim twoMebibytes largeShape claimPool 0).map (fun rs => rs.map DeviceRequest.count) =
      .ok [1, -4398046511103] ∧
    ∀ requests, resourceClaim twoMebibytes largeShape claimPool 0 = .ok requests →
      ¬ Covers largeShape (2 ^ 21) 0 requests := by
  have hcounts : (resourceClaim twoMebibytes largeShape claimPool 0).map
      (fun rs => rs.map DeviceRequest.count) = .ok [1, -4398046511103] := by decide +kernel
  refine ⟨hcounts, fun requests h hcovers => ?_⟩
  rw [h] at hcounts
  have hlist : requests.map DeviceRequest.count = [1, -4398046511103] := Except.ok.inj hcounts
  have hmem : (-4398046511103 : Int) ∈ requests.map DeviceRequest.count := by simp [hlist]
  obtain ⟨r, hr, hcount⟩ := List.mem_map.mp hmem
  have hpos := hcovers.counts r hr
  omega

end Samples

end HeteroCluster.WorkerClaims
