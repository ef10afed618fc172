import HeteroCluster.RecoverableInventory
import HeteroCluster.WorkerClaims

namespace HeteroCluster.VerifierClaims

open FailFast OperatorCalls HardwareInventory RecoveryIncident RecoveryIsolation RecoveryVerifier
open RecoverableInventory RunningTotals
open WorkerPods (allocationResultsMaxSize)
open WorkerClaims
open GoStrings (wrapInt64 wrapInt64_of_range wrapInt64_range)

def requested (requests : List DeviceRequest) (deviceClass : String) : Int :=
  ((requests.filter (fun r => r.deviceClass == deviceClass)).map DeviceRequest.count).sum

/-- The CPUs of a verifier: one, and those of the profiles. -/
def cpuTotal (cell : Cell) : Int := 1 + (cell.openTPU.map OpenTPU.cpuCores).sum

/-- The memory of a verifier: one unit, and that of the profiles. -/
def needed (cell : Cell) : Int :=
  cell.memoryUnitBytes + (cell.openTPU.map OpenTPU.memoryBytes).sum

/-- A claim that the devices of a cell can satisfy, and that holds what the verifier
needs. -/
structure Allocatable (cell : Cell) (requests : List DeviceRequest) : Prop where
  counts : ∀ r ∈ requests, 1 ≤ r.count
  cpus : requested requests "cpu.orchestration.gputpu.io" ≤ cell.cpus
  cores : cpuTotal cell ≤ requested requests "cpu.orchestration.gputpu.io"
  memory : requested requests "memory.orchestration.gputpu.io" ≤ cell.memoryUnits
  covers : needed cell ≤
    requested requests "memory.orchestration.gputpu.io" * cell.memoryUnitBytes
  gpus : requested requests "nvidia.orchestration.gputpu.io" = cell.gpus.length
  profiles : ∀ profile ∈ cell.openTPU, ∃ r ∈ requests,
    r.deviceClass = "opentpu.orchestration.gputpu.io" ∧ r.count = 1 ∧
      r.selector = openTPUNUMASelector profile.profile cell.numa
  total : (requests.map DeviceRequest.count).sum ≤ allocationResultsMaxSize

def unitTotal (cell : Cell) : Int :=
  (needed cell + cell.memoryUnitBytes - 1) / cell.memoryUnitBytes

variable {cell : Cell} {cfg : Config} {node : Node} {owner : String} {state : RecoveryState}
  {object : VerifierObject}

section Footprint

theorem foldl_prod {α : Type} (f g : Int → α → Int) (l : List α) (a b : Int) :
    l.foldl (fun (acc : Int × Int) x => (f acc.1 x, g acc.2 x)) (a, b) =
      (l.foldl f a, l.foldl g b) := by
  induction l generalizing a b with
  | nil => rfl
  | cons x l ih => exact ih (f a x) (g b x)

theorem footprint_eq {cpus bytes : Int} (hunit : 1 ≤ cell.memoryUnitBytes)
    (hrange : cell.memoryUnitBytes < 2 ^ 63) (h : footprint cell = .ok (cpus, bytes)) :
    (∀ profile ∈ cell.openTPU, 0 ≤ profile.cpuCores ∧ 0 ≤ profile.memoryBytes) ∧
      cpus = wrapInt64 (cpuTotal cell) ∧ bytes = wrapInt64 (needed cell) := by
  have hstep : ∀ (acc : Int × Int) (profile : OpenTPU) (acc' : Int × Int),
      (if profile.count < 1 ∨ profile.cpuCores < 1 ∨ profile.memoryBytes < 1 ∨
          (profile.matrixSize ≠ 8 ∧ profile.matrixSize ≠ 16) then
        Except.error (ApiError.other ("invalid OpenTPU verifier profile " ++
          GoStrings.quote profile.profile))
      else Except.ok (wrapInt64 (acc.1 + profile.cpuCores), wrapInt64 (acc.2 + profile.memoryBytes))) =
        .ok acc' ↔
      (¬ (profile.count < 1 ∨ profile.cpuCores < 1 ∨ profile.memoryBytes < 1 ∨
        (profile.matrixSize ≠ 8 ∧ profile.matrixSize ≠ 16))) ∧
        (wrapInt64 (acc.1 + profile.cpuCores), wrapInt64 (acc.2 + profile.memoryBytes)) = acc' := by
    intro acc profile acc'
    split
    next hbad => simp [hbad]
    next hgood => simp [hgood]
  rw [footprint, foldlM_eq_ok_iff hstep] at h
  have hone : wrapInt64 1 = 1 := by decide
  have hstart : wrapInt64 cell.memoryUnitBytes = cell.memoryUnitBytes :=
    wrapInt64_of_range (by omega) hrange
  have hsums := h.2
  rw [foldl_prod (fun total profile => wrapInt64 (total + OpenTPU.cpuCores profile))
    (fun total profile => wrapInt64 (total + OpenTPU.memoryBytes profile)), Prod.mk.injEq] at hsums
  obtain ⟨hcpus, hbytes⟩ := hsums
  rw [← hone, wrapInt64_wrapping.foldl] at hcpus
  rw [← hstart, wrapInt64_wrapping.foldl] at hbytes
  refine ⟨?_, hcpus.symm, hbytes.symm⟩
  intro profile hp
  have hgood := h.1 profile hp
  omega

def memoryCount (cell : Cell) : Int :=
  (wrapInt64 (needed cell + cell.memoryUnitBytes - 1)).tdiv cell.memoryUnitBytes

theorem verifierObjects_ok (hunit : 1 ≤ cell.memoryUnitBytes)
    (hrange : cell.memoryUnitBytes < 2 ^ 63)
    (h : verifierObjects cfg node owner state cell = .ok object) :
    1 ≤ cpuTotal cell ∧ cell.memoryUnitBytes ≤ needed cell ∧
      object.requests = verifierRequests cell (wrapInt64 (cpuTotal cell)) (memoryCount cell) ∧
      wrapInt64 (cpuTotal cell) ≤ cell.cpus ∧ memoryCount cell ≤ cell.memoryUnits := by
  unfold verifierObjects at h
  obtain ⟨⟨cpus, bytes⟩, hfoot, h⟩ := bind_eq_ok.mp h
  obtain ⟨hpos, rfl, rfl⟩ := footprint_eq hunit hrange hfoot
  have hcores : 0 ≤ (cell.openTPU.map OpenTPU.cpuCores).sum :=
    List.sum_nonneg (by simpa using fun profile hp => (hpos profile hp).1)
  have hbytes : 0 ≤ (cell.openTPU.map OpenTPU.memoryBytes).sum :=
    List.sum_nonneg (by simpa using fun profile hp => (hpos profile hp).2)
  have hcount : (wrapInt64 (wrapInt64 (wrapInt64 (needed cell) + cell.memoryUnitBytes) - 1)).tdiv
      cell.memoryUnitBytes = memoryCount cell := by
    rw [needed, wrapInt64_numerator]
    rfl
  dsimp only at h
  rw [hcount] at h
  split at h
  · cases h
  next hcpus =>
    split at h
    · cases h
    next hmemory =>
      obtain rfl := Except.ok.inj h
      refine ⟨?_, ?_, rfl, not_lt.mp hcpus, not_lt.mp hmemory⟩
      · rw [cpuTotal]
        omega
      · rw [needed]
        omega

end Footprint

section Requests

variable (cell) (cpus units : Int)

theorem requested_append (a b : List DeviceRequest) (deviceClass : String) :
    requested (a ++ b) deviceClass = requested a deviceClass + requested b deviceClass := by
  simp [requested]

theorem requested_eq_zero {requests : List DeviceRequest} {deviceClass : String}
    (h : ∀ r ∈ requests, r.deviceClass ≠ deviceClass) : requested requests deviceClass = 0 := by
  have hnil : requests.filter (fun r => r.deviceClass == deviceClass) = [] := by
    simpa using h
  rw [requested, hnil]
  rfl

def profileRequests : List DeviceRequest :=
  cell.openTPU.zipIdx.map (fun p => ⟨"opentpu-" ++ toString p.2, "opentpu.orchestration.gputpu.io", 1,
    openTPUNUMASelector p.1.profile cell.numa⟩)

theorem class_of_mem_profileRequests {r : DeviceRequest} (h : r ∈ profileRequests cell) :
    r.deviceClass = "opentpu.orchestration.gputpu.io" ∧ r.count = 1 := by
  obtain ⟨p, -, rfl⟩ := List.mem_map.mp h
  exact ⟨rfl, rfl⟩

theorem requested_verifierRequests :
    requested (verifierRequests cell cpus units) "cpu.orchestration.gputpu.io" = cpus ∧
    requested (verifierRequests cell cpus units) "memory.orchestration.gputpu.io" = units ∧
    requested (verifierRequests cell cpus units) "nvidia.orchestration.gputpu.io" =
      cell.gpus.length := by
  have hprofiles : ∀ deviceClass, deviceClass ≠ "opentpu.orchestration.gputpu.io" →
      requested (profileRequests cell) deviceClass = 0 := by
    intro deviceClass hne
    apply requested_eq_zero
    intro r hr heq
    exact hne (heq.symm.trans (class_of_mem_profileRequests cell hr).1)
  have hrequests : verifierRequests cell cpus units = _ ++ _ ++ profileRequests cell := rfl
  simp only [hrequests, requested_append, hprofiles "cpu.orchestration.gputpu.io" (by decide),
    hprofiles "memory.orchestration.gputpu.io" (by decide),
    hprofiles "nvidia.orchestration.gputpu.io" (by decide)]
  split
  next hnone => simp [requested, hnone]
  · simp [requested]

theorem sum_verifierRequests : ((verifierRequests cell cpus units).map DeviceRequest.count).sum =
    cpus + units + cell.gpus.length + cell.openTPU.length := by
  have hprofiles : ((profileRequests cell).map DeviceRequest.count).sum = cell.openTPU.length := by
    have hones : (profileRequests cell).map DeviceRequest.count =
        List.replicate cell.openTPU.length 1 := by
      rw [List.eq_replicate_iff]
      refine ⟨by simp [profileRequests], ?_⟩
      intro n hn
      obtain ⟨r, hr, rfl⟩ := List.mem_map.mp hn
      exact (class_of_mem_profileRequests cell hr).2
    rw [hones, List.sum_replicate, nsmul_eq_mul, mul_one]
  have hrequests : verifierRequests cell cpus units = _ ++ _ ++ profileRequests cell := rfl
  rw [hrequests, List.map_append, List.map_append, List.sum_append, List.sum_append, hprofiles]
  split
  next hnone => simp [hnone]
  · simp

theorem one_le_count (hcpus : 1 ≤ cpus) (hunits : 1 ≤ units) :
    ∀ r ∈ verifierRequests cell cpus units, 1 ≤ r.count := by
  intro r hr
  have hrequests : verifierRequests cell cpus units = _ ++ _ ++ profileRequests cell := rfl
  rw [hrequests, List.mem_append, List.mem_append] at hr
  obtain (hr | hr) | hr := hr
  · obtain rfl | rfl : r = _ ∨ r = _ := by simpa using hr
    · exact hcpus
    · exact hunits
  · split at hr
    · cases hr
    next hsome =>
      rw [List.mem_singleton.mp hr]
      have hpos := List.length_pos_iff.mpr hsome
      change (1 : Int) ≤ cell.gpus.length
      omega
  · rw [(class_of_mem_profileRequests cell hr).2]

theorem profile_requested {profile : OpenTPU} (h : profile ∈ cell.openTPU) :
    ∃ r ∈ verifierRequests cell cpus units, r.deviceClass = "opentpu.orchestration.gputpu.io" ∧
      r.count = 1 ∧ r.selector = openTPUNUMASelector profile.profile cell.numa := by
  obtain ⟨i, hi⟩ := List.mem_iff_getElem?.mp h
  have hmem : (profile, i) ∈ cell.openTPU.zipIdx := List.mem_zipIdx_iff_getElem?.mpr hi
  exact ⟨_, List.mem_append_right _ (List.mem_map.mpr ⟨(profile, i), hmem, rfl⟩), rfl, rfl, rfl⟩

end Requests

theorem validCell_of_decode {raw bootID : String} {inventory : Inventory}
    (h : decodeRecoveryInventory cfg raw bootID = .ok inventory) (hcell : cell ∈ inventory.cells) :
    ValidCell cell := by
  cases hu : cfg.unmarshalInventory raw with
  | none =>
    rw [decodeRecoveryInventory, hu] at h
    cases h
  | some found =>
    have hvalid := ((decode_accepts_iff hu).mp ⟨inventory, h⟩).2.2.2
    simp only [decodeRecoveryInventory, hu] at h
    split at h
    · cases h
    · split at h
      · cases h
      · obtain rfl := Except.ok.inj h
        exact hvalid cell hcell

theorem needed_le_iff (hunit : 1 ≤ cell.memoryUnitBytes) (hrange : cell.memoryUnitBytes < 2 ^ 63)
    (hneeded : 0 ≤ needed cell) : needed cell ≤ memoryCount cell * cell.memoryUnitBytes ↔
      needed cell + cell.memoryUnitBytes - 1 < 2 ^ 63 := by
  constructor
  · intro hcovers
    by_contra hwrap
    exact absurd hcovers (not_le.mpr (wrapped_count ⟨by omega, hrange⟩ (not_lt.mp hwrap)))
  · intro hfits
    rw [memoryCount, wrapInt64_of_range (by omega) hfits, Int.tdiv_eq_ediv_of_nonneg (by omega)]
    exact le_ceil (by omega)

theorem cpuTotal_le_iff (hpos : 1 ≤ cpuTotal cell) :
    cpuTotal cell ≤ wrapInt64 (cpuTotal cell) ↔ cpuTotal cell < 2 ^ 63 := by
  constructor
  · intro hle
    exact hle.trans_lt (wrapInt64_range _).2
  · intro hlt
    rw [wrapInt64_of_range (by omega) hlt]

theorem memoryCount_eq (hneeded : 0 ≤ needed cell) (hunit : 1 ≤ cell.memoryUnitBytes)
    (hfits : needed cell + cell.memoryUnitBytes - 1 < 2 ^ 63) :
    memoryCount cell = unitTotal cell := by
  rw [memoryCount, wrapInt64_of_range (by omega) hfits, Int.tdiv_eq_ediv_of_nonneg (by omega),
    unitTotal]

theorem one_le_unitTotal (hunit : 1 ≤ cell.memoryUnitBytes)
    (hneeded : cell.memoryUnitBytes ≤ needed cell) : 1 ≤ unitTotal cell := by
  rw [unitTotal, Int.le_ediv_iff_mul_le (by omega)]
  omega

/-- A verifier counts its CPUs and its memory in 64 bits, and has no check of how
many devices its claim asks for. -/
theorem allocatable_iff (cfg : Config) (raw bootID : String) (inventory : Inventory)
    (haccepted : decodeRecoveryInventory cfg raw bootID = .ok inventory) (cell : Cell)
    (hcell : cell ∈ inventory.cells) (hrange : cell.memoryUnitBytes < 2 ^ 63) (node : Node)
    (owner : String) (state : RecoveryState) (object : VerifierObject)
    (h : verifierObjects cfg node owner state cell = .ok object) :
    Allocatable cell object.requests ↔
      needed cell + cell.memoryUnitBytes - 1 < 2 ^ 63 ∧
        cpuTotal cell + unitTotal cell + cell.gpus.length + cell.openTPU.length ≤
          allocationResultsMaxSize := by
  obtain ⟨-, -, -, hunit⟩ := validCell_of_decode haccepted hcell
  obtain ⟨hpos, hneeded, hrequests, hcpus, hunits⟩ := verifierObjects_ok hunit hrange h
  obtain ⟨hcpu, hmemory, hgpu⟩ :=
    requested_verifierRequests cell (wrapInt64 (cpuTotal cell)) (memoryCount cell)
  rw [hrequests]
  constructor
  · intro ha
    have hcores := ha.cores
    rw [hcpu, cpuTotal_le_iff hpos] at hcores
    have hcovers := ha.covers
    rw [hmemory, needed_le_iff hunit hrange (by omega)] at hcovers
    have htotal := ha.total
    rw [sum_verifierRequests, wrapInt64_of_range (by omega) hcores,
      memoryCount_eq (by omega) hunit hcovers] at htotal
    exact ⟨hcovers, htotal⟩
  · rintro ⟨hfits, htotal⟩
    have hone := one_le_unitTotal hunit hneeded
    have hcores : wrapInt64 (cpuTotal cell) = cpuTotal cell := by
      have hmax : (allocationResultsMaxSize : Int) < 2 ^ 63 := by decide
      exact wrapInt64_of_range (by omega) (by omega)
    have hcount := memoryCount_eq (by omega) hunit hfits
    rw [hcores] at hcpu hmemory hgpu hcpus ⊢
    rw [hcount] at hcpu hmemory hgpu hunits ⊢
    refine ⟨one_le_count cell _ _ hpos hone, hcpu.le.trans hcpus, hcpu.ge, hmemory.le.trans hunits,
      ?_, hgpu, fun profile hp => profile_requested cell _ _ hp, ?_⟩
    · rw [hmemory, ← hcount, needed_le_iff hunit hrange (by omega)]
      exact hfits
    · rw [sum_verifierRequests]
      exact htotal

section Samples

/-- A NUMA node with units of 1 GiB and one slot of a simulator. -/
def simulatorCell (units memoryBytes : Int) : Cell :=
  ⟨0, 4, units, 1 <<< 30, [], [⟨"opentpu_small", 1, 8, 1, memoryBytes, 0⟩]⟩

def simulatorConfig (cell : Cell) : Config := readingConfig "inventory" ⟨1, "boot", [cell]⟩

def sampleState : RecoveryState :=
  { version := 1, incident := "incident", nodeName := "node", nodeUID := "uid", phase := .verifying
    startedAt := 0, phaseStartedAt := 0, preBootID := "boot", preInventory := "inventory"
    preInventoryHash := "" }

theorem allocatable_small : ∃ object, verifierObjects (simulatorConfig (simulatorCell 8 (1 <<< 30)))
    RecoveryRuns.sampleNode "owner" sampleState (simulatorCell 8 (1 <<< 30)) = .ok object ∧
      Allocatable (simulatorCell 8 (1 <<< 30)) object.requests := by
  have hok : okWith (verifierObjects (simulatorConfig (simulatorCell 8 (1 <<< 30)))
      RecoveryRuns.sampleNode "owner" sampleState (simulatorCell 8 (1 <<< 30)))
      (fun _ => true) = true := by
    decide +kernel
  obtain ⟨object, hobject, -⟩ := okWith_iff.mp hok
  exact ⟨object, hobject, (allocatable_iff (simulatorConfig (simulatorCell 8 (1 <<< 30))) "inventory"
    "boot" ⟨1, "boot", [simulatorCell 8 (1 <<< 30)]⟩ (by decide +kernel) (simulatorCell 8 (1 <<< 30))
    (by simp) (by decide) RecoveryRuns.sampleNode "owner" sampleState object hobject).mpr
    (by decide +kernel)⟩

/-- A simulator of 40 GiB takes 41 units of memory, more than a claim may hold. -/
theorem too_many_devices : ∃ object,
    decodeRecoveryInventory (simulatorConfig (simulatorCell 64 (40 <<< 30))) "inventory" "boot" =
      .ok ⟨1, "boot", [simulatorCell 64 (40 <<< 30)]⟩ ∧
    verifierObjects (simulatorConfig (simulatorCell 64 (40 <<< 30))) RecoveryRuns.sampleNode "owner"
      sampleState (simulatorCell 64 (40 <<< 30)) = .ok object ∧
      (object.requests.map DeviceRequest.count).sum = 44 ∧
      ¬ Allocatable (simulatorCell 64 (40 <<< 30)) object.requests := by
  have hok : okWith (verifierObjects (simulatorConfig (simulatorCell 64 (40 <<< 30)))
      RecoveryRuns.sampleNode "owner" sampleState (simulatorCell 64 (40 <<< 30)))
      (fun object => decide ((object.requests.map DeviceRequest.count).sum = 44)) = true := by
    decide +kernel
  obtain ⟨object, hobject, htotal⟩ := okWith_iff.mp hok
  rw [decide_eq_true_eq] at htotal
  refine ⟨object, by decide +kernel, hobject, htotal, ?_⟩
  intro h
  have hmost := h.total
  rw [htotal] at hmost
  exact absurd hmost (by decide)

end Samples

end HeteroCluster.VerifierClaims
