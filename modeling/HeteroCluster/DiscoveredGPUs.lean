import HeteroCluster.DiscoveredDevices

namespace HeteroCluster.DiscoveredGPUs

open GoStrings FailFast KeyedRecords ComputeInventory DiscoveredDevices
open ComputeDriver (DeviceKind LocalDevice)

/-- Only GPUs have a name with the letter of GPUs. -/
def OwnNames (devices : Devices) : Prop :=
  ∀ name d, devices.lookup name = some d → initial name = some 'g' → d.kind = .gpu

variable {host : Host} {s : Settings} {profiles : List OpenTPUProfile} {devices : Devices}
  {d : LocalDevice} {n : Int} {name : String}

theorem ownNames_of_traced (h : Traced host s profiles devices) : OwnNames devices := by
  intro name d hd hg
  exact absurd hg (h.kind_ne hd).2

section NumaNodes

theorem mem_numaNodes : n ∈ numaNodes devices ↔
    ∃ name d, devices.lookup name = some d ∧ (d.kind = .cpu ∨ d.kind = .memory) ∧ d.numa = n := by
  simp only [numaNodes, List.mem_insertionSort, List.mem_dedup, List.mem_map, List.mem_filter,
    mem_values, decide_eq_true_eq]
  constructor
  · rintro ⟨d, ⟨⟨name, hd⟩, hk⟩, hn⟩
    exact ⟨name, d, hd, hk, hn⟩
  · rintro ⟨name, d, hd, hk, hn⟩
    exact ⟨d, ⟨⟨name, hd⟩, hk⟩, hn⟩

theorem numaNodes_eq {devices' : Devices}
    (h : ∀ n, n ∈ numaNodes devices ↔ n ∈ numaNodes devices') :
    numaNodes devices = numaNodes devices' := by
  have hnodup : ∀ devices : Devices, (numaNodes devices).Nodup := by
    intro devices
    exact (List.perm_insertionSort _ _).nodup_iff.mpr (List.nodup_dedup _)
  have hperm : (numaNodes devices).Perm (numaNodes devices') :=
    (List.perm_ext_iff_of_nodup (hnodup _) (hnodup _)).mpr h
  exact hperm.eq_of_pairwise (fun a b _ _ hab hba => Int.le_antisymm hab hba)
    (List.pairwise_insertionSort _ _) (List.pairwise_insertionSort _ _)

/-- A GPU takes the place of no other device and leaves the NUMA nodes alone. -/
theorem OwnNames.store_gpu (h : OwnNames devices) (row : GPURow) (dxg : Bool) (n : Int) :
    OwnNames (store LocalDevice.name devices (gpuDevice dxg row n)) ∧
      numaNodes (store LocalDevice.name devices (gpuDevice dxg row n)) = numaNodes devices := by
  have hname : (gpuDevice dxg row n).name = gpuName row.uuid := rfl
  have hkind : (gpuDevice dxg row n).kind = .gpu := rfl
  constructor
  · intro name d hd hg
    by_cases heq : name = gpuName row.uuid
    · rw [store, heq, hname, AList.lookup_insert] at hd
      rw [← Option.some.inj hd, hkind]
    · rw [store, hname, AList.lookup_insert_ne heq] at hd
      exact h name d hd hg
  · apply numaNodes_eq
    intro m
    rw [mem_numaNodes, mem_numaNodes]
    constructor
    · rintro ⟨name, d, hd, hk, hn⟩
      by_cases heq : name = gpuName row.uuid
      · rw [store, heq, hname, AList.lookup_insert] at hd
        rw [← Option.some.inj hd, hkind] at hk
        simp at hk
      · rw [store, hname, AList.lookup_insert_ne heq] at hd
        exact ⟨name, d, hd, hk, hn⟩
    · rintro ⟨name, d, hd, hk, hn⟩
      refine ⟨name, d, ?_, hk, hn⟩
      rw [store, hname, AList.lookup_insert_ne, hd]
      rintro rfl
      have := h _ d hd (initial_gpuName row.uuid)
      simp [this] at hk

end NumaNodes

/-- The rows before the first bad one. -/
def gpuRows : List (List String) → List GPURow
  | [] => []
  | parts :: rest =>
    match parseGPU parts with
    | .error _ => []
    | .ok row => row :: gpuRows rest

/-- The rows that `nvidia-smi` reports for the inventory. -/
def reportedRows (host : Host) : List GPURow :=
  match host.nvidiaSMI with
  | .output (.ok table) => gpuRows table.rows
  | _ => []

/-- Where a GPU is put: at its own NUMA node, or at the only one there is. -/
def placeOf (host : Host) (devices : Devices) (row : GPURow) : Option Int :=
  match gpuNUMA host.sysfs row.pci with
  | some numa => some numa
  | none => if (numaNodes devices).length ≠ 1 then none else some ((numaNodes devices).headD 0)

def gpuDevices (host : Host) (devices : Devices) : List LocalDevice :=
  (reportedRows host).filterMap
    (fun row => (placeOf host devices row).map (gpuDevice host.dxg row))

theorem addGPUs_fst (host : Host) (count : Nat) (rows : List (List String)) (devices : Devices) :
    (addGPUs host count devices rows).1 = (gpuRows rows).foldl (addGPU host count) devices := by
  induction rows generalizing devices with
  | nil => rfl
  | cons parts rest ih =>
    cases hp : parseGPU parts with
    | error e => simp [addGPUs, gpuRows, hp]
    | ok row =>
      simp only [addGPUs, gpuRows, hp]
      exact ih _

theorem addGPU_eq {base : Devices} (row : GPURow) (hn : numaNodes devices = numaNodes base) :
    addGPU host (numaNodes base).length devices row =
      (placeOf host base row).elim devices
        (fun n => store LocalDevice.name devices (gpuDevice host.dxg row n)) := by
  unfold addGPU placeOf
  cases gpuNUMA host.sysfs row.pci with
  | some numa => rfl
  | none =>
    by_cases hone : (numaNodes base).length = 1
    · simp [hone, hn]
    · simp [hone]

theorem foldl_addGPU {base : Devices} (rows : List GPURow) (h : OwnNames devices)
    (hn : numaNodes devices = numaNodes base) :
    rows.foldl (addGPU host (numaNodes base).length) devices =
      storeAll LocalDevice.name
        (rows.filterMap (fun row => (placeOf host base row).map (gpuDevice host.dxg row))) devices := by
  induction rows generalizing devices with
  | nil => rfl
  | cons row rows ih =>
    rw [List.foldl_cons, addGPU_eq row hn]
    cases hp : placeOf host base row with
    | none =>
      rw [List.filterMap_cons_none (by rw [hp]; rfl)]
      exact ih h hn
    | some n =>
      obtain ⟨hown, hnodes⟩ := h.store_gpu row host.dxg n
      rw [List.filterMap_cons_some (by rw [hp]; rfl), storeAll_cons]
      exact ih hown (hnodes.trans hn)

theorem discoverNVIDIA_fst (h : OwnNames devices) : (discoverNVIDIA host devices).1 =
    storeAll LocalDevice.name (gpuDevices host devices) devices := by
  unfold discoverNVIDIA gpuDevices reportedRows
  cases hq : host.nvidiaSMI with
  | missing => rfl
  | failed e => rfl
  | output table =>
    cases table with
    | error e => rfl
    | ok table => exact (addGPUs_fst _ _ _ _).trans (foldl_addGPU _ h rfl)

theorem mem_gpuDevices : d ∈ gpuDevices host devices ↔
    ∃ row ∈ reportedRows host, ∃ n, placeOf host devices row = some n ∧
      gpuDevice host.dxg row n = d := by
  simp [gpuDevices]

theorem gpuName_inj {a b : String} (h : gpuName a = gpuName b) : toLower a = toLower b :=
  (String.append_right_inj _).mp h

theorem lookup_gpuDevice {row : GPURow} {n : Int}
    (hnames : ((reportedRows host).map (fun row => toLower row.uuid)).Nodup)
    (hrow : row ∈ reportedRows host) (hplace : placeOf host devices row = some n) :
    (storeAll LocalDevice.name (gpuDevices host devices) devices).lookup
      (gpuDevice host.dxg row n).name = some (gpuDevice host.dxg row n) := by
  apply lookup_storeAll_of_mem (mem_gpuDevices.mpr ⟨row, hrow, n, hplace, rfl⟩)
  intro d hd hname
  obtain ⟨row', hrow', m, hplace', rfl⟩ := mem_gpuDevices.mp hd
  obtain rfl := List.inj_on_of_nodup_map hnames hrow' hrow (gpuName_inj hname)
  rw [hplace] at hplace'
  rw [Option.some.inj hplace']

theorem discoverInventory_spec {order : CPUOrders} {inv : ComputeDriver.Inventory}
    (h : discoverInventory order host = .ok inv) :
    ∃ s profiles base, Configured host s profiles ∧ discoverLocal order host = .ok base ∧
      Traced host s profiles base ∧
      inv = ⟨host.nodeName, storeAll LocalDevice.name (gpuDevices host base) base⟩ := by
  simp only [discoverInventory, bind_eq_ok, pure_eq_ok] at h
  obtain ⟨base, hbase, rfl⟩ := h
  obtain ⟨s, profiles, hconf, htraced⟩ := discoverLocal_traced hbase
  exact ⟨s, profiles, base, hconf, hbase, htraced,
    by rw [discoverNVIDIA_fst (ownNames_of_traced htraced)]⟩

/-- Every device is filed under its name, and those that are not GPUs have an
origin. -/
theorem discoverInventory_origin {order : CPUOrders} {inv : ComputeDriver.Inventory}
    (h : discoverInventory order host = .ok inv) :
    ∃ s profiles, Configured host s profiles ∧ Filed LocalDevice.name inv.devices ∧
      ∀ d ∈ values inv.devices, d.kind ≠ .gpu → Origin host s profiles d := by
  obtain ⟨s, profiles, base, hconf, -, ht, rfl⟩ := discoverInventory_spec h
  have hfiled : Filed LocalDevice.name base := fun name d hd => (ht name d hd).1
  refine ⟨s, profiles, hconf, hfiled.storeAll _, ?_⟩
  intro d hd hk
  obtain ⟨name, hl⟩ := mem_values.mp hd
  obtain ⟨hgpu, -⟩ | hl := of_lookup_storeAll hl
  · obtain ⟨row, -, n, -, rfl⟩ := mem_gpuDevices.mp hgpu
    exact absurd rfl hk
  · exact (ht name d hl).2

section Failure

/-- If the discovery of the GPUs fails, it leaves the devices found before it,
and the inventory is one without a GPU. -/
structure AllOrNothing (order : CPUOrders) (host : Host) (base : Devices) : Prop where
  unchanged : (discoverNVIDIA host base).2 ≠ none →
    ∀ name, (discoverNVIDIA host base).1.lookup name = base.lookup name
  published : (discoverNVIDIA host base).2 ≠ none →
    ∀ inv, discoverInventory order host = .ok inv → ∀ d ∈ values inv.devices, d.kind ≠ .gpu

theorem gpuDevices_eq_nil_iff : gpuDevices host devices = [] ↔
    ∀ row ∈ reportedRows host,
      gpuNUMA host.sysfs row.pci = none ∧ (numaNodes devices).length ≠ 1 := by
  rw [gpuDevices, List.filterMap_eq_nil_iff]
  apply forall₂_congr
  intro row _
  rw [Option.map_eq_none_iff, placeOf]
  cases gpuNUMA host.sysfs row.pci with
  | some numa => simp
  | none => simp

/-- A GPU of a row before the first bad one stays in the map. -/
theorem allOrNothing_iff (order : CPUOrders) (host : Host) (base : Devices)
    (hbase : discoverLocal order host = .ok base) (hfailed : (discoverNVIDIA host base).2 ≠ none) :
    AllOrNothing order host base ↔ ∀ row ∈ reportedRows host,
      gpuNUMA host.sysfs row.pci = none ∧ (numaNodes base).length ≠ 1 := by
  obtain ⟨s, profiles, -, htraced⟩ := discoverLocal_traced hbase
  have hstored : (discoverNVIDIA host base).1 =
      storeAll LocalDevice.name (gpuDevices host base) base :=
    discoverNVIDIA_fst (ownNames_of_traced htraced)
  rw [← gpuDevices_eq_nil_iff]
  constructor
  · intro h
    rw [List.eq_nil_iff_forall_not_mem]
    intro d hd
    obtain ⟨row, -, n, -, rfl⟩ := mem_gpuDevices.mp hd
    obtain ⟨d', -, -, hl⟩ := exists_lookup_storeAll LocalDevice.name base hd
    rw [← hstored, h.unchanged hfailed] at hl
    exact (htraced.kind_ne hl).2 (initial_gpuName row.uuid)
  · intro hnone
    rw [hnone] at hstored
    refine ⟨fun _ name => by rw [hstored]; rfl, ?_⟩
    intro _ inv hinv d hd
    have hinv : inv = ⟨host.nodeName, base⟩ := by
      simp only [discoverInventory, bind_eq_ok, pure_eq_ok] at hinv
      obtain ⟨base', hbase', rfl⟩ := hinv
      obtain rfl := Except.ok.inj (hbase.symm.trans hbase')
      rw [hstored]
      rfl
    rw [hinv] at hd
    obtain ⟨name, hl⟩ := mem_values.mp hd
    exact (htraced.kind_ne hl).1

end Failure

section Sample

def sampleNode (node : Nat) : NodeDir :=
  ⟨node, some ("Node " ++ toString node ++ " MemTotal: 3145728 kB")⟩

def sampleCPU (cpu : Nat) : CPUDir := ⟨cpu, some "1", some "0", some (toString cpu), [0]⟩

theorem sampleCPUs_nodup : ([sampleCPU 0, sampleCPU 1].map CPUDir.cpu).Nodup := by decide

def sampleSysfs (nodes : List Nat) (h : nodes.Nodup) (numaNode : String → Option String) : Sysfs where
  cpus := [sampleCPU 0, sampleCPU 1]
  nodes := nodes.map sampleNode
  numaNode := numaNode
  cpus_nodup := sampleCPUs_nodup
  nodes_nodup := by
    have hid : NodeDir.node ∘ sampleNode = id := rfl
    rwa [List.map_map, hid, List.map_id]

theorem oneNode_nodup : [0].Nodup := List.nodup_singleton 0

theorem twoNodes_nodup : [0, 1].Nodup := by decide

def sampleHost (sys : Sysfs) (profiles : List OpenTPUProfile) (nvidiaSMI : Query) : Host where
  nodeName := "node"
  sysfs := sys
  annotations := [("orchestration.gputpu.io/opentpu-profiles", "profiles")]
  quantity raw := if raw = "1Gi" then some 1073741824 else none
  quantity_lt := by
    intro raw v h
    split at h
    · obtain rfl := Option.some.inj h
      decide
    · cases h
  unmarshalOpenTPU _ := some ⟨1, profiles⟩
  nvidiaSMI := nvidiaSMI
  dxg := false

def oneNodeHost : Host :=
  sampleHost (sampleSysfs [0] oneNode_nodup (fun _ => none)) [] .missing

/-- The row of a GPU, and then one whose index is not a number. -/
def brokenTable : Table where
  rows := [["0", "GPU-1", "A100", "81920", "0000:01:00.0"], ["x", "GPU-2", "A100", "1", "2"]]
  sameFields := by decide

def brokenHost (nodes : List Nat) (h : nodes.Nodup) : Host :=
  sampleHost (sampleSysfs nodes h (fun _ => none)) [] (.output (.ok brokenTable))

/-- With two nodes the place of the GPU is unknown, and nothing is stored. -/
theorem allOrNothing_twoNodes : ∃ base,
    discoverLocal .same (brokenHost [0, 1] twoNodes_nodup) = .ok base ∧
      AllOrNothing .same (brokenHost [0, 1] twoNodes_nodup) base := by
  have hfound : okWith (discoverLocal .same (brokenHost [0, 1] twoNodes_nodup)) (fun base =>
      (discoverNVIDIA (brokenHost [0, 1] twoNodes_nodup) base).2.isSome &&
        decide (∀ row ∈ reportedRows (brokenHost [0, 1] twoNodes_nodup),
          gpuNUMA (brokenHost [0, 1] twoNodes_nodup).sysfs row.pci = none ∧
            (numaNodes base).length ≠ 1)) = true := by
    decide +kernel
  obtain ⟨base, hbase, htest⟩ := okWith_iff.mp hfound
  rw [Bool.and_eq_true, decide_eq_true_eq] at htest
  exact ⟨base, hbase, (allOrNothing_iff .same _ base hbase
    (Option.isSome_iff_ne_none.mp htest.1)).mpr htest.2⟩

/-- On a host of one node the GPU before the bad row is published. -/
theorem gpu_left_published : ∃ base,
    discoverLocal .same (brokenHost [0] oneNode_nodup) = .ok base ∧
      (discoverNVIDIA (brokenHost [0] oneNode_nodup) base).2.isSome = true ∧
      ¬ AllOrNothing .same (brokenHost [0] oneNode_nodup) base ∧
      ∃ inv, discoverInventory .same (brokenHost [0] oneNode_nodup) = .ok inv ∧
        ∃ d ∈ values inv.devices, d.kind = .gpu := by
  have hfound : okWith (discoverLocal .same (brokenHost [0] oneNode_nodup)) (fun base =>
      (discoverNVIDIA (brokenHost [0] oneNode_nodup) base).2.isSome) = true := by
    decide +kernel
  obtain ⟨base, hbase, hfailed⟩ := okWith_iff.mp hfound
  have hpublished : okWith (discoverInventory .same (brokenHost [0] oneNode_nodup))
      (fun inv => decide (∃ d ∈ values inv.devices, d.kind = .gpu)) = true := by
    decide +kernel
  obtain ⟨inv, hinv, hgpu⟩ := okWith_iff.mp hpublished
  obtain ⟨d, hd, hkind⟩ := of_decide_eq_true hgpu
  refine ⟨base, hbase, hfailed, ?_, inv, hinv, d, hd, hkind⟩
  intro h
  exact h.published (Option.isSome_iff_ne_none.mp hfailed) inv hinv d hd hkind

end Sample

end HeteroCluster.DiscoveredGPUs
