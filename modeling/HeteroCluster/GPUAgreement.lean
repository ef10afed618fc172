import HeteroCluster.DiscoveredGPUs
import HeteroCluster.InventoryCells
import HeteroCluster.WatchdogHealth

namespace HeteroCluster.GPUAgreement

open GoStrings FailFast KeyedRecords ComputeInventory DiscoveredDevices DiscoveredGPUs
open InventoryCells WatchdogHealth
open ComputeDriver (DeviceKind LocalDevice)
open HardwareInventory (GPU Cell Inventory normalizeGPU normalizeGPU_trimSpace)

/-- A GPU as it stands in the fields of the CSV output. -/
structure ReportedGPU where
  index : String
  uuid : String
  name : String
  memory : String
  bus : String

namespace ReportedGPU

def inventoryRow (g : ReportedGPU) : List String := [g.index, g.uuid, g.name, g.memory, g.bus]

def healthRow (g : ReportedGPU) : List String := [g.uuid, g.name, g.bus]

/-- The CSV of a query that reports a fixed number of fields of each GPU. -/
def table (row : ReportedGPU → List String) (n : Nat) (h : ∀ g, (row g).length = n)
    (gpus : List ReportedGPU) : Table where
  rows := gpus.map row
  sameFields := by
    cases gpus with
    | nil => simp
    | cons g gpus => simp [h]

def inventoryTable : List ReportedGPU → Table := table inventoryRow 5 (fun _ => rfl)

def healthTable : List ReportedGPU → Table := table healthRow 3 (fun _ => rfl)

theorem rows_healthTable (gpus : List ReportedGPU) :
    (healthTable gpus).rows = gpus.map healthRow := rfl

structure WellFormed (g : ReportedGPU) : Prop where
  index : (atoi (trimSpace g.index)).isSome
  memory : (atoi (trimSpace g.memory)).isSome
  uuid : trimSpace g.uuid ≠ ""

/-- What both queries report of a GPU, up to blanks around the fields. -/
def identity (g : ReportedGPU) : String × String × String :=
  (trimSpace g.uuid, trimSpace g.name, trimSpace g.bus)

def pci (g : ReportedGPU) : String := toLower (trimSpace g.bus)

def row (g : ReportedGPU) : GPURow :=
  ⟨(atoi (trimSpace g.index)).getD 0, trimSpace g.uuid, trimSpace g.name,
    (atoi (trimSpace g.memory)).getD 0, g.pci⟩

def hardware (g : ReportedGPU) : GPU := ⟨trimSpace g.uuid, normalizeGPU (trimSpace g.name), g.pci⟩

end ReportedGPU

theorem gpuOf_gpuDevice (dxg : Bool) (g : ReportedGPU) (n : Int) :
    gpuOf (gpuDevice dxg g.row n) = g.hardware := by
  simp only [gpuOf, gpuDevice, ReportedGPU.row, ReportedGPU.hardware]

section Queries

variable {gpus gpus' : List ReportedGPU}

theorem gpuRows_inventory (h : ∀ g ∈ gpus, g.WellFormed) :
    gpuRows (gpus.map ReportedGPU.inventoryRow) = gpus.map ReportedGPU.row := by
  induction gpus with
  | nil => rfl
  | cons g gpus ih =>
    obtain ⟨hindex, hmemory, huuid⟩ := h g List.mem_cons_self
    obtain ⟨index, hindex⟩ := Option.isSome_iff_exists.mp hindex
    obtain ⟨memory, hmemory⟩ := Option.isSome_iff_exists.mp hmemory
    have hparse : parseGPU g.inventoryRow = .ok g.row := by
      simp [ReportedGPU.inventoryRow, ReportedGPU.row, ReportedGPU.pci, parseGPU, hindex, hmemory,
        huuid]
    simp only [List.map_cons, gpuRows, hparse, ih (fun g hg => h g (List.mem_cons_of_mem _ hg))]

theorem mapM_health (gpus : List ReportedGPU) :
    (gpus.map ReportedGPU.healthRow).mapM reportedGPU = .ok (gpus.map ReportedGPU.hardware) := by
  induction gpus with
  | nil => rfl
  | cons g gpus ih =>
    have hone : reportedGPU g.healthRow = .ok g.hardware := by
      simp [reportedGPU, ReportedGPU.healthRow, ReportedGPU.hardware, ReportedGPU.pci,
        normalizeGPU_trimSpace]
    simp only [List.map_cons, List.mapM_cons, bind_eq_ok, pure_eq_ok]
    exact ⟨_, hone, _, ih, rfl⟩

theorem hardware_perm (h : (gpus'.map ReportedGPU.identity).Perm (gpus.map ReportedGPU.identity)) :
    (gpus'.map ReportedGPU.hardware).Perm (gpus.map ReportedGPU.hardware) := by
  have hfactor : ∀ gpus : List ReportedGPU, gpus.map ReportedGPU.hardware =
      (gpus.map ReportedGPU.identity).map
        (fun t => (⟨t.1, normalizeGPU t.2.1, toLower t.2.2⟩ : GPU)) := by
    intro gpus
    rw [List.map_map]
    rfl
  rw [hfactor, hfactor]
  exact h.map _

end Queries

section Check

variable {inventory : Inventory} {gpus gpus' : List ReportedGPU}

theorem hardware_of_uuid_eq (hdistinct : (gpus.map (fun g => trimSpace g.uuid)).Nodup) :
    ∀ a ∈ gpus.map ReportedGPU.hardware, ∀ b ∈ gpus.map ReportedGPU.hardware,
      b.uuid = a.uuid → b = a := by
  have huuids : ((gpus.map ReportedGPU.hardware).map GPU.uuid).Nodup := by
    rw [List.map_map]
    exact hdistinct
  intro a ha b hb hab
  exact List.inj_on_of_nodup_map huuids hb ha hab

theorem entries_expectedGPUs
    (hexpected : ∀ a ∈ inventory.cells.flatMap Cell.gpus, ∀ b ∈ inventory.cells.flatMap Cell.gpus,
      b.uuid = a.uuid → b = a) :
    (expectedGPUs inventory).entries = [] ↔ inventory.cells.flatMap Cell.gpus = [] := by
  constructor
  · intro hnone
    rw [List.eq_nil_iff_forall_not_mem]
    intro g hg
    have hl := AList.mem_lookup_iff.mp ((lookup_storeAll_iff hexpected).mpr ⟨hg, rfl⟩)
    rw [← expectedGPUs, hnone] at hl
    cases hl
  · intro hnil
    rw [expectedGPUs, hnil]
    rfl

/-- Two lists whose records have keys of their own store the same, if the first is
among the second, exactly if the second is among the first. -/
theorem mapsEqual_storeAll {expected actual : List GPU}
    (hexpected : ∀ a ∈ expected, ∀ b ∈ expected, b.uuid = a.uuid → b = a)
    (hactual : ∀ a ∈ actual, ∀ b ∈ actual, b.uuid = a.uuid → b = a)
    (hsub : expected ⊆ actual) :
    mapsEqual (storeAll GPU.uuid expected ∅) (storeAll GPU.uuid actual ∅) = true ↔
      actual ⊆ expected := by
  rw [mapsEqual_iff]
  constructor
  · intro h g hg
    have hl := (lookup_storeAll_iff hactual).mpr ⟨hg, rfl⟩
    rw [← h] at hl
    exact ((lookup_storeAll_iff hexpected).mp hl).1
  · intro h u
    apply Option.ext
    intro g
    rw [lookup_storeAll_iff hexpected, lookup_storeAll_iff hactual]
    exact and_congr_left fun _ => ⟨fun hg => hsub hg, fun hg => h hg⟩

/-- The check passes if no GPU is expected, or if all that are reported are. -/
theorem checkNVIDIA_iff
    (hexpected : ∀ a ∈ inventory.cells.flatMap Cell.gpus, ∀ b ∈ inventory.cells.flatMap Cell.gpus,
      b.uuid = a.uuid → b = a)
    (hreported : ∀ g ∈ inventory.cells.flatMap Cell.gpus, g ∈ gpus.map ReportedGPU.hardware)
    (hdistinct : (gpus.map (fun g => trimSpace g.uuid)).Nodup)
    (hsame : (gpus'.map ReportedGPU.identity).Perm (gpus.map ReportedGPU.identity)) :
    checkNVIDIA inventory (.output (.ok (ReportedGPU.healthTable gpus'))) = .ok () ↔
      inventory.cells.flatMap Cell.gpus = [] ∨
        ∀ g ∈ gpus, g.hardware ∈ inventory.cells.flatMap Cell.gpus := by
  have hperm := hardware_perm hsame
  have hactual : ∀ a ∈ gpus'.map ReportedGPU.hardware, ∀ b ∈ gpus'.map ReportedGPU.hardware,
      b.uuid = a.uuid → b = a := by
    intro a ha b hb
    exact hardware_of_uuid_eq hdistinct a (hperm.mem_iff.mp ha) b (hperm.mem_iff.mp hb)
  have hsub : inventory.cells.flatMap Cell.gpus ⊆ gpus'.map ReportedGPU.hardware :=
    fun g hg => hperm.mem_iff.mpr (hreported g hg)
  have hequal : mapsEqual (expectedGPUs inventory)
      (storeAll GPU.uuid (gpus'.map ReportedGPU.hardware) ∅) = true ↔
      ∀ g ∈ gpus, g.hardware ∈ inventory.cells.flatMap Cell.gpus := by
    rw [expectedGPUs, mapsEqual_storeAll hexpected hactual hsub]
    simp only [List.subset_def, hperm.mem_iff, List.forall_mem_map]
  unfold checkNVIDIA
  split
  next hnone => simp [(entries_expectedGPUs hexpected).mp hnone]
  next hsome =>
    have hne : inventory.cells.flatMap Cell.gpus ≠ [] :=
      fun hnil => hsome ((entries_expectedGPUs hexpected).mpr hnil)
    simp only [ReportedGPU.rows_healthTable, mapM_health, bind_eq_ok, Except.ok.injEq,
      exists_eq_left', refuse_eq_ok, Bool.not_eq_false, hequal, hne, false_or]

end Check

section Kept

variable {host : Host} {s : Settings} {profiles : List OpenTPUProfile} {devices : Devices}
  {d : LocalDevice}

theorem gpu_mem_iff (ht : Traced host s profiles devices) :
    d ∈ values (storeAll LocalDevice.name (gpuDevices host devices) devices) ∧ d.kind = .gpu ↔
      d ∈ gpuDevices host devices ∧
        (storeAll LocalDevice.name (gpuDevices host devices) devices).lookup d.name = some d := by
  constructor
  · rintro ⟨hd, hk⟩
    obtain ⟨name, hl⟩ := mem_values.mp hd
    obtain ⟨hmem, rfl⟩ | hbase := of_lookup_storeAll hl
    · exact ⟨hmem, hl⟩
    · exact absurd hk (ht.kind_ne hbase).1
  · rintro ⟨hmem, hl⟩
    obtain ⟨row, -, n, -, rfl⟩ := mem_gpuDevices.mp hmem
    exact ⟨mem_values.mpr ⟨_, hl⟩, rfl⟩

theorem name_gpuDevices (h : d ∈ gpuDevices host devices) : d.name = gpuName d.uuid := by
  obtain ⟨row, -, n, -, rfl⟩ := mem_gpuDevices.mp h
  rfl

theorem eq_of_uuid_eq {e : LocalDevice} (ht : Traced host s profiles devices)
    (hd : d ∈ values (storeAll LocalDevice.name (gpuDevices host devices) devices) ∧ d.kind = .gpu)
    (he : e ∈ values (storeAll LocalDevice.name (gpuDevices host devices) devices) ∧ e.kind = .gpu)
    (h : e.uuid = d.uuid) : e = d := by
  obtain ⟨hd, hld⟩ := (gpu_mem_iff ht).mp hd
  obtain ⟨he, hle⟩ := (gpu_mem_iff ht).mp he
  rw [name_gpuDevices he, h, ← name_gpuDevices hd, hld] at hle
  exact (Option.some.inj hle).symm

section Rows

variable {gpus : List ReportedGPU} {g : ReportedGPU}

theorem mem_gpuDevices_iff (hrows : reportedRows host = gpus.map ReportedGPU.row) :
    d ∈ gpuDevices host devices ↔
      ∃ g ∈ gpus, ∃ n, placeOf host devices g.row = some n ∧ gpuDevice host.dxg g.row n = d := by
  rw [mem_gpuDevices, hrows]
  simp only [List.mem_map, exists_exists_and_eq_and]

theorem placed_of_gpuOf (hrows : reportedRows host = gpus.map ReportedGPU.row)
    (hdistinct : (gpus.map (fun g => trimSpace g.uuid)).Nodup) (hg : g ∈ gpus)
    (hd : d ∈ gpuDevices host devices) (heq : gpuOf d = g.hardware) :
    ∃ n, placeOf host devices g.row = some n ∧ d = gpuDevice host.dxg g.row n := by
  obtain ⟨g', hg', n, hplace, rfl⟩ := (mem_gpuDevices_iff hrows).mp hd
  obtain rfl := List.inj_on_of_nodup_map hdistinct hg' hg (congrArg GPU.uuid heq)
  exact ⟨n, hplace, rfl⟩

/-- Every reported GPU is in the inventory exactly if each has a place and no two
have the same name. -/
theorem all_kept_iff (ht : Traced host s profiles devices)
    (hrows : reportedRows host = gpus.map ReportedGPU.row)
    (hdistinct : (gpus.map (fun g => trimSpace g.uuid)).Nodup) :
    (∀ g ∈ gpus, ∃ d ∈ values (storeAll LocalDevice.name (gpuDevices host devices) devices),
        d.kind = .gpu ∧ gpuOf d = g.hardware) ↔
      (∀ g ∈ gpus, (placeOf host devices g.row).isSome) ∧
        (gpus.map (fun g => toLower (trimSpace g.uuid))).Nodup := by
  constructor
  · intro hall
    have hkept : ∀ g ∈ gpus, ∃ n, placeOf host devices g.row = some n ∧
        (storeAll LocalDevice.name (gpuDevices host devices) devices).lookup
          (gpuDevice host.dxg g.row n).name = some (gpuDevice host.dxg g.row n) := by
      intro g hg
      obtain ⟨d, hd, hk, heq⟩ := hall g hg
      obtain ⟨hd, hl⟩ := (gpu_mem_iff ht).mp ⟨hd, hk⟩
      obtain ⟨n, hplace, rfl⟩ := placed_of_gpuOf hrows hdistinct hg hd heq
      exact ⟨n, hplace, hl⟩
    constructor
    · intro g hg
      obtain ⟨n, hplace, -⟩ := hkept g hg
      simp [hplace]
    · apply List.Nodup.map_on _ (hdistinct.of_map _)
      intro a ha b hb hab
      obtain ⟨n, -, hla⟩ := hkept a ha
      obtain ⟨m, -, hlb⟩ := hkept b hb
      have hname : (gpuDevice host.dxg a.row n).name = (gpuDevice host.dxg b.row m).name :=
        congrArg ("gpu-" ++ ·) hab
      rw [hname, hlb] at hla
      have huuid := congrArg LocalDevice.uuid (Option.some.inj hla)
      exact List.inj_on_of_nodup_map hdistinct ha hb huuid.symm
  · rintro ⟨hplaced, hlower⟩ g hg
    obtain ⟨n, hplace⟩ := Option.isSome_iff_exists.mp (hplaced g hg)
    have hmem := (mem_gpuDevices_iff hrows).mpr ⟨g, hg, n, hplace, rfl⟩
    have hnames : ((reportedRows host).map (fun row => toLower row.uuid)).Nodup := by
      rw [hrows, List.map_map]
      exact hlower
    have hrow : g.row ∈ reportedRows host := by
      rw [hrows]
      exact List.mem_map_of_mem hg
    obtain ⟨hvalues, hk⟩ := (gpu_mem_iff ht).mpr ⟨hmem, lookup_gpuDevice hnames hrow hplace⟩
    exact ⟨gpuDevice host.dxg g.row n, hvalues, hk, gpuOf_gpuDevice _ _ _⟩

theorem none_kept_iff (ht : Traced host s profiles devices)
    (hrows : reportedRows host = gpus.map ReportedGPU.row) :
    (∀ d ∈ values (storeAll LocalDevice.name (gpuDevices host devices) devices), d.kind ≠ .gpu) ↔
      ∀ g ∈ gpus, placeOf host devices g.row = none := by
  constructor
  · intro hnone g hg
    rw [Option.eq_none_iff_forall_ne_some]
    intro n hplace
    have hmem := (mem_gpuDevices_iff hrows).mpr ⟨g, hg, n, hplace, rfl⟩
    obtain ⟨b, hb, hname, hl⟩ := exists_lookup_storeAll LocalDevice.name devices hmem
    rw [← hname] at hl
    obtain ⟨hb, hk⟩ := (gpu_mem_iff ht).mpr ⟨hb, hl⟩
    exact hnone b hb hk
  · intro hplace d hd hk
    obtain ⟨hmem, -⟩ := (gpu_mem_iff ht).mp ⟨hd, hk⟩
    obtain ⟨g, hg, n, hsome, -⟩ := (mem_gpuDevices_iff hrows).mp hmem
    rw [hplace g hg] at hsome
    cases hsome

end Rows

end Kept

/-- The locality of the GPUs on a host with this many NUMA nodes lets the watchdog
see what was published: none could be placed, or all were, under names of their own. -/
def Locatable (sys : Sysfs) (numaCount : Nat) (gpus : List ReportedGPU) : Prop :=
  (numaCount ≠ 1 ∧ ∀ g ∈ gpus, gpuNUMA sys g.pci = none) ∨
    ((numaCount = 1 ∨ ∀ g ∈ gpus, (gpuNUMA sys g.pci).isSome) ∧
      (gpus.map (fun g => toLower (trimSpace g.uuid))).Nodup)

instance (sys : Sysfs) (numaCount : Nat) (gpus : List ReportedGPU) :
    Decidable (Locatable sys numaCount gpus) :=
  inferInstanceAs (Decidable (_ ∨ _))

theorem locatable_iff {host : Host} {devices : Devices} {gpus : List ReportedGPU} :
    Locatable host.sysfs (numaNodes devices).length gpus ↔
      (∀ g ∈ gpus, placeOf host devices g.row = none) ∨
        (∀ g ∈ gpus, (placeOf host devices g.row).isSome) ∧
          (gpus.map (fun g => toLower (trimSpace g.uuid))).Nodup := by
  have hpci : ∀ g : ReportedGPU, g.row.pci = g.pci := fun _ => rfl
  by_cases hone : (numaNodes devices).length = 1
  · have hplace : ∀ g : ReportedGPU, (placeOf host devices g.row).isSome := by
      intro g
      unfold placeOf
      cases gpuNUMA host.sysfs g.row.pci <;> simp [hone]
    have hempty : (∀ g ∈ gpus, placeOf host devices g.row = none) → gpus = [] := by
      intro h
      rw [List.eq_nil_iff_forall_not_mem]
      intro g hg
      have := hplace g
      simp [h g hg] at this
    simp only [Locatable, hone, ne_eq, not_true_eq_false, false_and, false_or, true_or, true_and,
      hplace, implies_true]
    constructor
    · exact Or.inr
    · rintro (h | h)
      · simp [hempty h]
      · exact h
  · have hplace : ∀ g : ReportedGPU, placeOf host devices g.row = gpuNUMA host.sysfs g.pci := by
      intro g
      unfold placeOf
      rw [hpci]
      cases gpuNUMA host.sysfs g.pci <;> simp [hone]
    simp [Locatable, hone, hplace]

/-- On unchanged hardware the GPU check passes exactly if the GPUs are locatable. -/
theorem gpus_agree_iff (order : CPUOrders) (host : Host) (devices : Devices)
    (gpus gpus' : List ReportedGPU) (sha256 : String → String) (order' : RangeOrder LocalDevice)
    (bootID : String) (result : Inventory) (encoded hash : String)
    (hlocal : discoverLocal order host = .ok devices)
    (hquery : host.nvidiaSMI = .output (.ok (ReportedGPU.inventoryTable gpus)))
    (hformed : ∀ g ∈ gpus, g.WellFormed)
    (hdistinct : (gpus.map (fun g => trimSpace g.uuid)).Nodup)
    (hsame : (gpus'.map ReportedGPU.identity).Perm (gpus.map ReportedGPU.identity))
    (hsum : summary sha256 order' ⟨host.nodeName, (discoverNVIDIA host devices).1⟩ bootID =
      .ok (result, encoded, hash)) :
    checkNVIDIA result (.output (.ok (ReportedGPU.healthTable gpus'))) = .ok () ↔
      Locatable host.sysfs (numaNodes devices).length gpus := by
  obtain ⟨s, profiles, -, ht⟩ := discoverLocal_traced hlocal
  obtain ⟨-, -, -, -, -, hcells⟩ := summary_spec hsum
  rw [discoverNVIDIA_fst (ownNames_of_traced ht)] at hcells
  have hrows : reportedRows host = gpus.map ReportedGPU.row := by
    rw [reportedRows, hquery]
    exact gpuRows_inventory hformed
  have hmem : ∀ g, g ∈ result.cells.flatMap Cell.gpus ↔
      ∃ d ∈ values (storeAll LocalDevice.name (gpuDevices host devices) devices),
        d.kind = .gpu ∧ gpuOf d = g := by
    intro g
    rw [List.mem_flatMap]
    exact hcells.gpus g
  rw [checkNVIDIA_iff _ _ hdistinct hsame, locatable_iff, ← none_kept_iff ht hrows,
    ← all_kept_iff ht hrows hdistinct]
  · apply or_congr
    · rw [List.eq_nil_iff_forall_not_mem]
      constructor
      · intro hnone d hd hk
        exact hnone _ ((hmem _).mpr ⟨d, hd, hk, rfl⟩)
      · intro hnone g hg
        obtain ⟨d, hd, hk, -⟩ := (hmem g).mp hg
        exact hnone d hd hk
    · simp only [hmem]
  · intro a ha b hb hab
    obtain ⟨d, hd, hkd, rfl⟩ := (hmem a).mp ha
    obtain ⟨e, he, hke, rfl⟩ := (hmem b).mp hb
    exact congrArg gpuOf (eq_of_uuid_eq ht ⟨hd, hkd⟩ ⟨he, hke⟩ hab)
  · intro g hg
    obtain ⟨d, hd, hk, rfl⟩ := (hmem g).mp hg
    have hd' := ((gpu_mem_iff ht).mp ⟨hd, hk⟩).1
    obtain ⟨g, hreported, n, -, rfl⟩ := (mem_gpuDevices_iff hrows).mp hd'
    rw [gpuOf_gpuDevice]
    exact List.mem_map_of_mem hreported

def sampleGPU (index bus : String) : ReportedGPU :=
  ⟨index, " GPU-" ++ index, " NVIDIA A100", " 40960", bus⟩

/-- The GPU at bus 1 is at node 0, the place of any other is not known. -/
def sampleNUMA (pci : String) : Option String := if pci = "1" then some "0" else none

def gpuHost (nodes : List Nat) (h : nodes.Nodup) (gpus : List ReportedGPU) : Host :=
  sampleHost (sampleSysfs nodes h sampleNUMA) []
    (.output (.ok (ReportedGPU.inventoryTable gpus)))

/-- A GPU whose NUMA node is known, and one whose node is not. -/
def mixedGPUs : List ReportedGPU := [sampleGPU "0" " 1", sampleGPU "1" " 2"]

theorem mixedGPUs_wellFormed : ∀ g ∈ mixedGPUs, g.WellFormed := by
  have hall : ∀ g ∈ mixedGPUs, (atoi (trimSpace g.index)).isSome ∧
      (atoi (trimSpace g.memory)).isSome ∧ trimSpace g.uuid ≠ "" := by
    decide +kernel
  intro g hg
  exact ⟨(hall g hg).1, (hall g hg).2.1, (hall g hg).2.2⟩

theorem mixedGPUs_distinct : (mixedGPUs.map (fun g => trimSpace g.uuid)).Nodup := by
  decide +kernel

def oneNodeGPUs : Host := gpuHost [0] oneNode_nodup mixedGPUs

/-- With one NUMA node both have a place, in whatever order they are reported. -/
theorem gpus_agree_oneNode : ∃ devices result encoded hash,
    discoverLocal .same oneNodeGPUs = .ok devices ∧
      summary id (.same LocalDevice) ⟨"node", (discoverNVIDIA oneNodeGPUs devices).1⟩ "boot" =
        .ok (result, encoded, hash) ∧
      (result.cells.flatMap Cell.gpus).length = 2 ∧
      checkNVIDIA result (.output (.ok (ReportedGPU.healthTable mixedGPUs.reverse))) = .ok () := by
  have hfound : okWith (discoverLocal .same oneNodeGPUs) (fun devices =>
      decide (Locatable oneNodeGPUs.sysfs (numaNodes devices).length mixedGPUs) &&
        okWith (summary id (.same LocalDevice) ⟨"node", (discoverNVIDIA oneNodeGPUs devices).1⟩ "boot")
          (fun r => decide ((r.1.cells.flatMap Cell.gpus).length = 2))) = true := by
    decide +kernel
  obtain ⟨devices, hlocal, hrest⟩ := okWith_iff.mp hfound
  rw [Bool.and_eq_true, decide_eq_true_eq, okWith_iff] at hrest
  obtain ⟨hlocatable, ⟨result, encoded, hash⟩, hsum, htwo⟩ := hrest
  refine ⟨devices, result, encoded, hash, hlocal, hsum, of_decide_eq_true htwo, ?_⟩
  exact (gpus_agree_iff .same oneNodeGPUs devices mixedGPUs mixedGPUs.reverse id (.same LocalDevice)
    "boot" result encoded hash hlocal rfl mixedGPUs_wellFormed mixedGPUs_distinct
    ((List.reverse_perm _).map _) hsum).mpr hlocatable

def mixedHost : Host := gpuHost [0, 1] twoNodes_nodup mixedGPUs

theorem omitted_gpu_reported_lost : ¬ ∀ (order : CPUOrders) (host : Host) (devices : Devices)
    (gpus gpus' : List ReportedGPU) (sha256 : String → String) (order' : RangeOrder LocalDevice)
    (bootID : String) (result : Inventory) (encoded hash : String),
    discoverLocal order host = .ok devices →
      host.nvidiaSMI = .output (.ok (ReportedGPU.inventoryTable gpus)) →
      (∀ g ∈ gpus, g.WellFormed) → (gpus.map (fun g => trimSpace g.uuid)).Nodup →
      (gpus'.map ReportedGPU.identity).Perm (gpus.map ReportedGPU.identity) →
      summary sha256 order' ⟨host.nodeName, (discoverNVIDIA host devices).1⟩ bootID =
        .ok (result, encoded, hash) →
      checkNVIDIA result (.output (.ok (ReportedGPU.healthTable gpus'))) = .ok () := by
  intro hclaim
  have hfound : okWith (discoverLocal .same mixedHost) (fun devices =>
      okWith (summary id (.same LocalDevice) ⟨"node", (discoverNVIDIA mixedHost devices).1⟩ "boot")
        (fun r => !okWith (checkNVIDIA r.1 (.output (.ok (ReportedGPU.healthTable mixedGPUs))))
          (fun _ => true))) = true := by
    decide +kernel
  obtain ⟨devices, hlocal, hrest⟩ := okWith_iff.mp hfound
  obtain ⟨⟨result, encoded, hash⟩, hsum, hbad⟩ := okWith_iff.mp hrest
  have hpass := hclaim _ mixedHost devices mixedGPUs mixedGPUs id _ "boot" result encoded hash hlocal
    rfl mixedGPUs_wellFormed mixedGPUs_distinct (List.Perm.refl _) hsum
  rw [hpass] at hbad
  cases hbad

end HeteroCluster.GPUAgreement
