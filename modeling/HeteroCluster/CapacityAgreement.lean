import HeteroCluster.CPUDevices
import HeteroCluster.InventoryCells
import HeteroCluster.OwnedNodes
import HeteroCluster.WatchdogHealth

namespace HeteroCluster.CapacityAgreement

open GoStrings FailFast KeyedRecords ComputeInventory DiscoveredDevices DiscoveredGPUs OwnedNodes
open InventoryCells
open WatchdogHealth (offline coreNUMA addCore physicalCores numaMemoryBytes
  checkCapacity checkCells)
open ComputeDriver (DeviceKind LocalDevice)
open HardwareInventory (Cell)

section Cores

variable {sys : Sysfs} {cores cores' : Cores} {dir : CPUDir}

/-- A CPU whose core the driver can read, or that it skips, is the same to the
watchdog. -/
theorem addCore_ok (h : addCPU cores dir = .ok cores') (keys : List CoreKey) :
    ∃ keys', addCore keys dir = .ok keys' ∧ (keys.Nodup → keys'.Nodup) ∧
      ∀ k, k ∈ keys' ↔ k ∈ keys ∨ coreKey dir = some k := by
  have hoffline : offline dir = !onlineCPU dir.online := by
    unfold offline onlineCPU
    cases dir.online with
    | none => rfl
    | some text => simp [bne]
  have hnuma : coreNUMA dir = cpuNUMA dir.nodes := by
    unfold coreNUMA cpuNUMA
    match dir.nodes with
    | [] => rfl
    | [_] => rfl
    | _ :: _ :: _ => rfl
  unfold addCore coreKey
  rw [hoffline, hnuma]
  obtain ⟨hoff, -⟩ | ⟨socket, core, hon, hs, hc, -⟩ := addCPU_cases h
  · exact ⟨keys, by simp [hoff], id, by simp [hoff]⟩
  · have hs' : WatchdogHealth.readInt dir.packageID = some socket := hs
    have hc' : WatchdogHealth.readInt dir.coreID = some core := hc
    refine ⟨keys.insert ⟨cpuNUMA dir.nodes, socket, core⟩, by simp [hon, hs', hc'],
      List.Nodup.insert, ?_⟩
    intro k
    rw [List.mem_insert_iff, or_comm]
    simp [hon, hs, hc, eq_comm]

theorem physicalCores_eq (hne : sys.cpus ≠ []) (h : sys.cpus.foldlM addCPU ∅ = .ok cores) :
    physicalCores sys = .ok (coreCount sys) := by
  obtain ⟨keys, hkeys, hnodup, hmem⟩ := foldlM_succeeds (f := addCore) (b := []) (l := sys.cpus)
    (fun done keys => keys.Nodup ∧ ∀ k, k ∈ keys ↔ k ∈ done.filterMap coreKey)
    ⟨List.nodup_nil, by simp⟩
    (by
      rintro done dir keys hdir ⟨hnodup, hmem⟩
      obtain ⟨c, c', hc⟩ := foldlM_mem h hdir
      obtain ⟨keys', hstep, hnodup', hmem'⟩ := addCore_ok hc keys
      refine ⟨keys', hstep, hnodup' hnodup, ?_⟩
      intro k
      rw [hmem', hmem, mem_coreKeys_snoc])
  have hperm : keys.Perm (coreKeys sys) := by
    rw [coreKeys, List.perm_ext_iff_of_nodup hnodup (List.nodup_dedup _)]
    intro k
    rw [hmem, List.mem_dedup]
  simp only [physicalCores, bind_eq_ok, exists_unit, refuse_eq_ok, pure_eq_ok]
  refine ⟨hne, keys, hkeys, ?_⟩
  funext n
  rw [coreCount, hperm.countP_eq]

end Cores

section Memory

theorem memTotalFields_eq (line : String) : memTotalFields line =
    if 4 ≤ (fieldsFunc isSpace line).length ∧ (fieldsFunc isSpace line).getD 2 "" = "MemTotal:"
    then some ((fieldsFunc isSpace line).getD 3 "") else none := by
  unfold memTotalFields
  match fieldsFunc isSpace line with
  | [] | [_] | [_, _] | [_, _, _] => simp
  | _ :: _ :: label :: value :: rest => simp

theorem findSome_memTotalFields (lines : List String) : lines.findSome? memTotalFields =
    ((lines.map (fieldsFunc isSpace)).find?
      (fun fields => 4 ≤ fields.length ∧ fields.getD 2 "" = "MemTotal:")).map
      (fun fields => fields.getD 3 "") := by
  induction lines with
  | nil => rfl
  | cons line lines ih =>
    rw [List.findSome?_cons, memTotalFields_eq, List.map_cons, List.find?_cons]
    by_cases hline : 4 ≤ (fieldsFunc isSpace line).length ∧
        (fieldsFunc isSpace line).getD 2 "" = "MemTotal:"
    · rw [if_pos hline, decide_eq_true hline]
      rfl
    · rw [if_neg hline, decide_eq_false hline]
      exact ih

variable {sys : Sysfs} {n total : Int}

theorem find_node_eq_some {dir : NodeDir} :
    sys.nodes.find? (fun d => (d.node : Int) = n) = some dir ↔
      dir ∈ sys.nodes ∧ (dir.node : Int) = n := by
  constructor
  · intro hfind
    exact ⟨List.mem_of_find?_eq_some hfind, by simpa using List.find?_some hfind⟩
  · rintro ⟨hdir, hn⟩
    cases hfind : sys.nodes.find? (fun d => (d.node : Int) = n) with
    | none =>
      rw [List.find?_eq_none] at hfind
      exact absurd hn (by simpa using hfind dir hdir)
    | some dir' =>
      have hn' : (dir'.node : Int) = n := by simpa using List.find?_some hfind
      exact congrArg some (List.inj_on_of_nodup_map sys.nodes_nodup
        (List.mem_of_find?_eq_some hfind) hdir (Int.ofNat.inj (hn'.trans hn.symm)))

theorem numaMemoryBytes_of_find {dir : NodeDir}
    (hfind : sys.nodes.find? (fun d => (d.node : Int) = n) = some dir) :
    numaMemoryBytes sys n = .ok total ↔ nodeMemoryBytes dir.meminfo = .ok total := by
  unfold numaMemoryBytes nodeMemoryBytes
  rw [hfind]
  dsimp only
  cases dir.meminfo with
  | none => simp
  | some text =>
    dsimp only
    rw [findSome_memTotalFields]
    generalize ((split text '\n').map (fieldsFunc isSpace)).find? _ = found
    cases found with
    | none => simp
    | some fields =>
      dsimp only [Option.map_some]
      cases atoi (fields.getD 3 "") with
      | none => simp
      | some value => simp [Int.shiftLeft_eq]

theorem numaMemoryBytes_ok_iff : numaMemoryBytes sys n = .ok total ↔
    ∃ dir ∈ sys.nodes, (dir.node : Int) = n ∧ nodeMemoryBytes dir.meminfo = .ok total := by
  constructor
  · intro h
    cases hfind : sys.nodes.find? (fun d => (d.node : Int) = n) with
    | none =>
      unfold numaMemoryBytes at h
      rw [hfind] at h
      cases h
    | some dir =>
      obtain ⟨hdir, hn⟩ := find_node_eq_some.mp hfind
      exact ⟨dir, hdir, hn, (numaMemoryBytes_of_find hfind).mp h⟩
  · rintro ⟨dir, hdir, hn, htotal⟩
    exact (numaMemoryBytes_of_find (find_node_eq_some.mpr ⟨hdir, hn⟩)).mpr htotal

theorem nodeMemoryBytes_range {meminfo : Option String} (h : nodeMemoryBytes meminfo = .ok total) :
    -2 ^ 63 ≤ total ∧ total < 2 ^ 63 := by
  unfold nodeMemoryBytes at h
  split at h
  · cases h
  · split at h
    · cases h
    · split at h
      · cases h
      · rw [← Except.ok.inj h]
        exact wrapInt64_range _

theorem memoryCount_mul_le {unit reserve : Int} (hu : 0 < unit) :
    (memoryCount unit reserve total : Int) * unit ≤ max 0 (wrapInt64 (total - reserve)) := by
  unfold memoryCount
  generalize wrapInt64 (total - reserve) = left
  by_cases hleft : 0 ≤ left
  · have hdiv : 0 ≤ left.tdiv unit := Int.tdiv_nonneg hleft hu.le
    rw [Int.toNat_of_nonneg hdiv, max_eq_right hleft, Int.tdiv_eq_ediv_of_nonneg hleft]
    exact Int.ediv_mul_le left hu.ne'
  · have hdiv : left.tdiv unit ≤ 0 := by
      have := Int.tdiv_nonneg (a := -left) (b := unit) (by omega) hu.le
      rw [Int.neg_tdiv] at this
      omega
    rw [Int.toNat_of_nonpos hdiv]
    simp

end Memory

section Published

variable {host : Host} {s : Settings} {profiles : List OpenTPUProfile} {order : CPUOrders}
  {inv : ComputeDriver.Inventory} {n : Int}

/-- A NUMA node with a directory of its own and a total that is not negative. -/
def Backed (sys : Sysfs) (n : Int) : Prop :=
  ∃ dir ∈ sys.nodes, (dir.node : Int) = n ∧
    ∃ total, nodeMemoryBytes dir.meminfo = .ok total ∧ 0 ≤ total

theorem cpus_le (h : discoverInventory order host = .ok inv) (n : Int) :
    (values inv.devices).countP (onNode .cpu n) ≤ coreCount host.sysfs n := by
  obtain ⟨s, profiles, -, hfiled, horigin⟩ := discoverInventory_origin h
  rw [coreCount, List.countP_eq_length_filter (l := coreKeys host.sysfs),
    ← List.length_map (f := fun k : CoreKey => cpuName k.socket k.core)]
  apply hfiled.countP_le
  intro d hd hon
  obtain ⟨hk, hn⟩ := onNode_iff.mp hon
  cases horigin d hd (by simp [hk]) with
  | memory | openTPU => cases hk
  | @cpu k cpu hkey _ =>
    exact List.mem_map.mpr ⟨k, List.mem_filter.mpr ⟨hkey, decide_eq_true hn⟩, rfl⟩

theorem units_le (hconf : Configured host s profiles) (h : discoverInventory order host = .ok inv)
    {dir : NodeDir} {total : Int} (hdir : dir ∈ host.sysfs.nodes)
    (ht : nodeMemoryBytes dir.meminfo = .ok total) :
    (values inv.devices).countP (onNode .memory dir.node) ≤
      memoryCount s.memoryUnit s.reservedMemory total := by
  obtain ⟨s', profiles', hconf', hfiled, horigin⟩ := discoverInventory_origin h
  obtain ⟨rfl, rfl⟩ := Configured.unique hconf hconf'
  rw [← List.length_range (n := memoryCount _ _ total),
    ← List.length_map (f := fun slot => memoryName dir.node slot)]
  apply hfiled.countP_le
  intro d hd hon
  obtain ⟨hk, hn⟩ := onNode_iff.mp hon
  cases horigin d hd (by simp [hk]) with
  | cpu | openTPU => cases hk
  | @memory dir' total' slot hdir' ht' hslot =>
    obtain rfl : dir' = dir :=
      List.inj_on_of_nodup_map host.sysfs.nodes_nodup hdir' hdir (Int.ofNat.inj hn)
    obtain rfl := Except.ok.inj (ht'.symm.trans ht)
    exact List.mem_map.mpr ⟨slot, List.mem_range.mpr hslot, rfl⟩

theorem unit_eq (hconf : Configured host s profiles) (h : discoverInventory order host = .ok inv)
    {d : LocalDevice} (hd : d ∈ values inv.devices) (hk : d.kind = .memory) :
    d.unitBytes = s.memoryUnit := by
  obtain ⟨s', profiles', hconf', -, horigin⟩ := discoverInventory_origin h
  obtain ⟨rfl, rfl⟩ := Configured.unique hconf hconf'
  cases horigin d hd (by simp [hk]) with
  | cpu | openTPU => cases hk
  | memory => rfl

/-- What a cell says of its memory is not more than was left of it. -/
theorem cell_memory_le (hconf : Configured host s profiles)
    (h : discoverInventory order host = .ok inv) {cells : List Cell}
    (hcells : Reflects (values inv.devices) cells) {cell : Cell} (hcell : cell ∈ cells)
    {dir : NodeDir} {total : Int} (hdir : dir ∈ host.sysfs.nodes) (hn : (dir.node : Int) = cell.numa)
    (ht : nodeMemoryBytes dir.meminfo = .ok total) :
    0 ≤ cell.memoryUnits * cell.memoryUnitBytes ∧ cell.memoryUnits * cell.memoryUnitBytes ≤
      max 0 (wrapInt64 (total - s.reservedMemory)) := by
  obtain ⟨hunit, -⟩ := settings_bounds hconf.settings
  have hle := units_le hconf h hdir ht
  rw [hn] at hle
  rw [hcells.units cell hcell]
  by_cases hmem : ∃ d ∈ values inv.devices, onNode .memory cell.numa d = true
  · obtain ⟨d, hd, hon⟩ := hmem
    obtain ⟨d', hd', hon', hbytes⟩ := hcells.unitBytes cell hcell d hd hon
    rw [hbytes, unit_eq hconf h hd' (onNode_iff.mp hon').1]
    constructor
    · exact Int.mul_nonneg (Int.natCast_nonneg _) hunit.le
    · calc ((values inv.devices).countP (onNode .memory cell.numa) : Int) * s.memoryUnit
          ≤ memoryCount s.memoryUnit s.reservedMemory total * s.memoryUnit :=
            Int.mul_le_mul_of_nonneg_right (Int.ofNat_le.mpr hle) hunit.le
        _ ≤ max 0 (wrapInt64 (total - s.reservedMemory)) := memoryCount_mul_le hunit
  · have hzero : (values inv.devices).countP (onNode .memory cell.numa) = 0 := by
      rw [List.countP_eq_zero]
      intro d hd hon
      exact hmem ⟨d, hd, hon⟩
    simp [hzero]

theorem checkCapacity_iff {sys : Sysfs} {cores : Int → Nat} {cell : Cell} :
    checkCapacity sys cores cell = .ok () ↔ cell.cpus ≤ cores cell.numa ∧
      ∃ memory, numaMemoryBytes sys cell.numa = .ok memory ∧
        wrapInt64 (cell.memoryUnits * cell.memoryUnitBytes) ≤ memory := by
  unfold checkCapacity
  split
  next hlt => simp [hlt]
  next hle =>
    rw [not_lt] at hle
    cases numaMemoryBytes sys cell.numa with
    | error e => simp
    | ok memory => simp [hle]

theorem cell_passes_iff (hconf : Configured host s profiles)
    (h : discoverInventory order host = .ok inv) {cells : List Cell}
    (hcells : Reflects (values inv.devices) cells) {cell : Cell} (hcell : cell ∈ cells) :
    checkCapacity host.sysfs (coreCount host.sysfs) cell = .ok () ↔
      Backed host.sysfs cell.numa := by
  have hcpus : cell.cpus ≤ coreCount host.sysfs cell.numa := by
    rw [hcells.cpus cell hcell]
    exact Int.ofNat_le.mpr (cpus_le h cell.numa)
  rw [checkCapacity_iff]
  simp only [hcpus, true_and, numaMemoryBytes_ok_iff]
  constructor
  · rintro ⟨total, ⟨dir, hdir, hn, ht⟩, hle⟩
    obtain ⟨hlow, hhigh⟩ := cell_memory_le hconf h hcells hcell hdir hn ht
    have hwrap := wrapInt64_range (total - s.reservedMemory)
    rw [wrapInt64_of_range (by omega) (by omega)] at hle
    exact ⟨dir, hdir, hn, total, ht, hlow.trans hle⟩
  · rintro ⟨dir, hdir, hn, total, ht, hpos⟩
    obtain ⟨hlow, hhigh⟩ := cell_memory_le hconf h hcells hcell hdir hn ht
    obtain ⟨-, hres, hres', -⟩ := settings_bounds hconf.settings
    have hrange := nodeMemoryBytes_range ht
    rw [wrapInt64_of_range (by omega) (by omega)] at hhigh
    refine ⟨total, ⟨dir, hdir, hn, ht⟩, ?_⟩
    rw [wrapInt64_of_range (by omega) (by omega)]
    omega

end Published

/-- Every NUMA node for which a device is asked for is backed. -/
def Supported (host : Host) : Prop :=
  ∀ s profiles, Configured host s profiles → ∀ n, Claimed host s profiles n → Backed host.sysfs n

/-- Whatever the order of the loops, the cells that are published pass the
comparison of the watchdog. -/
def Passes (host : Host) (sha256 : String → String) : Prop :=
  ∀ order inv order' bootID result encoded hash, discoverInventory order host = .ok inv →
    summary sha256 order' inv bootID = .ok (result, encoded, hash) →
    checkCells host.sysfs result.cells = .ok ()

theorem checkCells_iff {host : Host} {order : CPUOrders} {inv : ComputeDriver.Inventory}
    (h : discoverInventory order host = .ok inv) {cells : List Cell} :
    checkCells host.sysfs cells = .ok () ↔
      ∀ cell ∈ cells, checkCapacity host.sysfs (coreCount host.sysfs) cell = .ok () := by
  obtain ⟨s, profiles, base, hconf, hbase, -, -⟩ := discoverInventory_spec h
  obtain ⟨cpus, memory, hcpus, -, -⟩ := discoverLocal_steps hconf hbase
  simp only [discoverCPU, bind_eq_ok, exists_unit, refuse_eq_ok] at hcpus
  obtain ⟨hne, cores, hcores, -⟩ := hcpus
  rw [checkCells, physicalCores_eq hne hcores]
  exact forM_eq_ok

/-- The watchdog agrees with what is published exactly if the NUMA nodes that are
asked for are there. -/
theorem capacity_agrees_iff (host : Host) (sha256 : String → String)
    (hfound : ∀ order, ∃ inv, discoverInventory order host = .ok inv)
    (hpublished : ∀ order inv order' bootID, discoverInventory order host = .ok inv →
      bootID ≠ "" → ∃ r, summary sha256 order' inv bootID = .ok r)
    (hgpus : ((reportedRows host).map (fun row => toLower row.uuid)).Nodup) :
    Passes host sha256 ↔ Supported host := by
  constructor
  · intro hpass s profiles hconf n hclaimed
    obtain ⟨order, howned⟩ := owned_of_claimed hconf hgpus hclaimed
    obtain ⟨inv, hinv⟩ := hfound order
    obtain ⟨d, hd, rfl⟩ := howned inv hinv
    obtain ⟨⟨result, encoded, hash⟩, hsum⟩ :=
      hpublished order inv (.same LocalDevice) "boot" hinv (by decide)
    obtain ⟨-, -, -, -, -, hcells⟩ := summary_spec hsum
    obtain ⟨cell, hcell, hn⟩ := (hcells.covered d.numa).mpr ⟨d, hd, rfl⟩
    have hall := (checkCells_iff hinv).mp (hpass _ _ _ _ _ _ _ hinv hsum)
    rw [← hn]
    exact (cell_passes_iff hconf hinv hcells hcell).mp (hall cell hcell)
  · intro hsupported order inv order' bootID result encoded hash hinv hsum
    obtain ⟨-, -, -, -, -, hcells⟩ := summary_spec hsum
    obtain ⟨s, profiles, hconf, -, -⟩ := discoverInventory_origin hinv
    rw [checkCells_iff hinv]
    intro cell hcell
    obtain ⟨d, hd, hn⟩ := (hcells.covered cell.numa).mp ⟨cell, hcell, rfl⟩
    rw [cell_passes_iff hconf hinv hcells hcell, ← hn]
    exact hsupported s profiles hconf d.numa (claimed_of_mem hconf hinv hd)

section Sample

/-- The order of the loops does not matter where all cores are at one node. -/
theorem discoverInventory_order {host : Host}
    (h : okWith (host.sysfs.cpus.foldlM addCPU ∅)
      (fun cores => (cores.keys.map CoreKey.numa).dedup.length == 1) = true)
    (order : CPUOrders) :
    discoverInventory order host = discoverInventory .same host := by
  obtain ⟨cores, hcores, hone⟩ := okWith_iff.mp h
  rw [beq_iff_eq, List.length_eq_one_iff] at hone
  obtain ⟨n, hone⟩ := hone
  have hnodes : ∀ order : CPUOrders, order.nodes.order [n] = [n] :=
    fun order => List.perm_singleton.mp (order.nodes.perm [n])
  have hoffered : ∀ reserve, offeredCores order cores reserve n =
      offeredCores .same cores reserve n := by
    intro reserve
    rw [offeredCores, offeredCores, CPUDevices.coresOf_order hcores order .same]
  have hcpu : ∀ reserve devices, discoverCPU order host.sysfs reserve devices =
      discoverCPU .same host.sysfs reserve devices := by
    intro reserve devices
    simp only [discoverCPU, hcores, ok_bind, hone, hnodes, List.flatMap_singleton, hoffered]
  simp only [discoverInventory, discoverLocal, hcpu]

theorem uniform_of_no_profiles {host : Host} {s : Settings} {order : CPUOrders}
    {inv : ComputeDriver.Inventory} (hconf : Configured host s [])
    (h : discoverInventory order host = .ok inv) : Uniform (values inv.devices) := by
  constructor
  · intro a ha b hb hka hkb _
    rw [unit_eq hconf h ha hka, unit_eq hconf h hb hkb]
  · intro a ha b hb hka
    obtain ⟨s', profiles', hconf', -, horigin⟩ := discoverInventory_origin h
    obtain ⟨rfl, rfl⟩ := Configured.unique hconf hconf'
    cases horigin a ha (by simp [hka]) with
    | cpu | memory => cases hka
    | openTPU hp => cases hp

theorem oneNode_profiles {s : Settings} {profiles : List OpenTPUProfile}
    (h : Configured oneNodeHost s profiles) : profiles = [] := by
  have hread : openTPUProfiles oneNodeHost (annotationOf oneNodeHost "opentpu-profiles") = .ok [] := by
    unfold openTPUProfiles
    split <;> rfl
  exact Except.ok.inj (h.profiles.symm.trans hread)

theorem oneNode_supported : Supported oneNodeHost := by
  intro s profiles hconf n hclaimed
  obtain rfl := oneNode_profiles hconf
  have hbacked : Backed oneNodeHost.sysfs 0 := by
    have htotal : okWith (nodeMemoryBytes (sampleNode 0).meminfo) (fun total => 0 ≤ total) = true := by
      decide +kernel
    obtain ⟨total, ht, hpos⟩ := okWith_iff.mp htotal
    exact ⟨sampleNode 0, List.mem_singleton_self _, rfl, total, ht, of_decide_eq_true hpos⟩
  have hkeys : coreKeys oneNodeHost.sysfs = [⟨0, 0, 0⟩, ⟨0, 0, 1⟩] := by decide +kernel
  cases hclaimed with
  | @cpu _ h =>
    obtain rfl : n = 0 := by
      by_contra hn
      have hzero : coreCount oneNodeHost.sysfs n = 0 := by simp [coreCount, hkeys, Ne.symm hn]
      have hpos := (settings_bounds hconf.settings).2.2.2
      omega
    exact hbacked
  | memory hd ht hc =>
    rw [List.mem_singleton.mp hd]
    exact hbacked
  | openTPU hp => cases hp
  | gpu hr hn => cases hr

theorem oneNode_found (order : CPUOrders) :
    ∃ inv, discoverInventory order oneNodeHost = .ok inv := by
  have hone : okWith (oneNodeHost.sysfs.cpus.foldlM addCPU ∅)
      (fun cores => (cores.keys.map CoreKey.numa).dedup.length == 1) = true := by
    decide +kernel
  have hfound : okWith (discoverInventory .same oneNodeHost) (fun _ => true) = true := by
    decide +kernel
  obtain ⟨inv, hinv, -⟩ := okWith_iff.mp hfound
  exact ⟨inv, (discoverInventory_order hone order).trans hinv⟩

end Sample

theorem capacity_agrees_oneNode :
    (∀ order, ∃ inv, discoverInventory order oneNodeHost = .ok inv) ∧ Passes oneNodeHost id := by
  refine ⟨oneNode_found, (capacity_agrees_iff oneNodeHost id oneNode_found ?_ ?_).mpr
    oneNode_supported⟩
  · intro order inv order' bootID hinv hboot
    obtain ⟨s, profiles, hconf, -, -⟩ := discoverInventory_origin hinv
    obtain rfl := oneNode_profiles hconf
    exact summary_ok (uniform_of_no_profiles hconf hinv) hboot
  · exact List.nodup_nil

/-- A profile for NUMA node 1, which the host does not have. -/
def strayProfile : OpenTPUProfile := ⟨"sim", 8, 1, 1, 1, "1Gi", "1Gi"⟩

def strayHost : Host :=
  sampleHost (sampleSysfs [0] oneNode_nodup (fun _ => none)) [strayProfile] .missing

theorem stray_profile_fails : ¬ ∀ (host : Host) (sha256 : String → String) order inv order' bootID
    result encoded hash, discoverInventory order host = .ok inv →
      summary sha256 order' inv bootID = .ok (result, encoded, hash) →
      checkCells host.sysfs result.cells = .ok () := by
  intro hclaim
  have hfound : okWith (discoverInventory .same strayHost) (fun inv =>
      okWith (summary id (.same LocalDevice) inv "boot") (fun r =>
        !okWith (checkCells strayHost.sysfs r.1.cells) (fun _ => true))) = true := by
    decide +kernel
  obtain ⟨inv, hinv, hrest⟩ := okWith_iff.mp hfound
  obtain ⟨⟨result, encoded, hash⟩, hsum, hbad⟩ := okWith_iff.mp hrest
  rw [hclaim strayHost id _ inv _ "boot" result encoded hash hinv hsum] at hbad
  cases hbad

end HeteroCluster.CapacityAgreement
