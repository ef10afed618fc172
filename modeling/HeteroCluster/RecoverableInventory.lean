import HeteroCluster.DiscoveredGPUs
import HeteroCluster.InventoryCells
import HeteroCluster.RecoveryRuns

namespace HeteroCluster.RecoverableInventory

open FailFast KeyedRecords ComputeInventory DiscoveredDevices DiscoveredGPUs InventoryCells
open RecoveryVerifier (decodeRecoveryInventory)
open RecoveryIsolation (Config)
open ComputeDriver (DeviceKind LocalDevice)
open HardwareInventory (Cell Inventory)

/-- Every NUMA node with a device has a CPU and memory. -/
def Furnished (devices : List LocalDevice) : Prop :=
  ∀ d ∈ devices, 0 ≤ d.numa ∧ (∃ c ∈ devices, onNode .cpu d.numa c = true) ∧
    ∃ m ∈ devices, onNode .memory d.numa m = true

instance (devices : List LocalDevice) : Decidable (Furnished devices) :=
  inferInstanceAs (Decidable (∀ d ∈ devices, _))

def ValidCell (c : Cell) : Prop :=
  0 ≤ c.numa ∧ 1 ≤ c.cpus ∧ 1 ≤ c.memoryUnits ∧ 1 ≤ c.memoryUnitBytes

instance (c : Cell) : Decidable (ValidCell c) := inferInstanceAs (Decidable (_ ∧ _))

theorem decode_accepts_iff {cfg : Config} {raw bootID : String} {inventory : Inventory}
    (h : cfg.unmarshalInventory raw = some inventory) :
    (∃ r, decodeRecoveryInventory cfg raw bootID = .ok r) ↔ inventory.version = 1 ∧
      inventory.bootID = bootID ∧ inventory.cells ≠ [] ∧ ∀ c ∈ inventory.cells, ValidCell c := by
  unfold decodeRecoveryInventory
  simp only [h]
  split
  next hbad =>
    constructor
    · rintro ⟨r, hr⟩
      cases hr
    · rintro ⟨hv, hb, hc, -⟩
      simp [hv, hb, hc] at hbad
  next hgood =>
    simp only [ne_eq, not_or, not_not] at hgood
    obtain ⟨hv, hb, hc⟩ := hgood
    have hvalid : (∀ c ∈ inventory.cells, ValidCell c) ↔ inventory.cells.find? (fun c =>
        decide (c.numa < 0 ∨ c.cpus < 1 ∨ c.memoryUnits < 1 ∨ c.memoryUnitBytes < 1)) = none := by
      rw [List.find?_eq_none]
      apply forall₂_congr
      intro c _
      simp only [ValidCell, decide_eq_true_eq]
      omega
    rw [hvalid]
    generalize inventory.cells.find? _ = found
    cases found with
    | some bad => simp
    | none => simp [hv, hb, hc]

variable {order : CPUOrders} {host : Host} {inv : ComputeDriver.Inventory}

theorem memory_unit_pos (h : discoverInventory order host = .ok inv) {d : LocalDevice}
    (hd : d ∈ values inv.devices) (hk : d.kind = .memory) : 0 < d.unitBytes := by
  obtain ⟨s, profiles, hconf, -, horigin⟩ := discoverInventory_origin h
  cases horigin d hd (by simp [hk]) with
  | cpu | openTPU => cases hk
  | memory => exact (settings_bounds hconf.settings).1

/-- What is published of a discovered inventory is accepted exactly if every NUMA
node that owns a device has both a CPU and memory to offer. -/
theorem recoverable_iff (cfg : Config) (h : discoverInventory order host = .ok inv)
    (hne : values inv.devices ≠ []) (sha256 : String → String) (order' : RangeOrder LocalDevice)
    (bootID : String) (result : Inventory) (encoded hash : String)
    (hsum : summary sha256 order' inv bootID = .ok (result, encoded, hash))
    (hround : cfg.unmarshalInventory encoded = some result) :
    (∃ r, decodeRecoveryInventory cfg encoded bootID = .ok r) ↔ Furnished (values inv.devices) := by
  obtain ⟨-, hversion, hboot, -, -, hcells⟩ := summary_spec hsum
  have hpos : ∀ kind n, 1 ≤ ((values inv.devices).countP (onNode kind n) : Int) ↔
      ∃ d ∈ values inv.devices, onNode kind n d = true := by
    intro kind n
    rw [← List.countP_pos_iff]
    omega
  have hsome : result.cells ≠ [] := by
    obtain ⟨d, hd⟩ := List.exists_mem_of_ne_nil _ hne
    obtain ⟨cell, hcell, -⟩ := (hcells.covered d.numa).mpr ⟨d, hd, rfl⟩
    exact List.ne_nil_of_mem hcell
  rw [decode_accepts_iff hround]
  simp only [hversion, hboot, ne_eq, hsome, not_false_eq_true, true_and]
  constructor
  · intro hvalid d hd
    obtain ⟨cell, hcell, hn⟩ := (hcells.covered d.numa).mpr ⟨d, hd, rfl⟩
    obtain ⟨hnuma, hcpus, hunits, -⟩ := hvalid cell hcell
    rw [hcells.cpus cell hcell, hpos, hn] at hcpus
    rw [hcells.units cell hcell, hpos, hn] at hunits
    exact ⟨hn ▸ hnuma, hcpus, hunits⟩
  · intro hall cell hcell
    obtain ⟨d, hd, hn⟩ := (hcells.covered cell.numa).mp ⟨cell, hcell, rfl⟩
    obtain ⟨hnuma, hcpu, m, hm, hon⟩ := hall d hd
    rw [hn] at hnuma hcpu hon
    obtain ⟨m', hm', hon', hunit⟩ := hcells.unitBytes cell hcell m hm hon
    refine ⟨hnuma, ?_, ?_, ?_⟩
    · rw [hcells.cpus cell hcell, hpos]
      exact hcpu
    · rw [hcells.units cell hcell, hpos]
      exact ⟨m, hm, hon⟩
    · rw [hunit]
      exact memory_unit_pos h hm' (onNode_iff.mp hon').1

def readingConfig (encoded : String) (result : Inventory) : Config :=
  { RecoveryRuns.sampleConfig with
    unmarshalInventory := fun raw => if raw = encoded then some result else none }

theorem readingConfig_reads (encoded : String) (result : Inventory) :
    (readingConfig encoded result).unmarshalInventory encoded = some result := if_pos rfl

theorem recoverable_oneNode : ∃ inv result encoded hash r,
    discoverInventory .same oneNodeHost = .ok inv ∧ values inv.devices ≠ [] ∧
      summary id (.same LocalDevice) inv "boot" = .ok (result, encoded, hash) ∧
      decodeRecoveryInventory (readingConfig encoded result) encoded "boot" = .ok r := by
  have hfound : okWith (discoverInventory .same oneNodeHost) (fun inv =>
      decide (values inv.devices ≠ [] ∧ Furnished (values inv.devices)) &&
        okWith (summary id (.same LocalDevice) inv "boot") (fun _ => true)) = true := by
    decide +kernel
  obtain ⟨inv, hinv, hrest⟩ := okWith_iff.mp hfound
  rw [Bool.and_eq_true, decide_eq_true_eq, okWith_iff] at hrest
  obtain ⟨⟨hne, hfurnished⟩, ⟨result, encoded, hash⟩, hsum, -⟩ := hrest
  obtain ⟨r, hr⟩ := (recoverable_iff _ hinv hne id (.same LocalDevice) "boot" result encoded hash hsum
    (readingConfig_reads encoded result)).mpr hfurnished
  exact ⟨inv, result, encoded, hash, r, hinv, hne, hsum, hr⟩

def memoryOnlyHost : Host :=
  sampleHost (sampleSysfs [0, 1] twoNodes_nodup (fun _ => none)) [] .missing

theorem memory_only_node_rejected : ¬ ∀ (cfg : Config) (order : CPUOrders) (host : Host) inv
    (sha256 : String → String) (order' : RangeOrder LocalDevice) bootID result encoded hash,
    discoverInventory order host = .ok inv → values inv.devices ≠ [] →
      summary sha256 order' inv bootID = .ok (result, encoded, hash) →
      cfg.unmarshalInventory encoded = some result →
      ∃ r, decodeRecoveryInventory cfg encoded bootID = .ok r := by
  intro hclaim
  have hfound : okWith (discoverInventory .same memoryOnlyHost) (fun inv =>
      decide (values inv.devices ≠ []) &&
        okWith (summary id (.same LocalDevice) inv "boot") (fun r =>
          r.1.cells.any (fun c => decide (¬ ValidCell c)))) = true := by
    decide +kernel
  obtain ⟨inv, hinv, hrest⟩ := okWith_iff.mp hfound
  rw [Bool.and_eq_true, decide_eq_true_eq, okWith_iff] at hrest
  obtain ⟨hne, ⟨result, encoded, hash⟩, hsum, hbad⟩ := hrest
  have hread := readingConfig_reads encoded result
  have haccepted := hclaim _ _ _ inv _ _ _ result encoded hash hinv hne hsum hread
  obtain ⟨-, -, -, hvalid⟩ := (decode_accepts_iff hread).mp haccepted
  obtain ⟨c, hc, hnot⟩ := List.any_eq_true.mp hbad
  exact of_decide_eq_true hnot (hvalid c hc)

end HeteroCluster.RecoverableInventory
