import HeteroCluster.DiscoveredGPUs
import HeteroCluster.InventoryCells
import HeteroCluster.JsonReading
import HeteroCluster.SortedBy

namespace HeteroCluster.HardwareHash

open FailFast KeyedRecords ComputeInventory DiscoveredDevices DiscoveredGPUs InventoryCells
open JsonText JsonReading SortedBy
open ComputeDriver (DeviceKind LocalDevice)
open HardwareInventory (GPU OpenTPU Cell)

section Texts

theorem value_gpu (g : GPU) : ∀ f ∈ [("uuid", jsonString g.uuid), ("model", jsonString g.model),
    ("pci", jsonString g.pci)], Value f.2 := by
  simp only [List.forall_mem_cons]
  exact ⟨.text _, .text _, .text _, by simp⟩

theorem gpuText_injective : Function.Injective gpuText := by
  rintro ⟨uuid, model, pci⟩ ⟨uuid', model', pci'⟩ h
  have hfields := jsonObject_inj (value_gpu _) (value_gpu _) h
  simpa [jsonString_injective.eq_iff] using hfields

theorem value_openTPU (p : OpenTPU) : ∀ f ∈ [("profile", jsonString p.profile),
    ("count", toString p.count), ("matrixSize", toString p.matrixSize),
    ("cpuCores", toString p.cpuCores), ("memoryBytes", toString p.memoryBytes),
    ("sharedMemoryBytes", toString p.sharedMemory)], Value f.2 := by
  simp only [List.forall_mem_cons]
  exact ⟨.text _, .number _, .number _, .number _, .number _, .number _, by simp⟩

theorem openTPUText_injective : Function.Injective openTPUText := by
  rintro ⟨profile, count, size, cores, memory, shared⟩ ⟨profile', count', size', cores', memory',
    shared'⟩ h
  have hfields := jsonObject_inj (value_openTPU _) (value_openTPU _) h
  simpa [jsonString_injective.eq_iff, Int.repr_inj] using hfields

def gpusText (gpus : List GPU) : String := jsonSlice (gpus.map gpuText)

def profilesText (profiles : List OpenTPU) : String := jsonSlice (profiles.map openTPUText)

def cellCounts (cell : Cell) : List (String × String) :=
  [("numaNode", toString cell.numa), ("cpus", toString cell.cpus),
    ("memoryUnits", toString cell.memoryUnits), ("memoryUnitBytes", toString cell.memoryUnitBytes)]

theorem value_cell (cell : Cell) : ∀ f ∈ cellCounts cell ++
    omitEmpty [] "gpus" cell.gpus gpusText ++ omitEmpty [] "openTPU" cell.openTPU profilesText,
    Value f.2 := by
  have hcounts : ∀ f ∈ cellCounts cell, Value f.2 := by
    simp only [cellCounts, List.forall_mem_cons]
    exact ⟨.number _, .number _, .number _, .number _, by simp⟩
  have hgpus : Value (gpusText cell.gpus) :=
    .slice_map (fun g => .object (value_gpu g)) cell.gpus
  have hprofiles : Value (profilesText cell.openTPU) :=
    .slice_map (fun p => .object (value_openTPU p)) cell.openTPU
  simp only [List.forall_mem_append]
  exact ⟨⟨hcounts, value_omitEmpty hgpus⟩, value_omitEmpty hprofiles⟩

theorem gpusText_injective : Function.Injective gpusText :=
  jsonSlice_map_injective (fun g => .object (value_gpu g)) gpuText_injective

theorem profilesText_injective : Function.Injective profilesText :=
  jsonSlice_map_injective (fun p => .object (value_openTPU p)) openTPUText_injective

theorem cellText_injective : Function.Injective cellText := by
  rintro ⟨numa, cpus, units, unit, gpus, openTPU⟩ ⟨numa', cpus', units', unit', gpus', openTPU'⟩ h
  have hfields := jsonObject_inj (value_cell _) (value_cell _) h
  rw [List.append_assoc, List.append_assoc] at hfields
  obtain ⟨hcounts, hrest⟩ := List.append_inj hfields rfl
  have hlater : ∀ profiles, ∀ f ∈ omitEmpty [] "openTPU" profiles profilesText, f.1 ≠ "gpus" := by
    intro profiles f hf
    unfold omitEmpty at hf
    split at hf
    · cases hf
    · rw [List.mem_singleton.mp hf]
      show "openTPU" ≠ "gpus"
      decide
  obtain ⟨rfl, hlast⟩ := omitEmpty_append_inj gpusText_injective (hlater _) (hlater _) hrest
  obtain rfl := omitEmpty_inj profilesText_injective hlast
  simpa [cellCounts, Int.repr_inj] using hcounts

theorem cellsText_injective : Function.Injective cellsText :=
  jsonSlice_map_injective (fun cell => .object (value_cell cell)) cellText_injective

end Texts

structure Node where
  present : Prop
  cpus : ℕ
  memoryUnits : ℕ
  unitBytes : Set Int
  gpus : Set GPU
  openTPU : Set OpenTPU

/-- The profile of a slot, with its footprint and the number of its slots. -/
def offered (devices : List LocalDevice) (n : Int) (d : LocalDevice) : OpenTPU :=
  { newProfile d with count := devices.countP (slotOf n d.profile) }

def node (devices : List LocalDevice) (n : Int) : Node where
  present := ∃ d ∈ devices, d.numa = n
  cpus := devices.countP (onNode .cpu n)
  memoryUnits := devices.countP (onNode .memory n)
  unitBytes := {b | ∃ d ∈ devices, onNode .memory n d = true ∧ d.unitBytes = b}
  gpus := {g | ∃ d ∈ devices, onNode .gpu n d = true ∧ gpuOf d = g}
  openTPU := {p | ∃ d ∈ devices, onNode .openTPU n d = true ∧ offered devices n d = p}

/-- A cell says all there is to say of a node, in one way only. -/
structure Shows (cell : Cell) (v : Node) : Prop where
  cpus : cell.cpus = v.cpus
  memoryUnits : cell.memoryUnits = v.memoryUnits
  unitBytes : ∀ b, b ∈ v.unitBytes ↔ 0 < v.memoryUnits ∧ cell.memoryUnitBytes = b
  noUnits : v.memoryUnits = 0 → cell.memoryUnitBytes = 0
  gpus : ∀ g, g ∈ v.gpus ↔ g ∈ cell.gpus
  gpusSorted : cell.gpus.Pairwise (fun a b => a.uuid < b.uuid)
  openTPU : ∀ p, p ∈ v.openTPU ↔ p ∈ cell.openTPU
  openTPUSorted : cell.openTPU.Pairwise (fun a b => a.profile < b.profile)

structure Lists (devices : List LocalDevice) (cells : List Cell) : Prop where
  sorted : cells.Pairwise (fun a b => a.numa < b.numa)
  present : ∀ n, (node devices n).present ↔ ∃ cell ∈ cells, cell.numa = n
  shows : ∀ cell ∈ cells, Shows cell (node devices cell.numa)

section Determined

variable {cell cell' : Cell} {v v' : Node} {devices devices' : List LocalDevice}
  {cells cells' : List Cell}

theorem Shows.cell_eq (h : Shows cell v) (h' : Shows cell' v) (hn : cell.numa = cell'.numa) :
    cell = cell' := by
  have hunit : cell.memoryUnitBytes = cell'.memoryUnitBytes := by
    by_cases hz : v.memoryUnits = 0
    · exact (h.noUnits hz).trans (h'.noUnits hz).symm
    · have hb := (h.unitBytes _).mpr ⟨Nat.pos_of_ne_zero hz, rfl⟩
      exact ((h'.unitBytes _).mp hb).2.symm
  have hgpus : cell.gpus = cell'.gpus := by
    apply eq_of_pairwise_lt h.gpusSorted h'.gpusSorted
    intro g
    rw [← h.gpus, h'.gpus]
  have hopenTPU : cell.openTPU = cell'.openTPU := by
    apply eq_of_pairwise_lt h.openTPUSorted h'.openTPUSorted
    intro p
    rw [← h.openTPU, h'.openTPU]
  have hcpus := h.cpus.trans h'.cpus.symm
  have hunits := h.memoryUnits.trans h'.memoryUnits.symm
  cases cell
  cases cell'
  rw [Cell.mk.injEq]
  exact ⟨hn, hcpus, hunits, hunit, hgpus, hopenTPU⟩

theorem Shows.node_eq (h : Shows cell v) (h' : Shows cell v') (hp : v.present ↔ v'.present) :
    v = v' := by
  have hunits : v.memoryUnits = v'.memoryUnits := by
    exact_mod_cast h.memoryUnits.symm.trans h'.memoryUnits
  have hcpus : v.cpus = v'.cpus := by
    exact_mod_cast h.cpus.symm.trans h'.cpus
  have hbytes : v.unitBytes = v'.unitBytes := by
    ext b
    rw [h.unitBytes, h'.unitBytes, hunits]
  have hgpus : v.gpus = v'.gpus := by
    ext g
    rw [h.gpus, h'.gpus]
  have hopenTPU : v.openTPU = v'.openTPU := by
    ext p
    rw [h.openTPU, h'.openTPU]
  cases v
  cases v'
  rw [Node.mk.injEq]
  exact ⟨propext hp, hcpus, hunits, hbytes, hgpus, hopenTPU⟩

theorem node_absent {n : Int} (h : ¬ (node devices n).present) :
    node devices n = ⟨False, 0, 0, ∅, ∅, ∅⟩ := by
  have hoff : ∀ kind, ∀ d ∈ devices, ¬ onNode kind n d = true := by
    intro kind d hd hon
    exact h ⟨d, hd, (onNode_iff.mp hon).2⟩
  have hnone : ∀ {α : Type} (kind : DeviceKind) (f : LocalDevice → α),
      {a | ∃ d ∈ devices, onNode kind n d = true ∧ f d = a} = ∅ := by
    intro α kind f
    rw [Set.eq_empty_iff_forall_notMem]
    rintro a ⟨d, hd, hon, -⟩
    exact hoff kind d hd hon
  have hzero : ∀ kind, devices.countP (onNode kind n) = 0 := by
    intro kind
    rw [List.countP_eq_zero]
    exact hoff kind
  have hfalse : (∃ d ∈ devices, d.numa = n) = False := eq_false h
  rw [node, hfalse, hzero, hzero, hnone, hnone, hnone]

theorem Lists.eq_iff (h : Lists devices cells) (h' : Lists devices' cells') :
    cells = cells' ↔ ∀ n, node devices n = node devices' n := by
  constructor
  · rintro rfl n
    have hpresent : (node devices n).present ↔ (node devices' n).present := by
      rw [h.present, h'.present]
    by_cases hp : (node devices n).present
    · obtain ⟨cell, hcell, rfl⟩ := (h.present n).mp hp
      exact (h.shows cell hcell).node_eq (h'.shows cell hcell) hpresent
    · rw [node_absent hp, node_absent (fun hp' => hp (hpresent.mpr hp'))]
  · intro hnodes
    have hsub : ∀ {ds ds' : List LocalDevice} {cs cs' : List Cell}, Lists ds cs → Lists ds' cs' →
        (∀ n, node ds n = node ds' n) → ∀ cell ∈ cs, cell ∈ cs' := by
      intro ds ds' cs cs' hl hl' heq cell hcell
      have hp : (node ds' cell.numa).present := by
        rw [← heq]
        exact (hl.present _).mpr ⟨cell, hcell, rfl⟩
      obtain ⟨cell', hcell', hn⟩ := (hl'.present _).mp hp
      have hshows := hl'.shows cell' hcell'
      rw [hn, ← heq] at hshows
      rwa [(hl.shows cell hcell).cell_eq hshows hn.symm]
    apply eq_of_pairwise_lt h.sorted h'.sorted
    intro cell
    exact ⟨hsub h h' hnodes cell, hsub h' h (fun n => (hnodes n).symm) cell⟩

end Determined

section Loop

variable {devices done : List LocalDevice} {d : LocalDevice} {t t' : Tables} {n : Int}

/-- The number of the slots of a profile, if there are any. -/
def tally (k : ℕ) : Option Int := if k = 0 then none else some k

def Slotted (done : List LocalDevice) (t : Tables) : Prop :=
  ∀ n name, ((t.profilesOf n).lookup name).map OpenTPU.count = tally (done.countP (slotOf n name))

theorem slotted_empty : Slotted [] ⟨∅, ∅⟩ := by
  intro n name
  simp [Tables.profilesOf, tally]

theorem Slotted.snoc (hs : Slotted done t) (h : addToCell t d = .ok t') :
    Slotted (done ++ [d]) t' := by
  intro n name
  rw [lookup_addToCell h, List.countP_append]
  by_cases hslot : slotOf n name d = true
  · obtain ⟨-, rfl, rfl⟩ := slotOf_iff.mp hslot
    have hold := hs d.numa d.profile
    have hcount : (profileFor t d).count = (done.countP (slotOf d.numa d.profile) : Int) := by
      unfold profileFor
      cases hl : (t.profilesOf d.numa).lookup d.profile with
      | none =>
        rw [hl, tally] at hold
        split at hold
        next hz =>
          rw [hz]
          rfl
        · cases hold
      | some profile =>
        rw [hl, tally] at hold
        split at hold
        · cases hold
        · exact Option.some.inj hold
    rw [if_pos hslot, Option.map_some, hcount]
    simp [tally, hslot]
  · rw [if_neg hslot, hs n name]
    simp [hslot]

/-- What the tables hold of the devices that are done. -/
structure Gathered (done : List LocalDevice) (t : Tables) : Prop where
  counted : Counted done t
  profiled : Profiled done t
  slotted : Slotted done t

theorem gathered_empty : Gathered [] ⟨∅, ∅⟩ := by
  refine ⟨counted_empty, ?_, slotted_empty⟩
  intro n name profile hl
  simp [Tables.profilesOf] at hl

theorem Gathered.snoc (hg : Gathered done t) (h : addToCell t d = .ok t') :
    Gathered (done ++ [d]) t' :=
  ⟨hg.counted.snoc h, hg.profiled.snoc h, hg.slotted.snoc h⟩

theorem Gathered.lookup_slot (hg : Gathered done t) {name : String} (hd : d ∈ done)
    (hslot : slotOf n name d = true) :
    ∃ a ∈ done, slotOf n name a = true ∧
      (t.profilesOf n).lookup name = some (offered done n a) := by
  have hcount := hg.slotted n name
  have hpos : done.countP (slotOf n name) ≠ 0 := (List.countP_pos_iff.mpr ⟨d, hd, hslot⟩).ne'
  rw [tally, if_neg hpos] at hcount
  obtain ⟨profile, hl, hk⟩ := Option.map_eq_some_iff.mp hcount
  obtain ⟨a, ha, hka, hna, rfl, heq⟩ := hg.profiled n name profile hl
  refine ⟨a, ha, slotOf_iff.mpr ⟨hka, hna, rfl⟩, ?_⟩
  rw [hl, heq, hk]
  rfl

def Agree (a b : LocalDevice) : Prop :=
  (a.kind = .memory → b.kind = .memory → a.numa = b.numa → a.unitBytes = b.unitBytes) ∧
    (a.kind = .openTPU → b.kind = .openTPU → a.numa = b.numa → a.profile = b.profile →
      sameFootprint (newProfile a) b = true)

theorem sameFootprint_iff {p : OpenTPU} : sameFootprint p d = true ↔ p.matrixSize = d.matrixSize ∧
    p.cpuCores = d.cpuCores ∧ p.memoryBytes = d.memoryBytes ∧ p.sharedMemory = d.sharedMemory := by
  simp [sameFootprint, and_assoc]

theorem Agree.symm {a b : LocalDevice} (h : Agree a b) : Agree b a := by
  constructor
  · intro hb ha hn
    exact (h.1 ha hb hn.symm).symm
  · intro hb ha hn hp
    obtain ⟨hsize, hcores, hmemory, hshared⟩ := sameFootprint_iff.mp (h.2 ha hb hn.symm hp.symm)
    exact sameFootprint_iff.mpr ⟨hsize.symm, hcores.symm, hmemory.symm, hshared.symm⟩

theorem agree_refl (a : LocalDevice) : Agree a a :=
  ⟨fun _ _ _ => rfl, fun _ _ _ _ => sameFootprint_iff.mpr ⟨rfl, rfl, rfl, rfl⟩⟩

theorem uniform_iff : Uniform devices ↔ ∀ a ∈ devices, ∀ b ∈ devices, Agree a b := by
  constructor
  · intro hu a ha b hb
    exact ⟨hu.units a ha b hb, hu.footprints a ha b hb⟩
  · intro h
    exact ⟨fun a ha b hb => (h a ha b hb).1, fun a ha b hb => (h a ha b hb).2⟩

theorem unitOn_of_uniform (hu : Uniform devices) (hd : d ∈ devices)
    (hon : onNode .memory n d = true) : unitOn devices n = d.unitBytes := by
  obtain ⟨e, he, hone, heq⟩ := unitOn_mem hd hon
  obtain ⟨hk, hn⟩ := onNode_iff.mp hon
  obtain ⟨hke, hne⟩ := onNode_iff.mp hone
  rw [heq]
  exact hu.units e he d hd hke hk (hne.trans hn.symm)

theorem agree_of_step (hpos : ∀ a ∈ done, a.kind = .memory → 0 < a.unitBytes) (hu : Uniform done)
    (hg : Gathered done t) (h : addToCell t d = .ok t') : ∀ a ∈ done, Agree a d := by
  obtain ⟨hunit, hfootprint⟩ := addToCell_ok_iff.mp ⟨t', h⟩
  intro a ha
  constructor
  · intro hka hkd hn
    have hon : onNode .memory d.numa a = true := onNode_iff.mpr ⟨hka, hn⟩
    have hcell : (t.cell d.numa).memoryUnitBytes = a.unitBytes := by
      rw [hg.counted.cell]
      exact unitOn_of_uniform hu ha hon
    obtain hzero | heq := hunit hkd
    · -- a unit of zero would be one that no device has
      have hlt := hpos a ha hka
      omega
    · exact hcell.symm.trans heq
  · intro hka hkd hn hname
    obtain ⟨b, hb, hslot, hl⟩ := hg.lookup_slot ha (slotOf_iff.mpr ⟨hka, hn, hname⟩)
    obtain ⟨hkb, hnb, hnameb⟩ := slotOf_iff.mp hslot
    have hbd := hfootprint hkd
    rw [profileFor, hl, Option.getD_some, sameFootprint_iff] at hbd
    have hba := sameFootprint_iff.mp
      (hu.footprints b hb a ha hkb hka (hnb.trans hn.symm) (hnameb.trans hname.symm))
    obtain ⟨hsize, hcores, hmemory, hshared⟩ := hba
    obtain ⟨hsize', hcores', hmemory', hshared'⟩ := hbd
    exact sameFootprint_iff.mpr ⟨hsize.symm.trans hsize', hcores.symm.trans hcores',
      hmemory.symm.trans hmemory', hshared.symm.trans hshared'⟩

theorem Uniform.snoc (hu : Uniform done) (h : ∀ a ∈ done, Agree a d) : Uniform (done ++ [d]) := by
  rw [uniform_iff] at hu ⊢
  intro a ha b hb
  simp only [List.mem_append, List.mem_singleton] at ha hb
  obtain ha | rfl := ha
  · obtain hb | rfl := hb
    · exact hu a ha b hb
    · exact h a ha
  · obtain hb | rfl := hb
    · exact (h b hb).symm
    · exact agree_refl _

theorem gathered_of_fold (hpos : ∀ a ∈ devices, a.kind = .memory → 0 < a.unitBytes)
    (h : devices.foldlM addToCell ⟨∅, ∅⟩ = .ok t) : Gathered devices t ∧ Uniform devices := by
  have hall : (∀ a ∈ devices, a ∈ devices) ∧ Gathered devices t ∧ Uniform devices := by
    apply foldlM_invariant
      (fun done t => (∀ a ∈ done, a ∈ devices) ∧ Gathered done t ∧ Uniform done) h
    · exact ⟨by simp, gathered_empty, by simp, by simp⟩
    · rintro done d t t' hd ⟨hsub, hg, hu⟩ hstep
      have hpos' := fun a ha => hpos a (hsub a ha)
      refine ⟨?_, hg.snoc hstep, Uniform.snoc hu (agree_of_step hpos' hu hg hstep)⟩
      intro a ha
      obtain ha | ha := List.mem_append.mp ha
      · exact hsub a ha
      · rwa [List.mem_singleton.mp ha]
  exact hall.2

def uuids (devices : List LocalDevice) : List String :=
  (devices.filter (fun d => d.kind == .gpu)).map LocalDevice.uuid

theorem nodup_gpus (h : (uuids devices).Nodup) (n : Int) :
    (((devices.filter (onNode .gpu n)).map gpuOf).map GPU.uuid).Nodup := by
  have hfilter : devices.filter (onNode .gpu n) =
      (devices.filter (fun d => d.kind == .gpu)).filter (fun d => d.numa == n) := by
    rw [List.filter_filter]
    apply List.filter_congr
    intro d _
    rw [onNode, Bool.and_comm]
  rw [List.map_map, hfilter]
  exact h.sublist (List.filter_sublist.map _)

theorem Gathered.lookup_iff (hg : Gathered devices t) (hu : Uniform devices) {name : String}
    {p : OpenTPU} : (t.profilesOf n).lookup name = some p ↔
      p.profile = name ∧ p ∈ (node devices n).openTPU := by
  constructor
  · intro hl
    obtain ⟨d, hd, hk, hn, hname, -⟩ := hg.profiled n name p hl
    obtain ⟨a, ha, hslot, hla⟩ := hg.lookup_slot hd (slotOf_iff.mpr ⟨hk, hn, hname⟩)
    obtain ⟨hka, hna, hnamea⟩ := slotOf_iff.mp hslot
    obtain rfl := Option.some.inj (hla.symm.trans hl)
    exact ⟨hnamea, a, ha, onNode_iff.mpr ⟨hka, hna⟩, rfl⟩
  · rintro ⟨rfl, d, hd, hon, rfl⟩
    obtain ⟨hk, hn⟩ := onNode_iff.mp hon
    obtain ⟨a, ha, hslot, hl⟩ := hg.lookup_slot hd (slotOf_iff.mpr ⟨hk, hn, rfl⟩)
    obtain ⟨hka, hna, hname⟩ := slotOf_iff.mp hslot
    obtain ⟨hsize, hcores, hmemory, hshared⟩ := sameFootprint_iff.mp
      (hu.footprints a ha d hd hka hk (hna.trans hn.symm) hname)
    have hsame : newProfile a = newProfile d := by
      rw [newProfile, newProfile, hname]
      exact congr (congr (congr (congrArg _ hsize) hcores) hmemory) hshared
    have hoffered : offered devices n a = offered devices n d := by
      rw [offered, offered, hsame, hname]
    exact hl.trans (congrArg some hoffered)

theorem mem_unitBytes (hu : Uniform devices) (b : Int) : b ∈ (node devices n).unitBytes ↔
    0 < (node devices n).memoryUnits ∧ unitOn devices n = b := by
  constructor
  · rintro ⟨d, hd, hon, rfl⟩
    exact ⟨List.countP_pos_iff.mpr ⟨d, hd, hon⟩, unitOn_of_uniform hu hd hon⟩
  · rintro ⟨hpos, rfl⟩
    obtain ⟨d, hd, hon⟩ := List.countP_pos_iff.mp hpos
    exact ⟨d, hd, hon, (unitOn_of_uniform hu hd hon).symm⟩

theorem unitOn_eq_zero (h : devices.countP (onNode .memory n) = 0) : unitOn devices n = 0 := by
  have hnil : devices.filter (onNode .memory n) = [] :=
    List.filter_eq_nil_iff.mpr (List.countP_eq_zero.mp h)
  rw [unitOn, hnil]
  rfl

theorem Gathered.shows (hg : Gathered devices t) (hu : Uniform devices)
    (hn : (uuids devices).Nodup) (n : Int) : Shows (finishCell t n) (node devices n) := by
  have hcell := hg.counted.finishCell_eq n
  have hunit : (finishCell t n).memoryUnitBytes = unitOn devices n := by
    rw [hcell]
    rfl
  have hgpus : (finishCell t n).gpus =
      ((devices.filter (onNode .gpu n)).map gpuOf).insertionSort (fun a b => a.uuid ≤ b.uuid) := by
    rw [hcell]
    rfl
  have hnames : (((t.profilesOf n).keys.insertionSort (· ≤ ·))).Pairwise (· < ·) := by
    apply pairwise_lt_insertionSort (f := id)
    rw [List.map_id]
    exact (t.profilesOf n).nodupKeys
  constructor
  · rw [hcell]
    rfl
  · rw [hcell]
    rfl
  · intro b
    rw [hunit]
    exact mem_unitBytes hu b
  · intro hz
    rw [hunit]
    exact unitOn_eq_zero hz
  · intro g
    exact (hg.counted.mem_gpus n g).symm
  · rw [hgpus]
    exact pairwise_lt_insertionSort (nodup_gpus hn n)
  · intro p
    simp only [finishCell, List.mem_filterMap, List.mem_insertionSort, hg.lookup_iff hu]
    constructor
    · intro hp
      refine ⟨p.profile, ?_, rfl, hp⟩
      exact mem_keys_iff.mpr (by rw [(hg.lookup_iff hu).mpr ⟨rfl, hp⟩]; rfl)
    · rintro ⟨name, -, -, hp⟩
      exact hp
  · refine hnames.filterMap _ ?_
    intro name name' hlt p hp p' hp'
    rw [((hg.lookup_iff hu).mp hp).1, ((hg.lookup_iff hu).mp hp').1]
    exact hlt

theorem Gathered.lists (hg : Gathered devices t) (hu : Uniform devices)
    (hn : (uuids devices).Nodup) : Lists devices (finishCells t) := by
  have hnodup : (t.cells.keys.map id).Nodup := by
    rw [List.map_id]
    exact t.cells.nodupKeys
  refine ⟨?_, ?_, ?_⟩
  · rw [finishCells, List.pairwise_map]
    simp only [hg.counted.numa_finishCell]
    exact pairwise_lt_insertionSort hnodup
  · intro n
    constructor
    · intro hp
      exact ⟨_, hg.counted.mem_finishCells.mpr ⟨n, hp, rfl⟩, hg.counted.numa_finishCell n⟩
    · rintro ⟨cell, hcell, rfl⟩
      obtain ⟨n, hp, rfl⟩ := hg.counted.mem_finishCells.mp hcell
      rwa [hg.counted.numa_finishCell]
  · intro cell hcell
    obtain ⟨n, -, rfl⟩ := hg.counted.mem_finishCells.mp hcell
    rw [hg.counted.numa_finishCell]
    exact hg.shows hu hn n

theorem node_perm {devices' : List LocalDevice} (h : devices.Perm devices') (n : Int) :
    node devices n = node devices' n := by
  simp only [node, offered, h.mem_iff, h.countP_eq]

theorem Lists.perm {devices' : List LocalDevice} {cells : List Cell} (h : Lists devices cells)
    (hp : devices.Perm devices') : Lists devices' cells := by
  refine ⟨h.sorted, ?_, ?_⟩
  · intro n
    rw [← node_perm hp]
    exact h.present n
  · intro cell hcell
    rw [← node_perm hp]
    exact h.shows cell hcell

end Loop

section Summary

variable {sha256 : String → String} {order : RangeOrder LocalDevice}
  {inv inv' : ComputeDriver.Inventory} {bootID : String}
  {r : HardwareInventory.Inventory × String × String}

structure Sound (inv : ComputeDriver.Inventory) : Prop where
  units : ∀ d ∈ values inv.devices, d.kind = .memory → 0 < d.unitBytes
  uuids : (uuids (values inv.devices)).Nodup

theorem name_of_gpu {orderN : CPUOrders} {host : Host}
    (h : discoverInventory orderN host = .ok inv) {d : LocalDevice} (hd : d ∈ values inv.devices)
    (hk : d.kind = .gpu) : d.name = gpuName d.uuid := by
  obtain ⟨s, profiles, base, -, -, ht, rfl⟩ := discoverInventory_spec h
  obtain ⟨name, hl⟩ := mem_values.mp hd
  obtain ⟨hgpu, -⟩ | hbase := of_lookup_storeAll hl
  · obtain ⟨row, -, n, -, rfl⟩ := mem_gpuDevices.mp hgpu
    rfl
  · exact absurd hk (ht.kind_ne hbase).1

theorem sound_of_discovery {orderN : CPUOrders} {host : Host}
    (h : discoverInventory orderN host = .ok inv) : Sound inv := by
  obtain ⟨s, profiles, hconf, hfiled, horigin⟩ := discoverInventory_origin h
  constructor
  · intro d hd hk
    cases horigin d hd (by simp [hk]) with
    | cpu => cases hk
    | memory => exact (settings_bounds hconf.settings).1
    | openTPU => cases hk
  · -- a GPU is filed under a name that is made of its UUID
    apply List.Nodup.of_map gpuName
    have hnames : (uuids (values inv.devices)).map gpuName =
        ((values inv.devices).filter (fun d => d.kind == .gpu)).map LocalDevice.name := by
      rw [uuids, List.map_map]
      apply List.map_congr_left
      intro d hd
      rw [List.mem_filter, beq_iff_eq] at hd
      exact (name_of_gpu h hd.1 hd.2).symm
    rw [hnames]
    exact hfiled.nodup.sublist (List.filter_sublist.map _)

def summaryOf (sha256 : String → String) (bootID : String) (cells : List Cell) :
    HardwareInventory.Inventory × String × String :=
  (⟨1, bootID, cells⟩, inventoryText ⟨1, bootID, cells⟩, sha256 (cellsText cells))

theorem lists_of_summary (hs : Sound inv) (h : summary sha256 order inv bootID = .ok r) :
    bootID ≠ "" ∧ Uniform (values inv.devices) ∧
      ∃ cells, Lists (values inv.devices) cells ∧ r = summaryOf sha256 bootID cells := by
  have hperm := order.perm (values inv.devices)
  simp only [summary, bind_eq_ok, exists_unit, refuse_eq_ok, pure_eq_ok] at h
  obtain ⟨hboot, t, ht, rfl⟩ := h
  have hpos : ∀ d ∈ order.order (values inv.devices), d.kind = .memory → 0 < d.unitBytes := by
    intro d hd
    exact hs.units d (hperm.mem_iff.mp hd)
  have huuids : (uuids (order.order (values inv.devices))).Nodup :=
    ((hperm.filter _).map _).nodup_iff.mpr hs.uuids
  obtain ⟨hg, hu⟩ := gathered_of_fold hpos ht
  exact ⟨hboot, hu.perm hperm.symm, finishCells t, (hg.lists hu huuids).perm hperm, rfl⟩

/-- The summary is decided by the devices, not by the order of the loop. -/
theorem summary_iff (hs : Sound inv) : summary sha256 order inv bootID = .ok r ↔
    bootID ≠ "" ∧ Uniform (values inv.devices) ∧
      ∃ cells, Lists (values inv.devices) cells ∧ r = summaryOf sha256 bootID cells := by
  constructor
  · exact lists_of_summary hs
  · rintro ⟨hboot, hu, cells, hcells, rfl⟩
    obtain ⟨r, hr⟩ : ∃ r, summary sha256 order inv bootID = .ok r := summary_ok hu hboot
    obtain ⟨-, -, cells', hcells', rfl⟩ := lists_of_summary hs hr
    rw [(hcells.eq_iff hcells').mpr (fun _ => rfl)]
    exact hr

theorem toOption_eq {ε α : Type} {x y : Except ε α} (h : ∀ a, x = .ok a ↔ y = .ok a) :
    x.toOption = y.toOption := by
  cases x with
  | ok a => rw [(h a).mp rfl]
  | error e =>
    cases y with
    | ok a => cases (h a).mpr rfl
    | error e' => rfl

/-- The result does not depend on the order of the devices, the hash does not
depend on the boot, and it tells different hardware apart. -/
theorem summary_identity (hs : Sound inv) (hs' : Sound inv') :
    (∀ order order' bootID, (summary sha256 order inv bootID).toOption =
      (summary sha256 order' inv bootID).toOption) ∧
    (∀ order order' bootID bootID' r, bootID' ≠ "" → summary sha256 order inv bootID = .ok r →
      ∃ r', summary sha256 order' inv bootID' = .ok r' ∧ r'.2.2 = r.2.2) ∧
    (Function.Injective sha256 → ∀ order order' bootID bootID' r r',
      summary sha256 order inv bootID = .ok r → summary sha256 order' inv' bootID' = .ok r' →
      (r.2.2 = r'.2.2 ↔ r.1.cells = r'.1.cells) ∧
      (r.2.2 = r'.2.2 ↔ ∀ n, node (values inv.devices) n = node (values inv'.devices) n)) := by
  refine ⟨?_, ?_, ?_⟩
  · intro order order' bootID
    apply toOption_eq
    intro r
    rw [summary_iff hs, summary_iff hs]
  · intro order order' bootID bootID' r hboot h
    obtain ⟨-, hu, cells, hcells, rfl⟩ := (summary_iff hs).mp h
    exact ⟨_, (summary_iff hs).mpr ⟨hboot, hu, cells, hcells, rfl⟩, rfl⟩
  · intro hinj order order' bootID bootID' r r' h h'
    obtain ⟨-, -, cells, hcells, rfl⟩ := (summary_iff hs).mp h
    obtain ⟨-, -, cells', hcells', rfl⟩ := (summary_iff hs').mp h'
    have hhash : sha256 (cellsText cells) = sha256 (cellsText cells') ↔ cells = cells' := by
      rw [hinj.eq_iff, cellsText_injective.eq_iff]
    exact ⟨hhash, hhash.trans (hcells.eq_iff hcells')⟩

end Summary

section Samples

def movableGPU (node : Int) : LocalDevice :=
  { bareDevice "gpu" .gpu node with uuid := "GPU-1", model := "A100", vramMiB := 40960 }

/-- Two cores and some memory on two NUMA nodes, and a GPU on one of them. -/
def machineDevices (gpuNode : Int) : List LocalDevice :=
  [bareDevice "cpu-0" .cpu 0, bareDevice "cpu-1" .cpu 1,
    { bareDevice "memory-0" .memory 0 with unitBytes := 4096 }, movableGPU gpuNode]

def machine (gpuNode : Int) : ComputeDriver.Inventory :=
  ⟨"node", ⟨(machineDevices gpuNode).map (fun d => ⟨d.name, d⟩), by
    simp [machineDevices, movableGPU, bareDevice, List.NodupKeys, List.keys]⟩⟩

theorem values_machine (gpuNode : Int) : values (machine gpuNode).devices = machineDevices gpuNode :=
  rfl

theorem machine_sound (gpuNode : Int) : Sound (machine gpuNode) := by
  constructor
  · rw [values_machine]
    simp [machineDevices, movableGPU, bareDevice]
  · rw [values_machine]
    simp [uuids, machineDevices, movableGPU, bareDevice]

theorem machine_uniform (gpuNode : Int) : Uniform (values (machine gpuNode).devices) := by
  rw [values_machine]
  constructor
  · simp [machineDevices, movableGPU, bareDevice]
  · simp [machineDevices, movableGPU, bareDevice]

/-- Another order of the devices and another boot give the same hash, and a GPU that
is moved to the other node gives another one. -/
theorem summary_identity_machines : ∃ r r' moved,
    summary id (.same _) (machine 0) "boot-a" = .ok r ∧
      summary id ⟨List.reverse, List.reverse_perm⟩ (machine 0) "boot-b" = .ok r' ∧
      summary id (.same _) (machine 1) "boot-b" = .ok moved ∧
      r'.2.2 = r.2.2 ∧ r.2.2 ≠ moved.2.2 := by
  obtain ⟨r, hr⟩ : ∃ r, summary id (.same _) (machine 0) "boot-a" = .ok r :=
    summary_ok (machine_uniform 0) (by decide)
  obtain ⟨moved, hmoved⟩ : ∃ r, summary id (.same _) (machine 1) "boot-b" = .ok r :=
    summary_ok (machine_uniform 1) (by decide)
  obtain ⟨-, hstable, hidentifies⟩ := @summary_identity id _ _ (machine_sound 0) (machine_sound 1)
  obtain ⟨r', hr', hsame⟩ := hstable (.same _) ⟨List.reverse, List.reverse_perm⟩ "boot-a" "boot-b" r
    (by decide) hr
  refine ⟨r, r', moved, hr, hr', hmoved, hsame, ?_⟩
  intro hhash
  obtain ⟨-, hnodes⟩ := hidentifies Function.injective_id _ _ _ _ r moved hr hmoved
  have hgpu : gpuOf (movableGPU 1) ∈ (node (values (machine 0).devices) 1).gpus := by
    rw [hnodes.mp hhash 1]
    exact ⟨movableGPU 1, by simp [values_machine, machineDevices], by decide, rfl⟩
  have hoff : ∀ d ∈ machineDevices 0, onNode .gpu 1 d = false := by decide
  obtain ⟨d, hd, hon, -⟩ := hgpu
  exact absurd (hon.symm.trans (hoff d hd)) (by decide)

end Samples

end HeteroCluster.HardwareHash
