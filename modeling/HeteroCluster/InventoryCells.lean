import HeteroCluster.ComputeInventory

namespace HeteroCluster.InventoryCells

open FailFast KeyedRecords ComputeInventory
open ComputeDriver (DeviceKind LocalDevice)
open HardwareInventory (GPU Cell)

def onNode (kind : DeviceKind) (numa : Int) (d : LocalDevice) : Bool :=
  d.kind == kind && d.numa == numa

theorem onNode_iff {kind : DeviceKind} {n : Int} {d : LocalDevice} :
    onNode kind n d = true ↔ d.kind = kind ∧ d.numa = n := by
  simp [onNode]

/-- The unit of the memory devices of a node, zero if there are none. -/
def unitOn (devices : List LocalDevice) (numa : Int) : Int :=
  ((devices.filter (onNode .memory numa)).getLast?.map LocalDevice.unitBytes).getD 0

/-- What the loop of `summary` has gathered of a node, the profiles apart. -/
def cellOf (devices : List LocalDevice) (numa : Int) : Cell :=
  ⟨numa, devices.countP (onNode .cpu numa), devices.countP (onNode .memory numa),
    unitOn devices numa, (devices.filter (onNode .gpu numa)).map gpuOf, []⟩

structure Counted (devices : List LocalDevice) (t : Tables) : Prop where
  cell : ∀ n, t.cell n = cellOf devices n
  keys : ∀ n, n ∈ t.cells ↔ ∃ d ∈ devices, d.numa = n

variable {devices done : List LocalDevice} {d : LocalDevice} {t t' : Tables} {n : Int}

theorem counted_empty : Counted [] ⟨∅, ∅⟩ := by
  constructor
  · intro n
    simp [Tables.cell, cellOf, newCell, unitOn]
  · intro n
    simp

theorem cellOf_snoc_of_ne (h : n ≠ d.numa) : cellOf (done ++ [d]) n = cellOf done n := by
  have hoff : ∀ kind, onNode kind n d = false := by
    intro kind
    simp [onNode, h.symm]
  simp [cellOf, unitOn, List.countP_append, List.filter_append, hoff]

theorem addToCell_cells (h : addToCell t d = .ok t') (hc : t.cell d.numa = cellOf done d.numa) :
    t'.cells = t.cells.insert d.numa (cellOf (done ++ [d]) d.numa) := by
  have hon : ∀ kind, onNode kind d.numa d = (d.kind == kind) := by
    intro kind
    simp [onNode]
  unfold addToCell at h
  cases hk : d.kind with
  | cpu | gpu =>
    simp only [hk, hc, Except.ok.injEq] at h
    rw [← h]
    simp [cellOf, unitOn, List.countP_append, List.filter_append, hon, hk]
  | memory =>
    simp only [hk, hc] at h
    split at h
    · cases h
    · rw [← Except.ok.inj h]
      simp [cellOf, unitOn, List.countP_append, List.filter_append, hon, hk]
  | openTPU =>
    simp only [hk, hc] at h
    split at h
    · cases h
    · rw [← Except.ok.inj h]
      simp [cellOf, unitOn, List.countP_append, List.filter_append, hon, hk]

theorem Counted.snoc (hc : Counted done t) (h : addToCell t d = .ok t') :
    Counted (done ++ [d]) t' := by
  have hcells := addToCell_cells h (hc.cell d.numa)
  constructor
  · intro n
    by_cases hn : n = d.numa
    · subst hn
      rw [Tables.cell, hcells, AList.lookup_insert]
      rfl
    · rw [cellOf_snoc_of_ne hn, ← hc.cell, Tables.cell, Tables.cell, hcells,
        AList.lookup_insert_ne hn]
  · intro n
    rw [hcells, AList.mem_insert, hc.keys]
    simp only [List.mem_append, List.mem_singleton]
    constructor
    · rintro (rfl | ⟨e, he, rfl⟩)
      · exact ⟨d, Or.inr rfl, rfl⟩
      · exact ⟨e, Or.inl he, rfl⟩
    · rintro ⟨e, he | rfl, rfl⟩
      · exact Or.inr ⟨e, he, rfl⟩
      · exact Or.inl rfl

theorem counted_of_fold (h : devices.foldlM addToCell ⟨∅, ∅⟩ = .ok t) : Counted devices t := by
  apply foldlM_invariant Counted h counted_empty
  intro done d t t' _ hc hstep
  exact hc.snoc hstep

/-- What the cells say of the devices, in whatever order they were gathered. -/
structure Reflects (devices : List LocalDevice) (cells : List Cell) : Prop where
  covered : ∀ n, (∃ cell ∈ cells, cell.numa = n) ↔ ∃ d ∈ devices, d.numa = n
  cpus : ∀ cell ∈ cells, cell.cpus = devices.countP (onNode .cpu cell.numa)
  units : ∀ cell ∈ cells, cell.memoryUnits = devices.countP (onNode .memory cell.numa)
  unitBytes : ∀ cell ∈ cells, ∀ d ∈ devices, onNode .memory cell.numa d = true →
    ∃ d' ∈ devices, onNode .memory cell.numa d' = true ∧ cell.memoryUnitBytes = d'.unitBytes
  gpus : ∀ g, (∃ cell ∈ cells, g ∈ cell.gpus) ↔ ∃ d ∈ devices, d.kind = .gpu ∧ gpuOf d = g

theorem unitOn_mem (hd : d ∈ devices) (h : onNode .memory n d = true) :
    ∃ d' ∈ devices, onNode .memory n d' = true ∧ unitOn devices n = d'.unitBytes := by
  have hne : devices.filter (onNode .memory n) ≠ [] :=
    List.ne_nil_of_mem (List.mem_filter.mpr ⟨hd, h⟩)
  obtain ⟨hmem, hon⟩ := List.mem_filter.mp (List.getLast_mem hne)
  refine ⟨_, hmem, hon, ?_⟩
  rw [unitOn, List.getLast?_eq_getLast_of_ne_nil hne]
  rfl

theorem Counted.finishCell_eq (hc : Counted devices t) (n : Int) :
    finishCell t n = { cellOf devices n with
      gpus := (cellOf devices n).gpus.insertionSort (fun a b => a.uuid ≤ b.uuid)
      openTPU := (finishCell t n).openTPU } := by
  rw [← hc.cell]
  rfl

theorem Counted.numa_finishCell (hc : Counted devices t) (n : Int) : (finishCell t n).numa = n := by
  rw [hc.finishCell_eq]
  rfl

theorem Counted.mem_gpus (hc : Counted devices t) (n : Int) (g : GPU) :
    g ∈ (finishCell t n).gpus ↔ ∃ d ∈ devices, onNode .gpu n d = true ∧ gpuOf d = g := by
  rw [hc.finishCell_eq]
  simp [cellOf, and_assoc]

theorem Counted.mem_finishCells (hc : Counted devices t) {cell : Cell} :
    cell ∈ finishCells t ↔ ∃ n, (∃ d ∈ devices, d.numa = n) ∧ finishCell t n = cell := by
  simp only [finishCells, List.mem_map, List.mem_insertionSort, ← hc.keys, AList.mem_keys]

theorem Counted.exists_gpus (hc : Counted devices t) (g : GPU) :
    (∃ cell ∈ finishCells t, g ∈ cell.gpus) ↔ ∃ d ∈ devices, d.kind = .gpu ∧ gpuOf d = g := by
  constructor
  · rintro ⟨cell, hcell, hg⟩
    obtain ⟨n, -, rfl⟩ := hc.mem_finishCells.mp hcell
    obtain ⟨d, hd, hon, rfl⟩ := (hc.mem_gpus n g).mp hg
    exact ⟨d, hd, (onNode_iff.mp hon).1, rfl⟩
  · rintro ⟨d, hd, hk, rfl⟩
    refine ⟨_, hc.mem_finishCells.mpr ⟨d.numa, ⟨d, hd, rfl⟩, rfl⟩, (hc.mem_gpus _ _).mpr ?_⟩
    exact ⟨d, hd, onNode_iff.mpr ⟨hk, rfl⟩, rfl⟩

theorem Counted.reflects (hc : Counted devices t) : Reflects devices (finishCells t) := by
  refine ⟨?_, ?_, ?_, ?_, hc.exists_gpus⟩
  · intro n
    constructor
    · rintro ⟨cell, hcell, rfl⟩
      obtain ⟨n, hn, rfl⟩ := hc.mem_finishCells.mp hcell
      rwa [hc.numa_finishCell]
    · intro hn
      exact ⟨_, hc.mem_finishCells.mpr ⟨n, hn, rfl⟩, hc.numa_finishCell n⟩
  · intro cell hcell
    obtain ⟨n, -, rfl⟩ := hc.mem_finishCells.mp hcell
    rw [hc.numa_finishCell, hc.finishCell_eq]
    rfl
  · intro cell hcell
    obtain ⟨n, -, rfl⟩ := hc.mem_finishCells.mp hcell
    rw [hc.numa_finishCell, hc.finishCell_eq]
    rfl
  · intro cell hcell d hd hon
    obtain ⟨n, -, rfl⟩ := hc.mem_finishCells.mp hcell
    rw [hc.numa_finishCell] at hon ⊢
    rw [hc.finishCell_eq]
    exact unitOn_mem hd hon

theorem Reflects.perm {devices' : List LocalDevice} {cells : List Cell}
    (h : Reflects devices cells) (hp : devices.Perm devices') : Reflects devices' cells where
  covered n := by
    rw [h.covered]
    simp only [hp.mem_iff]
  cpus cell hcell := by rw [h.cpus cell hcell, hp.countP_eq]
  units cell hcell := by rw [h.units cell hcell, hp.countP_eq]
  unitBytes cell hcell d hd hon := by
    obtain ⟨d', hd', hrest⟩ := h.unitBytes cell hcell d (hp.mem_iff.mpr hd) hon
    exact ⟨d', hp.mem_iff.mp hd', hrest⟩
  gpus g := by
    rw [h.gpus]
    simp only [hp.mem_iff]

section Summary

variable {sha256 : String → String} {order : RangeOrder LocalDevice} {inv : ComputeDriver.Inventory}
  {bootID : String}

/-- The published summary. Its hash does not look at the boot ID. -/
theorem summary_spec {result : HardwareInventory.Inventory} {encoded hash : String}
    (h : summary sha256 order inv bootID = .ok (result, encoded, hash)) :
    bootID ≠ "" ∧ result.version = 1 ∧ result.bootID = bootID ∧ encoded = inventoryText result ∧
      hash = sha256 (cellsText result.cells) ∧ Reflects (values inv.devices) result.cells := by
  simp only [summary, bind_eq_ok, exists_unit, refuse_eq_ok, pure_eq_ok, Prod.mk.injEq] at h
  obtain ⟨hboot, t, ht, rfl, rfl, rfl⟩ := h
  exact ⟨hboot, rfl, rfl, rfl, rfl, (counted_of_fold ht).reflects.perm (order.perm _)⟩

/-- The devices of a node agree on the memory unit, and the slots of a profile on
their footprint. -/
structure Uniform (devices : List LocalDevice) : Prop where
  units : ∀ a ∈ devices, ∀ b ∈ devices, a.kind = .memory → b.kind = .memory → a.numa = b.numa →
    a.unitBytes = b.unitBytes
  footprints : ∀ a ∈ devices, ∀ b ∈ devices, a.kind = .openTPU → b.kind = .openTPU →
    a.numa = b.numa → a.profile = b.profile → sameFootprint (newProfile a) b = true

def slotOf (n : Int) (name : String) (d : LocalDevice) : Bool :=
  onNode .openTPU n d && d.profile == name

theorem slotOf_iff {name : String} :
    slotOf n name d = true ↔ d.kind = .openTPU ∧ d.numa = n ∧ d.profile = name := by
  simp [slotOf, onNode_iff, and_assoc]

def profileFor (t : Tables) (d : LocalDevice) : HardwareInventory.OpenTPU :=
  ((t.profilesOf d.numa).lookup d.profile).getD (newProfile d)

theorem lookup_addToCell (h : addToCell t d = .ok t') (n : Int) (name : String) :
    (t'.profilesOf n).lookup name = if slotOf n name d = true then
        some { profileFor t d with count := (profileFor t d).count + 1 }
        else (t.profilesOf n).lookup name := by
  have hother : d.kind ≠ .openTPU → t'.profiles = t.profiles →
      (t'.profilesOf n).lookup name = if slotOf n name d = true then
        some { profileFor t d with count := (profileFor t d).count + 1 }
        else (t.profilesOf n).lookup name := by
    intro hk hsame
    rw [if_neg (fun hs => hk (slotOf_iff.mp hs).1), Tables.profilesOf, hsame]
    rfl
  unfold addToCell at h
  cases hk : d.kind with
  | cpu | gpu =>
    simp only [hk, Except.ok.injEq] at h
    exact hother (by simp [hk]) (by rw [← h])
  | memory =>
    simp only [hk] at h
    split at h
    · cases h
    · exact hother (by simp [hk]) (by rw [← Except.ok.inj h])
  | openTPU =>
    simp only [hk] at h
    split at h
    · cases h
    · rw [← Except.ok.inj h, Tables.profilesOf]
      by_cases hn : n = d.numa
      · subst hn
        rw [AList.lookup_insert, Option.getD_some]
        by_cases hname : name = d.profile
        · subst hname
          rw [AList.lookup_insert, if_pos (slotOf_iff.mpr ⟨hk, rfl, rfl⟩)]
          rfl
        · rw [AList.lookup_insert_ne hname, if_neg (fun hs => hname (slotOf_iff.mp hs).2.2.symm)]
      · rw [AList.lookup_insert_ne hn, if_neg (fun hs => hn (slotOf_iff.mp hs).2.1.symm)]
        rfl

/-- Each profile in the tables has the footprint of a device. -/
def Profiled (done : List LocalDevice) (t : Tables) : Prop :=
  ∀ n name profile, (t.profilesOf n).lookup name = some profile → ∃ a ∈ done, a.kind = .openTPU ∧
    a.numa = n ∧ a.profile = name ∧ profile = { newProfile a with count := profile.count }

theorem unitOn_eq (hu : Uniform devices) (hsub : ∀ a ∈ done, a ∈ devices) (hd : d ∈ devices)
    (hk : d.kind = .memory) : unitOn done d.numa = 0 ∨ unitOn done d.numa = d.unitBytes := by
  by_cases hmem : ∃ a ∈ done, onNode .memory d.numa a = true
  · obtain ⟨a, ha, hon⟩ := hmem
    obtain ⟨b, hb, hon, heq⟩ := unitOn_mem ha hon
    rw [onNode_iff] at hon
    exact Or.inr (heq.trans (hu.units b (hsub b hb) d hd hon.1 hk hon.2))
  · have hnil : done.filter (onNode .memory d.numa) = [] := by
      rw [List.filter_eq_nil_iff]
      intro a ha hon
      exact hmem ⟨a, ha, hon⟩
    simp [unitOn, hnil]

theorem Profiled.slot (hp : Profiled done t) (hd : d.kind = .openTPU) :
    ∃ a ∈ done ++ [d], a.kind = .openTPU ∧ a.numa = d.numa ∧ a.profile = d.profile ∧
      ∃ count, profileFor t d = { newProfile a with count := count } := by
  unfold profileFor
  cases hl : (t.profilesOf d.numa).lookup d.profile with
  | none => exact ⟨d, by simp, hd, rfl, rfl, 0, rfl⟩
  | some profile =>
    obtain ⟨a, ha, hk, hn, hname, heq⟩ := hp _ _ _ hl
    exact ⟨a, List.mem_append_left _ ha, hk, hn, hname, profile.count, heq⟩

theorem Profiled.snoc (hp : Profiled done t) (h : addToCell t d = .ok t') :
    Profiled (done ++ [d]) t' := by
  intro n name profile hl
  rw [lookup_addToCell h] at hl
  by_cases hs : slotOf n name d = true
  · obtain ⟨hk, rfl, rfl⟩ := slotOf_iff.mp hs
    obtain ⟨a, ha, hka, hna, hname, count, heq⟩ := hp.slot hk
    rw [if_pos hs, Option.some.injEq, heq] at hl
    refine ⟨a, ha, hka, hna, hname, ?_⟩
    rw [← hl]
  · rw [if_neg hs] at hl
    obtain ⟨a, ha, hrest⟩ := hp n name profile hl
    exact ⟨a, List.mem_append_left _ ha, hrest⟩

theorem addToCell_ok_iff : (∃ t', addToCell t d = .ok t') ↔
    (d.kind = .memory → (t.cell d.numa).memoryUnitBytes = 0 ∨
      (t.cell d.numa).memoryUnitBytes = d.unitBytes) ∧
    (d.kind = .openTPU → sameFootprint (profileFor t d) d = true) := by
  unfold addToCell profileFor
  cases hk : d.kind with
  | cpu | gpu => simp
  | memory =>
    simp only [true_implies, reduceCtorEq, false_implies, and_true]
    split
    next h => simpa [not_or] using h
    next h => simpa [← or_iff_not_imp_left] using h
  | openTPU =>
    simp only [true_implies, reduceCtorEq, false_implies, true_and]
    split
    next h => simpa using h
    next h => simpa using h

theorem addToCell_ok (hu : Uniform devices) (hsub : ∀ a ∈ done ++ [d], a ∈ devices)
    (hc : Counted done t) (hp : Profiled done t) : ∃ t', addToCell t d = .ok t' := by
  have hd : d ∈ devices := hsub d (by simp)
  rw [addToCell_ok_iff, hc.cell]
  constructor
  · intro hk
    exact unitOn_eq hu (fun a ha => hsub a (List.mem_append_left _ ha)) hd hk
  · intro hk
    obtain ⟨a, ha, hka, hna, hname, count, heq⟩ := hp.slot hk
    rw [heq]
    exact hu.footprints a (hsub a ha) d hd hka hk hna hname

theorem Uniform.perm {devices' : List LocalDevice} (hu : Uniform devices)
    (hp : devices'.Perm devices) : Uniform devices' where
  units a ha b hb := hu.units a (hp.mem_iff.mp ha) b (hp.mem_iff.mp hb)
  footprints a ha b hb := hu.footprints a (hp.mem_iff.mp ha) b (hp.mem_iff.mp hb)

theorem summary_ok (hu : Uniform (values inv.devices)) (hb : bootID ≠ "") :
    ∃ r, summary sha256 order inv bootID = .ok r := by
  have hu' := hu.perm (order.perm (values inv.devices))
  obtain ⟨t, ht, -⟩ := foldlM_succeeds (f := addToCell) (b := ⟨∅, ∅⟩)
    (l := order.order (values inv.devices))
    (fun done t => (∀ a ∈ done, a ∈ order.order (values inv.devices)) ∧ Counted done t ∧
      Profiled done t)
    ⟨by simp, counted_empty, by intro n name profile hl; simp [Tables.profilesOf] at hl⟩
    (by
      rintro done d t hd ⟨hsub, hc, hp⟩
      have hsub' : ∀ a ∈ done ++ [d], a ∈ order.order (values inv.devices) := by
        intro a ha
        obtain ha | ha := List.mem_append.mp ha
        · exact hsub a ha
        · rwa [List.mem_singleton.mp ha]
      obtain ⟨t', ht'⟩ := addToCell_ok hu' hsub' hc hp
      exact ⟨t', ht', hsub', hc.snoc ht', hp.snoc ht'⟩)
  let result : HardwareInventory.Inventory := ⟨1, bootID, finishCells t⟩
  refine ⟨(result, inventoryText result, sha256 (cellsText result.cells)), ?_⟩
  simp only [summary, bind_eq_ok, exists_unit, refuse_eq_ok]
  exact ⟨hb, t, ht, rfl⟩

end Summary

end HeteroCluster.InventoryCells
