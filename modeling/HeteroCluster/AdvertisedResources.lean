import HeteroCluster.GresInit
import Mathlib.Data.List.Dedup

namespace HeteroCluster.AdvertisedResources

open FailFast GoStrings GresInit KeyedRecords RecoveryVerifier WorkerDemand WorkerPods

section Held

def logicalCPU (device : Device) : Option Int :=
  if stringAttr device "kind" = some "cpu" then intAttr device "logicalCPU" else none

def logicalCPUs (devices : List Device) : List Int := devices.filterMap logicalCPU

def memoryBytes (devices : List Device) : Int :=
  ((devices.filter (fun d => stringAttr d "kind" == some "memory")).map
    (fun d => (intAttr d "unitBytes").getD 0)).sum

def gresOf (device : Device) : Option (String × String) :=
  if stringAttr device "kind" = some "gpu" then
    (stringAttr device "model").map (fun model => ("gpu", model))
  else if stringAttr device "kind" = some "opentpu" then
    (stringAttr device "profile").map (fun profile => ("tpu", profile))
  else none

def gresKey (g : String × String) : String := g.1 ++ ":" ++ g.2

def accelerators (devices : List Device) (g : String × String) : List Device :=
  devices.filter (fun d => gresOf d == some g)

def names (devices : List Device) : List String := devices.map Device.name

end Held

structure Covered (node : DynamicNode) (devices : List Device) : Prop where
  cpus : node.cpus = (logicalCPUs devices).dedup.length
  memory : node.realMemory * 2 ^ 20 ≤ memoryBytes devices
  gres : ∀ g ∈ node.gres,
    g.2.2 = (names (accelerators devices (g.1, g.2.1))).dedup.length
  numa : ∃ cell, ∀ d ∈ devices, intAttr d "numaNode" = some cell

/-- What a successful check leaves open. The memory devices have to hold the
memory of the shape in MiB, without the shared memory and one MiB at least; no
CPU and no accelerator may be listed twice; and a device at NUMA node -1, which
the check takes for no node yet, may not stand beside one at another node. -/
structure Settled (wanted : ShapeJSON) (devices : List Device) : Prop where
  cpus : (logicalCPUs devices).Nodup
  memory : max (wrapInt64 (wanted.memoryBytes - wanted.sharedMemoryBytes) / 2 ^ 20) 1 ≤
    memoryBytes devices / 2 ^ 20
  gres : ∀ g, (names (accelerators devices g)).Nodup
  numa : (∃ d ∈ devices, intAttr d "numaNode" = some (-1)) →
    ∀ d ∈ devices, intAttr d "numaNode" = some (-1)

section Tally

/-- The entry of a map that counts the devices with a key. -/
def tally (devices : List Device) (key : String) : Option Int :=
  let n := devices.countP (fun d => (gresOf d).map gresKey == some key)
  if n = 0 then none else some n

/-- What the loop over the devices has found in those that are done. -/
structure Tallied (done : List Device) (found : Found) : Prop where
  cpus : found.cpus = logicalCPUs done
  gres : ∀ key, found.gres.lookup key = tally done key
  numa : ∀ d ∈ done, intAttr d "numaNode" = some (-1) ∨ intAttr d "numaNode" = some found.numa

theorem tally_append_of_none {done : List Device} {d : Device} (h : gresOf d = none)
    (key : String) : tally (done ++ [d]) key = tally done key := by
  simp only [tally, List.countP_append, List.countP_singleton, h]
  rfl

theorem lookup_addGRES {done : List Device} {d : Device} {g : String × String} {found : Found}
    (hfound : ∀ key, found.gres.lookup key = tally done key) (h : gresOf d = some g)
    (key : String) : (found.addGRES (gresKey g)).gres.lookup key = tally (done ++ [d]) key := by
  by_cases hk : key = gresKey g
  · rw [hk]
    simp only [Found.addGRES, AList.lookup_insert, count, hfound, tally, List.countP_append,
      List.countP_singleton, h]
    by_cases hn : done.countP (fun d => (gresOf d).map gresKey == some (gresKey g)) = 0
    · simp [hn]
    · simp [hn]
  · have hne : (some (gresKey g) == some key) = false := by
      simpa using fun he : gresKey g = key => hk he.symm
    simp only [Found.addGRES, AList.lookup_insert_ne hk, hfound, tally, List.countP_append,
      List.countP_singleton, h, Option.map_some, hne]
    simp

theorem Tallied.addDevice {done : List Device} {d : Device} {found found' : Found}
    (ht : Tallied done found) (hcell : intAttr d "numaNode" = some found.numa)
    (hnuma : found'.numa = found.numa) (hcpus : found'.cpus = found.cpus ++ (logicalCPU d).toList)
    (hgres : ∀ key, found'.gres.lookup key = tally (done ++ [d]) key) :
    Tallied (done ++ [d]) found' := by
  constructor
  · rw [hcpus, ht.cpus, logicalCPUs, logicalCPUs, List.filterMap_append]
    cases hd : logicalCPU d <;> simp [hd]
  · exact hgres
  · intro x hx
    rw [hnuma]
    cases List.mem_append.mp hx with
    | inl hx => exact ht.numa x hx
    | inr hx =>
      rw [List.mem_singleton.mp hx]
      exact .inr hcell

theorem Tallied.addPlain {done : List Device} {d : Device} {found found' : Found}
    (ht : Tallied done found) (hcell : intAttr d "numaNode" = some found.numa)
    (hd : gresOf d = none) (hnuma : found'.numa = found.numa)
    (hcpus : found'.cpus = found.cpus ++ (logicalCPU d).toList)
    (hgres : found'.gres = found.gres) : Tallied (done ++ [d]) found' := by
  apply ht.addDevice hcell hnuma hcpus
  intro key
  rw [tally_append_of_none hd, hgres]
  exact ht.gres key

theorem Tallied.addGRES {done : List Device} {d : Device} {g : String × String} {found : Found}
    (ht : Tallied done found) (hcell : intAttr d "numaNode" = some found.numa)
    (hd : gresOf d = some g) (hcpu : logicalCPU d = none) :
    Tallied (done ++ [d]) (found.addGRES (gresKey g)) := by
  refine ht.addDevice hcell ?_ ?_ ?_
  · rfl
  · simp [hcpu, Found.addGRES]
  · exact lookup_addGRES ht.gres hd

theorem addKind_tallied {host : Host} {done : List Device} {d : Device} {kind : String}
    {found found' : Found} (ht : Tallied done found)
    (hcell : intAttr d "numaNode" = some found.numa) (hkind : stringAttr d "kind" = some kind)
    (h : addKind host found d kind = .ok found') : Tallied (done ++ [d]) found' := by
  unfold addKind at h
  split at h
  next hc =>
    split at h
    · cases h
    next cpu hcpu =>
      have hlogical : logicalCPU d = some cpu := by simp [logicalCPU, hkind, hc, hcpu]
      rw [← Except.ok.inj h]
      exact ht.addPlain hcell (by simp [gresOf, hkind, hc]) rfl (by simp [hlogical]) rfl
  next hc =>
    have hlogical : logicalCPU d = none := by simp [logicalCPU, hkind, hc]
    split at h
    next hm =>
      rw [← Except.ok.inj h]
      exact ht.addPlain hcell (by simp [gresOf, hkind, hm]) rfl (by simp [hlogical]) rfl
    next hm =>
      split at h
      next hg =>
        split at h
        · cases h
        next model hmodel =>
          have hgres : gresOf d = some ("gpu", model) := by simp [gresOf, hkind, hg, hmodel]
          rw [bind_eq_ok] at h
          obtain ⟨-, -, h⟩ := h
          rw [pure_eq_ok] at h
          rw [← h]
          exact ht.addGRES hcell hgres hlogical
      next hg =>
        split at h
        next ho =>
          split at h
          · cases h
          next profile hprofile =>
            have hgres : gresOf d = some ("tpu", profile) := by simp [gresOf, hkind, ho, hprofile]
            rw [← Except.ok.inj h]
            exact ht.addGRES hcell hgres hlogical
        · cases h

theorem addDevice_tallied {host : Host} {done : List Device} {d : Device} {found found' : Found}
    (ht : Tallied done found) (h : addDevice host found d = .ok found') :
    Tallied (done ++ [d]) found' := by
  unfold addDevice at h
  split at h
  next kind cell hkind hcell =>
    rw [bind_eq_ok, exists_unit, refuse_eq_ok, not_and_not_right] at h
    obtain ⟨hspan, h⟩ := h
    have ht' : Tallied done { found with numa := cell } := by
      refine ⟨ht.cpus, ht.gres, fun x hx => ?_⟩
      -- The node found so far is that of the device, or it is none.
      by_cases hnone : found.numa = -1
      · have hx := ht.numa x hx
        rw [hnone, or_self] at hx
        exact .inl hx
      · rw [← hspan hnone]
        exact ht.numa x hx
    exact addKind_tallied ht' hcell hkind h
  · cases h

theorem devices_tallied {host : Host} {devices : List Device} {found : Found}
    (h : devices.foldlM (addDevice host) ⟨[], -1, ∅⟩ = .ok found) : Tallied devices found := by
  apply foldlM_invariant Tallied h
  · exact ⟨rfl, fun _ => rfl, by simp⟩
  · intro done d s s' _ ht hs
    exact addDevice_tallied ht hs

end Tally

section Advertised

theorem cut_gresKey {g : String × String} (h : ':' ∉ g.1.toList) :
    cut (gresKey g) ':' = (g.1, g.2, true) :=
  cut_append g.1 g.2 ':' h

theorem gresKey_inj {g g' : String × String} (h : ':' ∉ g.1.toList) (h' : ':' ∉ g'.1.toList)
    (he : gresKey g = gresKey g') : g = g' := by
  have hcut := cut_gresKey h
  rw [he, cut_gresKey h', Prod.mk.injEq, Prod.mk.injEq] at hcut
  exact Prod.ext hcut.1.symm hcut.2.1.symm

theorem gresOf_name {d : Device} {g : String × String} (h : gresOf d = some g) :
    ':' ∉ g.1.toList := by
  unfold gresOf at h
  split at h
  · obtain ⟨model, -, rfl⟩ := Option.map_eq_some_iff.mp h
    change ':' ∉ "gpu".toList
    decide
  · split at h
    · obtain ⟨profile, -, rfl⟩ := Option.map_eq_some_iff.mp h
      change ':' ∉ "tpu".toList
      decide
    · cases h

theorem tally_gresKey (devices : List Device) {g : String × String} (h : ':' ∉ g.1.toList) :
    tally devices (gresKey g) =
      if (accelerators devices g).length = 0 then none
      else some ((accelerators devices g).length : Int) := by
  have hsame : devices.countP (fun d => (gresOf d).map gresKey == some (gresKey g)) =
      devices.countP (fun d => gresOf d == some g) := by
    apply List.countP_congr
    intro d _
    cases hd : gresOf d with
    | none => simp
    | some g' =>
      simp only [Option.map_some, beq_iff_eq, Option.some.injEq]
      constructor
      · exact gresKey_inj (gresOf_name hd) h
      · exact congrArg gresKey
  unfold tally accelerators
  rw [hsame, ← List.countP_eq_length_filter]

theorem exists_of_tally {devices : List Device} {key : String} {n : Int}
    (h : tally devices key = some n) : ∃ g, ':' ∉ g.1.toList ∧ key = gresKey g := by
  unfold tally at h
  dsimp only at h
  split at h
  · cases h
  next hn =>
    obtain ⟨d, -, hd⟩ := List.countP_pos_iff.mp (Nat.pos_of_ne_zero hn)
    obtain ⟨g, hg, hkey⟩ := Option.map_eq_some_iff.mp (eq_of_beq hd)
    exact ⟨g, gresOf_name hg, hkey.symm⟩

theorem accelerators_name {devices : List Device} {g : String × String}
    (h : accelerators devices g ≠ []) : ':' ∉ g.1.toList := by
  obtain ⟨d, hd⟩ := List.exists_mem_of_ne_nil _ h
  exact gresOf_name (eq_of_beq (List.mem_filter.mp hd).2)

/-- The node advertises the accelerators of the list, each type with the number
of its entries. -/
theorem mem_gresSummary_iff {devices : List Device} {wanted : ShapeJSON}
    (h : ∀ key, wanted.gres.lookup key = tally devices key) {g : String × String} {n : Int} :
    (g.1, g.2, n) ∈ gresSummary wanted ↔
      accelerators devices g ≠ [] ∧ n = (accelerators devices g).length := by
  constructor
  · intro hmem
    obtain ⟨⟨key, m⟩, he, heq⟩ := List.mem_map.mp hmem
    have hlookup : tally devices key = some m := by
      rw [← h]
      exact AList.mem_lookup_iff.mpr he
    obtain ⟨g', hname, rfl⟩ := exists_of_tally hlookup
    rw [cut_gresKey hname, Prod.mk.injEq, Prod.mk.injEq] at heq
    have hg : g' = g := Prod.ext heq.1 heq.2.1
    rw [hg] at hname hlookup
    rw [tally_gresKey devices hname] at hlookup
    split at hlookup
    · cases hlookup
    next hn =>
      refine ⟨fun hnil => hn (by rw [hnil]; rfl), ?_⟩
      rw [Option.some.inj hlookup]
      exact heq.2.2.symm
  · rintro ⟨hne, rfl⟩
    have hname := accelerators_name hne
    have hlookup := h (gresKey g)
    rw [tally_gresKey devices hname, if_neg (fun hn => hne (List.length_eq_zero_iff.mp hn))]
      at hlookup
    apply List.mem_map.mpr
    exact ⟨⟨gresKey g, _⟩, AList.mem_lookup_iff.mp hlookup, by rw [cut_gresKey hname]⟩

theorem length_dedup_iff {α : Type} [DecidableEq α] (l : List α) :
    (l.length : Int) = l.dedup.length ↔ l.Nodup := by
  constructor
  · intro h
    have hlength : l.dedup.length = l.length := by omega
    exact List.dedup_eq_self.mp ((List.dedup_sublist l).eq_of_length hlength)
  · intro h
    rw [List.dedup_eq_self.mpr h]

structure Checked (devices : List Device) (wanted : ShapeJSON) : Prop where
  cpus : wanted.cpus = (logicalCPUs devices).length
  gres : ∀ key, wanted.gres.lookup key = tally devices key
  numa : ∃ cell, ∀ d ∈ devices,
    intAttr d "numaNode" = some (-1) ∨ intAttr d "numaNode" = some cell

theorem validate_checked {cpuset : List Int → String} {host : Host} {devices : List Device}
    {wanted : ShapeJSON} (h : validate cpuset host devices wanted = .ok ()) :
    Checked devices wanted := by
  unfold validate at h
  rw [bind_eq_ok] at h
  obtain ⟨found, hfound, h⟩ := h
  have ht := devices_tallied hfound
  simp only [bind_eq_ok, refuse_eq_ok, exists_unit, not_not] at h
  obtain ⟨hcpus, hgres, -⟩ := h
  constructor
  · rw [← hcpus, ht.cpus]
  · intro key
    rw [← mapsEqual_iff.mp (by simpa using hgres) key]
    exact ht.gres key
  · exact ⟨found.numa, ht.numa⟩

theorem render_node {host : Host} {devices : List Device} {wanted : ShapeJSON} {r : Rendered}
    (h : render host devices wanted = .ok r) : r.node = dynamicNode host wanted := by
  unfold render at h
  rw [bind_eq_ok] at h
  obtain ⟨found, -, h⟩ := h
  rw [pure_eq_ok] at h
  rw [← h]

theorem Checked.gres_covered_iff {devices : List Device} {wanted : ShapeJSON}
    (h : Checked devices wanted) :
    (∀ g ∈ gresSummary wanted,
        g.2.2 = ((names (accelerators devices (g.1, g.2.1))).dedup.length : Int)) ↔
      ∀ g, (names (accelerators devices g)).Nodup := by
  constructor
  · intro hall g
    by_cases hnil : accelerators devices g = []
    · rw [hnil]
      exact List.nodup_nil
    · have hg := hall (g.1, g.2, _) ((mem_gresSummary_iff h.gres).mpr ⟨hnil, rfl⟩)
      rw [← length_dedup_iff, names, List.length_map]
      exact hg
  · intro hall g hg
    obtain ⟨-, hn⟩ := (mem_gresSummary_iff h.gres (g := (g.1, g.2.1))).mp hg
    rw [hn, ← (length_dedup_iff _).mpr (hall (g.1, g.2.1)), names, List.length_map]

theorem Checked.numa_covered_iff {devices : List Device} {wanted : ShapeJSON}
    (h : Checked devices wanted) :
    (∃ cell, ∀ d ∈ devices, intAttr d "numaNode" = some cell) ↔
      ((∃ d ∈ devices, intAttr d "numaNode" = some (-1)) →
        ∀ d ∈ devices, intAttr d "numaNode" = some (-1)) := by
  constructor
  · rintro ⟨cell, hcell⟩ ⟨d, hd, hnone⟩
    rw [hcell d hd] at hnone
    rwa [hnone] at hcell
  · intro hall
    obtain ⟨cell, hcell⟩ := h.numa
    by_cases hnone : ∃ d ∈ devices, intAttr d "numaNode" = some (-1)
    · exact ⟨-1, hall hnone⟩
    · exact ⟨cell, fun d hd => (hcell d hd).resolve_left (fun hd' => hnone ⟨d, hd, hd'⟩)⟩

theorem memory_covered_iff {devices : List Device} {wanted : ShapeJSON} :
    realMemory wanted * 2 ^ 20 ≤ memoryBytes devices ↔
      max (wrapInt64 (wanted.memoryBytes - wanted.sharedMemoryBytes) / 2 ^ 20) 1 ≤
        memoryBytes devices / 2 ^ 20 := by
  rw [realMemory, Int.le_ediv_iff_mul_le (by decide)]

/-- After a successful check the allocation holds what the node advertises
exactly if it settles what the check leaves open. -/
theorem advertised_covered_iff {cpuset : List Int → String} {host : Host} {devices : List Device}
    {wanted : ShapeJSON} {r : Rendered} (hv : validate cpuset host devices wanted = .ok ())
    (hr : render host devices wanted = .ok r) :
    Covered r.node devices ↔ Settled wanted devices := by
  have h := validate_checked hv
  rw [render_node hr]
  constructor
  · rintro ⟨hcpus, hmemory, hgres, hnuma⟩
    refine ⟨?_, memory_covered_iff.mp hmemory, h.gres_covered_iff.mp hgres,
      h.numa_covered_iff.mp hnuma⟩
    rw [← length_dedup_iff, ← h.cpus]
    exact hcpus
  · rintro ⟨hcpus, hmemory, hgres, hnuma⟩
    refine ⟨?_, memory_covered_iff.mpr hmemory, h.gres_covered_iff.mpr hgres,
      h.numa_covered_iff.mpr hnuma⟩
    rw [← (length_dedup_iff _).mpr hcpus]
    exact h.cpus

end Advertised

section Samples

def attributes (kind field : String) (value : Int) : AList (fun _ : String => Attribute) :=
  ((AList.singleton (driverName ++ "/" ++ field) ⟨none, some value⟩).insert
    (driverName ++ "/numaNode") ⟨none, some 0⟩).insert (driverName ++ "/kind") ⟨some kind, none⟩

def cpuDevice : Device := ⟨"cpu-0-0", attributes "cpu" "logicalCPU" 0⟩

def memoryDevice : Device := ⟨"mem-0-0", attributes "memory" "unitBytes" (2 ^ 30)⟩

def pinnedHost : Host where
  status := .ok ["Cpus_allowed_list:\t0", "Mems_allowed_list:\t0"]
  stat _ := none
  nvidiaSmi _ := .error "no GPU"
  podIP := "10.0.0.1"
  workerPool := "cpu"

def cpuShape : ShapeJSON := ⟨1, 2 ^ 30, 0, ∅⟩

def listed (cpus : List Int) : String := String.intercalate "," (cpus.map toString)

/-- One CPU and no memory device pass the check of a shape with 1 GiB. -/
theorem memory_not_checked : validate listed pinnedHost [cpuDevice] cpuShape = .ok () ∧
    ∃ r, render pinnedHost [cpuDevice] cpuShape = .ok r ∧ r.node.realMemory = 1024 ∧
      memoryBytes [cpuDevice] = 0 ∧ ¬ Covered r.node [cpuDevice] := by
  have hbytes : memoryBytes [cpuDevice] = 0 := by decide +kernel
  have hreal : realMemory cpuShape = 1024 := by decide
  refine ⟨by decide +kernel, _, rfl, hreal, hbytes, ?_⟩
  intro hcovered
  have hmemory : realMemory cpuShape * 2 ^ 20 ≤ memoryBytes [cpuDevice] := hcovered.memory
  rw [hbytes, hreal] at hmemory
  omega

theorem settled_sample : Settled cpuShape [cpuDevice, memoryDevice] := by
  have hnone : ∀ d ∈ [cpuDevice, memoryDevice], gresOf d = none := by decide +kernel
  refine ⟨by decide +kernel, by decide +kernel, fun g => ?_, by decide +kernel⟩
  have hempty : accelerators [cpuDevice, memoryDevice] g = [] :=
    List.filter_eq_nil_iff.mpr (fun d hd => by simp [hnone d hd])
  rw [hempty]
  exact List.nodup_nil

theorem advertised_covered_sample : ∃ r,
    render pinnedHost [cpuDevice, memoryDevice] cpuShape = .ok r ∧
      Covered r.node [cpuDevice, memoryDevice] := by
  have hv : validate listed pinnedHost [cpuDevice, memoryDevice] cpuShape = .ok () := by
    decide +kernel
  exact ⟨_, rfl, (advertised_covered_iff hv rfl).mpr settled_sample⟩

end Samples

end HeteroCluster.AdvertisedResources
