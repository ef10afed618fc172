import HeteroCluster.DiscoveredGPUs

namespace HeteroCluster.OwnedNodes

open GoStrings FailFast KeyedRecords ComputeInventory DiscoveredDevices DiscoveredGPUs
open ComputeDriver (DeviceKind LocalDevice)

variable {host : Host} {s : Settings} {profiles : List OpenTPUProfile} {devices devices' : Devices}
  {d : LocalDevice} {n : Int} {name : String} {order : CPUOrders}

/-- The NUMA nodes for which the host and its annotations ask for a device. -/
inductive Claimed (host : Host) (s : Settings) (profiles : List OpenTPUProfile) : Int → Prop
  | cpu {n : Int} (h : s.reservedCores < coreCount host.sysfs n) : Claimed host s profiles n
  | memory {dir : NodeDir} {total : Int} (hd : dir ∈ host.sysfs.nodes)
      (ht : nodeMemoryBytes dir.meminfo = .ok total)
      (hc : 0 < memoryCount s.memoryUnit s.reservedMemory total) : Claimed host s profiles dir.node
  | openTPU {profile : OpenTPUProfile} (hp : profile ∈ profiles) : Claimed host s profiles profile.numa
  | gpu {row : GPURow} {n : Int} (hr : row ∈ reportedRows host)
      (hn : gpuNUMA host.sysfs row.pci = some n) : Claimed host s profiles n

theorem claimed_of_origin (h : Origin host s profiles d) : Claimed host s profiles d.numa := by
  cases h with
  | cpu hk hr => exact .cpu hr
  | memory hd ht hs => exact .memory hd ht (Nat.zero_lt_of_lt hs)
  | openTPU hp => exact .openTPU hp

theorem Configured.unique {s' : Settings} {profiles' : List OpenTPUProfile}
    (h : Configured host s profiles) (h' : Configured host s' profiles') :
    s' = s ∧ profiles' = profiles := by
  have hs := h.settings.symm.trans h'.settings
  have hp := h.profiles.symm.trans h'.profiles
  exact ⟨(Except.ok.inj hs).symm, (Except.ok.inj hp).symm⟩

/-- A GPU is placed at its own node, or at the only node that has a device. -/
theorem claimed_of_place {row : GPURow} (ht : Traced host s profiles devices)
    (hrow : row ∈ reportedRows host) (h : placeOf host devices row = some n) :
    Claimed host s profiles n := by
  unfold placeOf at h
  cases hnuma : gpuNUMA host.sysfs row.pci with
  | some m =>
    rw [hnuma] at h
    obtain rfl := Option.some.inj h
    exact .gpu hrow hnuma
  | none =>
    simp only [hnuma] at h
    split at h
    · cases h
    next hone =>
      rw [ne_eq, not_not, List.length_eq_one_iff] at hone
      obtain ⟨m, hm⟩ := hone
      rw [hm, List.headD_cons] at h
      have hmem : n ∈ numaNodes devices := by
        rw [hm, ← Option.some.inj h]
        exact List.mem_singleton_self m
      obtain ⟨name, d, hd, -, rfl⟩ := mem_numaNodes.mp hmem
      exact claimed_of_origin (ht name d hd).2

theorem claimed_of_mem {inv : ComputeDriver.Inventory} (hconf : Configured host s profiles)
    (h : discoverInventory order host = .ok inv) (hd : d ∈ values inv.devices) :
    Claimed host s profiles d.numa := by
  obtain ⟨s', profiles', base, hconf', -, ht, rfl⟩ := discoverInventory_spec h
  obtain ⟨rfl, rfl⟩ := Configured.unique hconf hconf'
  obtain ⟨name, hl⟩ := mem_values.mp hd
  obtain ⟨hgpu, -⟩ | hl := of_lookup_storeAll hl
  · obtain ⟨row, hrow, n, hplace, rfl⟩ := mem_gpuDevices.mp hgpu
    exact claimed_of_place ht hrow hplace
  · exact claimed_of_origin (ht name d hl).2

def Owned (devices : Devices) (n : Int) : Prop :=
  ∃ name d, devices.lookup name = some d ∧ d.numa = n

def Keeps (devices devices' : Devices) : Prop :=
  ∀ name d, devices.lookup name = some d → devices'.lookup name = some d

theorem Owned.keeps (h : Owned devices n) (hk : Keeps devices devices') : Owned devices' n := by
  obtain ⟨name, d, hd, hn⟩ := h
  exact ⟨name, d, hk name d hd, hn⟩

section CPU

def putLast (n : Int) : RangeOrder Int where
  order l := l.filter (fun m => m != n) ++ l.filter (fun m => !(m != n))
  perm l := List.filter_append_perm (fun m => m != n) l

theorem mem_offeredCores {sys : Sysfs} {cores : Cores} {reserve : Int}
    (h : sys.cpus.foldlM addCPU ∅ = .ok cores) (hd : d ∈ offeredCores order cores reserve n) :
    ∃ k cpu, k ∈ coreKeys sys ∧ k.numa = n ∧ d = cpuDevice k cpu := by
  unfold offeredCores at hd
  split at hd
  · cases hd
  · exact mem_coresOf h (List.mem_of_mem_drop hd)

theorem exists_cpu {sys : Sysfs} {reserve : Int} (hr : 0 ≤ reserve) (h : reserve < coreCount sys n)
    (hcpu : discoverCPU ⟨.same _, putLast n⟩ sys reserve ∅ = .ok devices) :
    ∃ name d, devices.lookup name = some d ∧ initial name = some 'c' ∧ d.numa = n := by
  simp only [discoverCPU, bind_eq_ok, exists_unit, pure_eq_ok] at hcpu
  obtain ⟨-, cores, hcores, rfl⟩ := hcpu
  have hne : offeredCores ⟨.same _, putLast n⟩ cores reserve n ≠ [] := by
    rw [ne_eq, offeredCores_eq_nil_iff hcores hr]
    exact not_le.mpr h
  obtain ⟨d, hd⟩ := List.exists_mem_of_ne_nil _ hne
  obtain ⟨k, cpu, hk, hkn, -⟩ := mem_offeredCores hcores hd
  have hnode : n ∈ (cores.keys.map CoreKey.numa).dedup := by
    rw [List.mem_dedup, List.mem_map]
    exact ⟨k, (cores_perm hcores).mem_iff.mpr hk, hkn⟩
  simp only [putLast, List.flatMap_append, storeAll_append]
  have hlast : d ∈ (((cores.keys.map CoreKey.numa).dedup.filter (fun m => !(m != n))).flatMap
      (offeredCores ⟨.same _, putLast n⟩ cores reserve)) :=
    List.mem_flatMap.mpr ⟨n, List.mem_filter.mpr ⟨hnode, by simp⟩, hd⟩
  obtain ⟨b, hb, hname, hl⟩ := exists_lookup_storeAll LocalDevice.name _ hlast
  obtain ⟨m, hm, hbm⟩ := List.mem_flatMap.mp hb
  have hmn : m = n := by simpa using (List.mem_filter.mp hm).2
  rw [hmn] at hbm
  obtain ⟨k', cpu', -, hkn', rfl⟩ := mem_offeredCores hcores hbm
  rw [← hname] at hl
  exact ⟨_, _, hl, initial_cpuName _ _, hkn'⟩

end CPU

section Memory

theorem memoryName_inj {node node' slot slot' : Nat}
    (h : memoryName node slot = memoryName node' slot') : node = node' := by
  have htext : ∀ m : Nat, (toString m).toList = Nat.toDigits 10 m := by
    intro m
    simp
  have hdigits : ∀ m : Nat, '-' ∉ (toString m).toList := by
    intro m hm
    rw [htext] at hm
    have := Nat.isDigit_of_mem_toDigits (by decide) (by decide) hm
    simp at this
  rw [memoryName, memoryName, ← String.toList_inj] at h
  simp only [String.toList_append, List.append_assoc] at h
  have h := List.append_cancel_left h
  obtain ⟨heq, -⟩ := append_cons_inj (hdigits node) (hdigits node') h
  rw [htext, htext] at heq
  rw [← Nat.ofDigitChars_ten_toDigits (n := node), heq, Nat.ofDigitChars_ten_toDigits]

theorem discoverMemory_frame {sys : Sysfs} {unit reserve : Int}
    (h : discoverMemory sys unit reserve devices = .ok devices') (name : String)
    (hn : initial name ≠ some 'm') :
    devices'.lookup name = devices.lookup name := by
  simp only [discoverMemory, bind_eq_ok, exists_unit] at h
  apply foldlM_invariant (fun _ found => found.lookup name = devices.lookup name) h.2 rfl
  intro done dir found found' _ hfound hstep
  simp only [addMemory, bind_eq_ok, mapError_eq_ok, pure_eq_ok] at hstep
  obtain ⟨total, -, rfl⟩ := hstep
  rw [lookup_storeAll_of_ne, hfound]
  intro d hd heq
  obtain ⟨slot, -, rfl⟩ := List.mem_map.mp hd
  exact hn (heq ▸ initial_memoryName dir.node slot)

/-- If the driver offers memory of a node, a device of the node has the first name. -/
def Offers (unit reserve : Int) (dir : NodeDir) (devices : Devices) : Prop :=
  ∀ total, nodeMemoryBytes dir.meminfo = .ok total → 0 < memoryCount unit reserve total →
    ∃ d, devices.lookup (memoryName dir.node 0) = some d ∧ d.numa = dir.node

theorem offers_addMemory {unit reserve : Int} {dir new : NodeDir}
    (h : addMemory unit reserve devices new = .ok devices')
    (hdir : Offers unit reserve dir devices ∨ dir = new) : Offers unit reserve dir devices' := by
  simp only [addMemory, bind_eq_ok, mapError_eq_ok, pure_eq_ok] at h
  obtain ⟨newTotal, hnew, rfl⟩ := h
  intro total ht hc
  by_cases hover : ∃ d ∈ memoryDevices unit reserve newTotal new.node, d.name = memoryName dir.node 0
  · obtain ⟨d, hd, hname⟩ := hover
    obtain ⟨b, hb, hbname, hl⟩ := exists_lookup_storeAll LocalDevice.name devices hd
    rw [hname] at hbname hl
    obtain ⟨slot, -, rfl⟩ := List.mem_map.mp hb
    exact ⟨_, hl, congrArg Nat.cast (memoryName_inj hbname)⟩
  · have hkeep := lookup_storeAll_of_ne (m := devices) (fun d hd hname => hover ⟨d, hd, hname⟩)
    obtain hdir | rfl := hdir
    · obtain ⟨d, hd, hn⟩ := hdir total ht hc
      exact ⟨d, hkeep.trans hd, hn⟩
    · rw [hnew] at ht
      obtain rfl := Except.ok.inj ht
      refine absurd ⟨memoryDevice unit dir.node 0, ?_, rfl⟩ hover
      exact List.mem_map_of_mem (List.mem_range.mpr hc)

theorem offers_discoverMemory {sys : Sysfs} {unit reserve : Int} {dir : NodeDir}
    (h : discoverMemory sys unit reserve devices = .ok devices') (hd : dir ∈ sys.nodes) :
    Offers unit reserve dir devices' := by
  simp only [discoverMemory, bind_eq_ok, exists_unit] at h
  have hall : ∀ dir ∈ sys.nodes, Offers unit reserve dir devices' := by
    apply foldlM_invariant (fun done found => ∀ dir ∈ done, Offers unit reserve dir found) h.2
    · simp
    · intro done new found found' _ hfound hstep dir hdir
      apply offers_addMemory hstep
      obtain hdir | hdir := List.mem_append.mp hdir
      · exact Or.inl (hfound dir hdir)
      · exact Or.inr (List.mem_singleton.mp hdir)
  exact hall dir hd

end Memory

section OpenTPU

theorem addProfile_keeps {profile : OpenTPUProfile}
    (h : addProfile host devices profile = .ok devices') :
    Keeps devices devices' ∧ Owned devices' profile.numa := by
  simp only [addProfile, bind_eq_ok, mapError_eq_ok, exists_unit, refuse_eq_ok, not_or, not_lt] at h
  obtain ⟨memory, -, shared, -, ⟨-, -, hslots, -⟩, h⟩ := h
  have hrun : Keeps devices devices' ∧
      ∀ slot ∈ List.range profile.slots.toNat, Owned devices' profile.numa := by
    apply foldlM_invariant (fun done found =>
      Keeps devices found ∧ ∀ slot ∈ done, Owned found profile.numa) h
    · exact ⟨fun _ _ hd => hd, by simp⟩
    · intro done slot found found' _ hfound hstep
      simp only [addSlot, bind_eq_ok, exists_unit, refuse_eq_ok, pure_eq_ok] at hstep
      obtain ⟨hnew, rfl⟩ := hstep
      constructor
      · intro name d hd
        have hl := hfound.1 name d hd
        rw [store, AList.lookup_insert_ne, hl]
        rintro rfl
        exact hnew (AList.lookup_isSome.mp (by rw [hl]; rfl))
      · intro _ _
        exact ⟨_, _, AList.lookup_insert _, rfl⟩
  exact ⟨hrun.1, hrun.2 0 (List.mem_range.mpr (by omega))⟩

theorem foldlM_addProfile_keeps (h : profiles.foldlM (addProfile host) devices = .ok devices') :
    Keeps devices devices' ∧ ∀ profile ∈ profiles, Owned devices' profile.numa := by
  apply foldlM_invariant (fun done found =>
    Keeps devices found ∧ ∀ profile ∈ done, Owned found profile.numa) h
  · exact ⟨fun _ _ hd => hd, by simp⟩
  · intro done profile found found' _ hfound hstep
    obtain ⟨hkeep, hnew⟩ := addProfile_keeps hstep
    refine ⟨fun name d hd => hkeep name d (hfound.1 name d hd), ?_⟩
    intro p hp
    obtain hp | hp := List.mem_append.mp hp
    · exact (hfound.2 p hp).keeps hkeep
    · rw [List.mem_singleton.mp hp]
      exact hnew

end OpenTPU

/-- The steps of `discoverLocal`. -/
theorem discoverLocal_steps (hconf : Configured host s profiles)
    (h : discoverLocal order host = .ok devices) : ∃ cpus memory,
      discoverCPU order host.sysfs s.reservedCores ∅ = .ok cpus ∧
      discoverMemory host.sysfs s.memoryUnit s.reservedMemory cpus = .ok memory ∧
      profiles.foldlM (addProfile host) memory = .ok devices := by
  simp only [discoverLocal, discoverOpenTPU, bind_eq_ok, hconf.settings, hconf.profiles,
    Except.ok.injEq, exists_eq_left'] at h
  obtain ⟨cpus, hcpus, memory, hmemory, hopen⟩ := h
  exact ⟨cpus, memory, hcpus, hmemory, hopen⟩

theorem keeps_gpuDevices (ht : Traced host s profiles devices) :
    Keeps devices (storeAll LocalDevice.name (gpuDevices host devices) devices) := by
  intro name d hd
  rw [lookup_storeAll_of_ne, hd]
  intro g hg heq
  obtain ⟨row, -, m, -, rfl⟩ := mem_gpuDevices.mp hg
  exact (ht.kind_ne hd).2 (heq ▸ initial_gpuName row.uuid)

theorem exists_of_owned (h : ∀ devices, discoverLocal order host = .ok devices → Owned devices n)
    {inv : ComputeDriver.Inventory} (hinv : discoverInventory order host = .ok inv) :
    ∃ d ∈ values inv.devices, d.numa = n := by
  obtain ⟨s', profiles', base, -, hbase, ht, rfl⟩ := discoverInventory_spec hinv
  obtain ⟨name, d, hd, hn⟩ := (h base hbase).keeps (keeps_gpuDevices ht)
  exact ⟨d, mem_values.mpr ⟨name, hd⟩, hn⟩

/-- A NUMA node that is asked for owns a device, in some order of the loops. -/
theorem owned_of_claimed (hconf : Configured host s profiles)
    (hgpus : ((reportedRows host).map (fun row => toLower row.uuid)).Nodup)
    (h : Claimed host s profiles n) : ∃ order, ∀ inv, discoverInventory order host = .ok inv →
      ∃ d ∈ values inv.devices, d.numa = n := by
  cases h with
  | @cpu _ h =>
    refine ⟨⟨.same _, putLast n⟩, fun inv => exists_of_owned ?_⟩
    intro devices hdevices
    obtain ⟨cpus, memory, hcpus, hmemory, hopen⟩ := discoverLocal_steps hconf hdevices
    obtain ⟨name, d, hd, hname, hn⟩ :=
      exists_cpu (settings_bounds hconf.settings).2.2.2 h hcpus
    have hkeep := discoverMemory_frame hmemory name (by simp [hname])
    exact Owned.keeps ⟨name, d, hkeep.trans hd, hn⟩ (foldlM_addProfile_keeps hopen).1
  | memory hdir ht hc =>
    refine ⟨.same, fun inv => exists_of_owned ?_⟩
    intro devices hdevices
    obtain ⟨cpus, memory, -, hmemory, hopen⟩ := discoverLocal_steps hconf hdevices
    obtain ⟨d, hd, hn⟩ := offers_discoverMemory hmemory hdir _ ht hc
    exact Owned.keeps ⟨_, d, hd, hn⟩ (foldlM_addProfile_keeps hopen).1
  | openTPU hp =>
    refine ⟨.same, fun inv => exists_of_owned ?_⟩
    intro devices hdevices
    obtain ⟨cpus, memory, -, -, hopen⟩ := discoverLocal_steps hconf hdevices
    exact (foldlM_addProfile_keeps hopen).2 _ hp
  | @gpu row _ hr hn =>
    refine ⟨.same, ?_⟩
    intro inv hinv
    obtain ⟨s', profiles', base, -, -, -, rfl⟩ := discoverInventory_spec hinv
    have hplace : placeOf host base row = some n := by simp [placeOf, hn]
    exact ⟨_, mem_values.mpr ⟨_, lookup_gpuDevice hgpus hr hplace⟩, rfl⟩

end HeteroCluster.OwnedNodes
