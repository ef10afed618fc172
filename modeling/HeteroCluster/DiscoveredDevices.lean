import HeteroCluster.ComputeInventory
import Mathlib.Data.List.Dedup

namespace HeteroCluster.DiscoveredDevices

open GoStrings FailFast KeyedRecords ComputeInventory
open ComputeDriver (DeviceKind LocalDevice)

section Cores

/-- The core of a CPU that is online and whose topology can be read. -/
def coreKey (dir : CPUDir) : Option CoreKey :=
  if onlineCPU dir.online = false then none
  else
    match readInt dir.packageID, readInt dir.coreID with
    | some socket, some core => some ⟨cpuNUMA dir.nodes, socket, core⟩
    | _, _ => none

def coreKeys (sys : Sysfs) : List CoreKey := (sys.cpus.filterMap coreKey).dedup

def coreCount (sys : Sysfs) (numa : Int) : Nat := (coreKeys sys).countP (fun k => k.numa = numa)

variable {sys : Sysfs} {cores cores' : Cores} {dir : CPUDir}

theorem addCPU_cases (h : addCPU cores dir = .ok cores') :
    onlineCPU dir.online = false ∧ cores' = cores ∨
      ∃ socket core, onlineCPU dir.online = true ∧ readInt dir.packageID = some socket ∧
        readInt dir.coreID = some core ∧ ∀ k, cores'.lookup k =
          if k = ⟨cpuNUMA dir.nodes, socket, core⟩ then
            some ((cores.lookup k).elim (dir.cpu : Int) (fun old => min old dir.cpu))
          else cores.lookup k := by
  unfold addCPU at h
  cases hon : onlineCPU dir.online with
  | false =>
    rw [if_pos hon] at h
    exact Or.inl ⟨rfl, (Except.ok.inj h).symm⟩
  | true =>
    rw [if_neg (by simp [hon])] at h
    cases hs : readInt dir.packageID with
    | none => simp [hs] at h
    | some socket =>
      cases hc : readInt dir.coreID with
      | none => simp [hs, hc] at h
      | some core =>
        simp only [hs, hc] at h
        refine Or.inr ⟨socket, core, rfl, rfl, rfl, ?_⟩
        intro k
        split
        next hk =>
          subst hk
          cases hold : cores.lookup ⟨cpuNUMA dir.nodes, socket, core⟩ with
          | none =>
            simp only [hold, Except.ok.injEq] at h
            rw [← h, AList.lookup_insert]
            rfl
          | some old =>
            simp only [hold] at h
            split at h
            next hlt =>
              rw [← Except.ok.inj h, AList.lookup_insert, Option.elim_some, min_eq_right hlt.le]
            next hge =>
              rw [← Except.ok.inj h, hold, Option.elim_some, min_eq_left (not_lt.mp hge)]
        next hk =>
          split at h
          · rw [← Except.ok.inj h, AList.lookup_insert_ne hk]
          · split at h
            · rw [← Except.ok.inj h, AList.lookup_insert_ne hk]
            · rw [← Except.ok.inj h]

theorem lookup_addCPU (h : addCPU cores dir = .ok cores') (k : CoreKey) : cores'.lookup k =
    if coreKey dir = some k then
      some ((cores.lookup k).elim (dir.cpu : Int) (fun old => min old dir.cpu))
    else cores.lookup k := by
  obtain ⟨hoff, rfl⟩ | ⟨socket, core, hon, hs, hc, hlookup⟩ := addCPU_cases h
  · simp [coreKey, hoff]
  · rw [hlookup]
    simp [coreKey, hon, hs, hc, eq_comm]

theorem addCPU_mem (h : addCPU cores dir = .ok cores') (k : CoreKey) :
    k ∈ cores' ↔ k ∈ cores ∨ coreKey dir = some k := by
  rw [← AList.lookup_isSome, ← AList.lookup_isSome, lookup_addCPU h]
  split
  next hk => simp [hk]
  next hk => simp [hk]

theorem mem_coreKeys_snoc {done : List CPUDir} {k : CoreKey} :
    k ∈ (done ++ [dir]).filterMap coreKey ↔ k ∈ done.filterMap coreKey ∨ coreKey dir = some k := by
  simp only [List.mem_filterMap, List.mem_append, List.mem_singleton, or_and_right, exists_or,
    exists_eq_left]

theorem cores_perm (h : sys.cpus.foldlM addCPU ∅ = .ok cores) : cores.keys.Perm (coreKeys sys) := by
  have hmem : ∀ k, k ∈ cores ↔ k ∈ sys.cpus.filterMap coreKey := by
    apply foldlM_invariant
      (fun done (cores : Cores) => ∀ k, k ∈ cores ↔ k ∈ done.filterMap coreKey) h
    · simp
    · intro done dir cores cores' _ hI hstep k
      rw [addCPU_mem hstep, hI, mem_coreKeys_snoc]
  rw [coreKeys, List.perm_ext_iff_of_nodup cores.keys_nodup (List.nodup_dedup _)]
  intro k
  rw [← AList.mem_keys, hmem, List.mem_dedup]

theorem length_coresOf (order : CPUOrders) (h : sys.cpus.foldlM addCPU ∅ = .ok cores) (n : Int) :
    (coresOf order cores n).length = coreCount sys n := by
  rw [coreCount, ← (cores_perm h).countP_eq, coresOf, List.length_insertionSort, List.length_map,
    ((order.cores.perm cores.entries).filter _).length_eq, List.countP_eq_length_filter, AList.keys,
    List.keys, List.filter_map, List.length_map]
  rfl

theorem mem_coresOf {order : CPUOrders} {d : LocalDevice} {n : Int}
    (h : sys.cpus.foldlM addCPU ∅ = .ok cores) (hd : d ∈ coresOf order cores n) :
    ∃ k cpu, k ∈ coreKeys sys ∧ k.numa = n ∧ d = cpuDevice k cpu := by
  rw [coresOf, List.mem_insertionSort, List.mem_map] at hd
  obtain ⟨⟨k, cpu⟩, he, rfl⟩ := hd
  rw [List.mem_filter, (order.cores.perm cores.entries).mem_iff, decide_eq_true_eq] at he
  refine ⟨k, cpu, ?_, he.2, rfl⟩
  rw [← (cores_perm h).mem_iff, AList.keys]
  exact List.mem_keys_of_mem he.1

theorem offeredCores_eq_nil_iff {order : CPUOrders} {n reserve : Int}
    (h : sys.cpus.foldlM addCPU ∅ = .ok cores) (hr : 0 ≤ reserve) :
    offeredCores order cores reserve n = [] ↔ (coreCount sys n : Int) ≤ reserve := by
  rw [← length_coresOf order h, offeredCores]
  split
  next hle => simp [hle]
  next hle =>
    rw [List.drop_eq_nil_iff]
    omega

end Cores

section Names

/-- The first letter of a device name tells the kinds apart. -/
def initial (name : String) : Option Char := name.toList.head?

@[simp] theorem initial_cpuName (socket core : Int) : initial (cpuName socket core) = some 'c' := by
  simp [initial, cpuName]

@[simp] theorem initial_memoryName (node slot : Nat) :
    initial (memoryName node slot) = some 'm' := by
  simp [initial, memoryName]

@[simp] theorem initial_openTPUName (name : String) (numa : Int) (slot : Nat) :
    initial (openTPUName name numa slot) = some 'o' := by
  simp [initial, openTPUName]

@[simp] theorem initial_gpuName (uuid : String) : initial (gpuName uuid) = some 'g' := by
  simp [initial, gpuName]

end Names

section Origins

variable {host : Host} {s : Settings} {profiles : List OpenTPUProfile} {devices devices' : Devices}
  {order : CPUOrders}

structure Configured (host : Host) (s : Settings) (profiles : List OpenTPUProfile) : Prop where
  settings : settings host = .ok s
  profiles : openTPUProfiles host (annotationOf host "opentpu-profiles") = .ok profiles

/-- Where a device that is not a GPU comes from. -/
inductive Origin (host : Host) (s : Settings) (profiles : List OpenTPUProfile) : LocalDevice → Prop
  | cpu {k : CoreKey} {cpu : Int} (hk : k ∈ coreKeys host.sysfs)
      (hr : s.reservedCores < coreCount host.sysfs k.numa) : Origin host s profiles (cpuDevice k cpu)
  | memory {dir : NodeDir} {total : Int} {slot : Nat} (hd : dir ∈ host.sysfs.nodes)
      (ht : nodeMemoryBytes dir.meminfo = .ok total)
      (hs : slot < memoryCount s.memoryUnit s.reservedMemory total) :
      Origin host s profiles (memoryDevice s.memoryUnit dir.node slot)
  | openTPU {profile : OpenTPUProfile} {memory shared : Int} {slot : Nat} (hp : profile ∈ profiles) :
      Origin host s profiles (openTPUDevice profile memory shared slot)

def Traced (host : Host) (s : Settings) (profiles : List OpenTPUProfile) (devices : Devices) : Prop :=
  ∀ name d, devices.lookup name = some d → d.name = name ∧ Origin host s profiles d

theorem Traced.storeAll (h : Traced host s profiles devices) {l : List LocalDevice}
    (hl : ∀ d ∈ l, Origin host s profiles d) :
    Traced host s profiles (storeAll LocalDevice.name l devices) := by
  intro name d hd
  obtain ⟨hmem, hname⟩ | hd := of_lookup_storeAll hd
  · exact ⟨hname, hl d hmem⟩
  · exact h name d hd

theorem Traced.kind_ne {name : String} {d : LocalDevice} (h : Traced host s profiles devices)
    (hd : devices.lookup name = some d) : d.kind ≠ .gpu ∧ initial name ≠ some 'g' := by
  obtain ⟨rfl, horigin⟩ := h name d hd
  cases horigin with
  | cpu => simp [cpuDevice, bareDevice]
  | memory => simp [memoryDevice, bareDevice]
  | openTPU => simp [openTPUDevice, bareDevice]

theorem settings_bounds (h : settings host = .ok s) :
    0 < s.memoryUnit ∧ 0 < s.reservedMemory ∧ s.reservedMemory < 2 ^ 63 ∧ 0 ≤ s.reservedCores := by
  have hquantity : ∀ raw fallback v, quantityBytes host raw fallback = .ok v →
      0 < v ∧ v < 2 ^ 63 := by
    intro raw fallback v hv
    unfold quantityBytes at hv
    split at hv
    · cases hv
    · rename_i value hvalue
      split at hv
      · cases hv
      · rename_i hpos
        obtain rfl := Except.ok.inj hv
        exact ⟨not_le.mp hpos, host.quantity_lt _ _ hvalue⟩
  have hint : ∀ raw v, positiveInt raw 1 = .ok v → 0 ≤ v := by
    intro raw v hv
    unfold positiveInt at hv
    split at hv
    · obtain rfl := Except.ok.inj hv
      decide
    · split at hv
      · cases hv
      · split at hv
        · cases hv
        · rename_i hneg
          obtain rfl := Except.ok.inj hv
          exact not_lt.mp hneg
  simp only [settings, bind_eq_ok, mapError_eq_ok, pure_eq_ok] at h
  obtain ⟨unit, hunit, memory, hmemory, cores, hcores, rfl⟩ := h
  exact ⟨(hquantity _ _ _ hunit).1, (hquantity _ _ _ hmemory).1, (hquantity _ _ _ hmemory).2,
    hint _ _ hcores⟩

theorem discoverCPU_traced (hs : settings host = .ok s)
    (h : discoverCPU order host.sysfs s.reservedCores ∅ = .ok devices) :
    Traced host s profiles devices := by
  simp only [discoverCPU, bind_eq_ok, exists_unit, pure_eq_ok] at h
  obtain ⟨-, cores, hcores, rfl⟩ := h
  apply Traced.storeAll
  · intro name d hd
    simp at hd
  · intro d hd
    obtain ⟨n, -, hd⟩ := List.mem_flatMap.mp hd
    have hr : s.reservedCores < coreCount host.sysfs n := by
      rw [← not_le, ← offeredCores_eq_nil_iff hcores (settings_bounds hs).2.2.2]
      exact List.ne_nil_of_mem hd
    have hd : d ∈ coresOf order cores n := by
      unfold offeredCores at hd
      split at hd
      · cases hd
      · exact List.mem_of_mem_drop hd
    obtain ⟨k, cpu, hk, rfl, rfl⟩ := mem_coresOf hcores hd
    exact .cpu hk hr

theorem discoverMemory_traced (ht : Traced host s profiles devices)
    (h : discoverMemory host.sysfs s.memoryUnit s.reservedMemory devices = .ok devices') :
    Traced host s profiles devices' := by
  simp only [discoverMemory, bind_eq_ok, exists_unit] at h
  apply foldlM_invariant (fun _ devices => Traced host s profiles devices) h.2 ht
  intro done dir found found' hdir hfound hstep
  simp only [addMemory, bind_eq_ok, mapError_eq_ok, pure_eq_ok] at hstep
  obtain ⟨total, htotal, rfl⟩ := hstep
  apply hfound.storeAll
  intro d hd
  obtain ⟨slot, hslot, rfl⟩ := List.mem_map.mp hd
  exact .memory hdir htotal (List.mem_range.mp hslot)

theorem addProfile_traced {profile : OpenTPUProfile} (hp : profile ∈ profiles)
    (ht : Traced host s profiles devices) (h : addProfile host devices profile = .ok devices') :
    Traced host s profiles devices' := by
  simp only [addProfile, bind_eq_ok, mapError_eq_ok, exists_unit] at h
  obtain ⟨memory, -, shared, -, -, h⟩ := h
  apply foldlM_invariant (fun _ devices => Traced host s profiles devices) h ht
  intro done slot found found' _ hfound hstep
  simp only [addSlot, bind_eq_ok, exists_unit, pure_eq_ok] at hstep
  rw [← hstep.2]
  exact hfound.storeAll (l := [_]) (by simpa using Origin.openTPU hp)

theorem discoverLocal_traced (h : discoverLocal order host = .ok devices) :
    ∃ s profiles, Configured host s profiles ∧ Traced host s profiles devices := by
  simp only [discoverLocal, discoverOpenTPU, bind_eq_ok] at h
  obtain ⟨s, hs, found, hcpu, found', hmemory, profiles, hprofiles, hopen⟩ := h
  refine ⟨s, profiles, ⟨hs, hprofiles⟩, ?_⟩
  apply foldlM_invariant (fun _ devices => Traced host s profiles devices) hopen
  · exact discoverMemory_traced (discoverCPU_traced hs hcpu) hmemory
  · intro done profile found found' hp hfound hstep
    exact addProfile_traced hp hfound hstep

end Origins

end HeteroCluster.DiscoveredDevices
