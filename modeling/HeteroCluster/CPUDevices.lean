import HeteroCluster.DiscoveredDevices
import HeteroCluster.SortedBy
import Mathlib

namespace HeteroCluster.CPUDevices

open GoStrings FailFast KeyedRecords DecimalText SortedBy ComputeInventory DiscoveredDevices
open ComputeDriver (DeviceKind LocalDevice)

section Siblings

def siblings (dirs : List CPUDir) (k : CoreKey) : List Nat :=
  (dirs.filter (fun dir => coreKey dir = some k)).map CPUDir.cpu

def firstCPU (sys : Sysfs) (k : CoreKey) : Nat := (siblings sys.cpus k).min?.getD 0

/-- A core that is offered: as many cores of its node as are reserved come
before it. -/
def Offered (sys : Sysfs) (reserve : Nat) (k : CoreKey) : Prop :=
  k ∈ coreKeys sys ∧ reserve ≤ (coreKeys sys).countP
    (fun k' => decide (k'.numa = k.numa ∧ firstCPU sys k' < firstCPU sys k))

variable {sys : Sysfs} {cores : Cores} {k k' : CoreKey}

theorem min?_snoc (l : List Nat) (a : Nat) :
    (l ++ [a]).min? = some (l.min?.elim a (fun m => min m a)) := by
  cases l with
  | nil => rfl
  | cons b l => rw [List.cons_append, List.min?_cons', List.foldl_append, List.min?_cons']; rfl

theorem lookup_cores (h : sys.cpus.foldlM addCPU ∅ = .ok cores) (k : CoreKey) :
    cores.lookup k = (siblings sys.cpus k).min?.map (fun n => (n : Int)) := by
  have hall : ∀ k, cores.lookup k = (siblings sys.cpus k).min?.map (fun n => (n : Int)) := by
    apply foldlM_invariant (fun done (cores : Cores) =>
      ∀ k, cores.lookup k = (siblings done k).min?.map (fun n => (n : Int))) h
    · simp [siblings]
    · intro done dir cores cores' _ hI hstep k
      rw [lookup_addCPU hstep, siblings, List.filter_append, List.map_append]
      split
      next hk =>
        have hsnoc : ([dir].filter (fun dir => decide (coreKey dir = some k))).map CPUDir.cpu =
            [dir.cpu] := by simp [hk]
        rw [hsnoc, min?_snoc, hI k]
        change _ = some _
        cases hm : (siblings done k).min? with
        | none =>
          rw [siblings] at hm
          rw [hm]
          rfl
        | some m =>
          rw [siblings] at hm
          rw [hm]
          simp
      next hk =>
        have hnone : ([dir].filter (fun dir => decide (coreKey dir = some k))).map CPUDir.cpu =
            [] := by simp [hk]
        rw [hnone, List.append_nil, hI k, siblings]
  exact hall k

theorem mem_coreKeys : k ∈ coreKeys sys ↔ ∃ dir ∈ sys.cpus, coreKey dir = some k := by
  simp [coreKeys]

theorem firstCPU_spec (hk : k ∈ coreKeys sys) :
    (siblings sys.cpus k).min? = some (firstCPU sys k) ∧
      (∃ dir ∈ sys.cpus, coreKey dir = some k ∧ dir.cpu = firstCPU sys k) ∧
      ∀ dir ∈ sys.cpus, coreKey dir = some k → firstCPU sys k ≤ dir.cpu := by
  have hmem : ∀ n, n ∈ siblings sys.cpus k ↔
      ∃ dir ∈ sys.cpus, coreKey dir = some k ∧ dir.cpu = n := by
    simp [siblings, and_assoc]
  obtain ⟨dir, hdir, hkey⟩ := mem_coreKeys.mp hk
  cases hm : (siblings sys.cpus k).min? with
  | none =>
    rw [List.min?_eq_none_iff] at hm
    have hsome := (hmem dir.cpu).mpr ⟨dir, hdir, hkey, rfl⟩
    rw [hm] at hsome
    cases hsome
  | some m =>
    have hfirst : firstCPU sys k = m := by rw [firstCPU, hm]; rfl
    rw [hfirst]
    obtain ⟨hin, hleast⟩ := List.min?_eq_some_iff.mp hm
    refine ⟨rfl, (hmem m).mp hin, ?_⟩
    intro dir hdir hkey
    exact hleast dir.cpu ((hmem dir.cpu).mpr ⟨dir, hdir, hkey, rfl⟩)

theorem firstCPU_inj (hk : k ∈ coreKeys sys) (hk' : k' ∈ coreKeys sys)
    (h : firstCPU sys k = firstCPU sys k') : k = k' := by
  obtain ⟨dir, hdir, hkey, hcpu⟩ := (firstCPU_spec hk).2.1
  obtain ⟨dir', hdir', hkey', hcpu'⟩ := (firstCPU_spec hk').2.1
  have hsame : dir = dir' :=
    List.inj_on_of_nodup_map sys.cpus_nodup hdir hdir' (by rw [hcpu, hcpu', h])
  rw [hsame, hkey'] at hkey
  exact (Option.some.inj hkey).symm

end Siblings

section Offers

variable {sys : Sysfs} {cores : Cores} {order : CPUOrders}
  {reserve : Nat} {n : Int} {d : LocalDevice} {devices : Devices}

def coreDevice (sys : Sysfs) (k : CoreKey) : LocalDevice := cpuDevice k (firstCPU sys k)

theorem coreDevice_inj {k k' : CoreKey} (h : coreDevice sys k = coreDevice sys k') : k = k' := by
  have hnuma := congrArg LocalDevice.numa h
  have hsocket := congrArg LocalDevice.socket h
  have hcore := congrArg LocalDevice.core h
  cases k
  cases k'
  simp_all [coreDevice, cpuDevice, bareDevice]

theorem snd_of_mem_entries (h : sys.cpus.foldlM addCPU ∅ = .ok cores)
    {e : Sigma fun _ : CoreKey => Int} (he : e ∈ cores.entries) :
    e.1 ∈ coreKeys sys ∧ e.2 = firstCPU sys e.1 := by
  have hk : e.1 ∈ coreKeys sys := by
    rw [← (cores_perm h).mem_iff, AList.keys]
    exact List.mem_keys_of_mem he
  have hl : cores.lookup e.1 = some e.2 := AList.mem_lookup_iff.mpr he
  rw [lookup_cores h, (firstCPU_spec hk).1] at hl
  exact ⟨hk, (Option.some.inj hl).symm⟩

/-- The devices of the cores of a node, in any order of the loop over the cores. -/
theorem unsorted_perm (h : sys.cpus.foldlM addCPU ∅ = .ok cores) :
    (((order.cores.order cores.entries).filter (fun e => e.1.numa = n)).map
      (fun e => cpuDevice e.1 e.2)).Perm
      (((coreKeys sys).filter (fun k => k.numa = n)).map (coreDevice sys)) := by
  refine (((order.cores.perm cores.entries).filter _).map _).trans ?_
  have hdevices : (cores.entries.filter (fun e => decide (e.1.numa = n))).map
      (fun e => cpuDevice e.1 e.2) =
      ((cores.keys.filter (fun k => decide (k.numa = n))).map (coreDevice sys)) := by
    rw [AList.keys, List.keys, List.filter_map, List.map_map]
    apply List.map_congr_left
    intro e he
    have hsnd := (snd_of_mem_entries h (List.mem_of_mem_filter he)).2
    rw [hsnd]
    rfl
  rw [hdevices]
  exact ((cores_perm h).filter _).map _

theorem coresOf_perm (h : sys.cpus.foldlM addCPU ∅ = .ok cores) :
    (coresOf order cores n).Perm
      (((coreKeys sys).filter (fun k => k.numa = n)).map (coreDevice sys)) :=
  (List.perm_insertionSort _ _).trans (unsorted_perm h)

theorem mem_coresOf (h : sys.cpus.foldlM addCPU ∅ = .ok cores) :
    d ∈ coresOf order cores n ↔ ∃ k ∈ coreKeys sys, k.numa = n ∧ coreDevice sys k = d := by
  rw [(coresOf_perm h).mem_iff]
  simp [and_assoc]

theorem cpu_coreDevice (k : CoreKey) : (coreDevice sys k).cpu = (firstCPU sys k : Int) := rfl

theorem pairwise_coresOf (h : sys.cpus.foldlM addCPU ∅ = .ok cores) :
    (coresOf order cores n).Pairwise (fun a b => a.cpu < b.cpu) := by
  apply pairwise_lt_insertionSort
  rw [((unsorted_perm h).map LocalDevice.cpu).nodup_iff, List.map_map]
  apply List.Nodup.map_on
  · intro k hk k' hk' hcpu
    have hk := List.mem_of_mem_filter hk
    have hk' := List.mem_of_mem_filter hk'
    exact firstCPU_inj hk hk' (Int.ofNat_inj.mp hcpu)
  · exact (List.nodup_dedup _).filter _

theorem coresOf_order (h : sys.cpus.foldlM addCPU ∅ = .ok cores) (order order' : CPUOrders) :
    coresOf order cores n = coresOf order' cores n := by
  apply eq_of_pairwise_lt (pairwise_coresOf h) (pairwise_coresOf h)
  intro d
  rw [(coresOf_perm h).mem_iff, (coresOf_perm h).mem_iff]

theorem countP_coresOf (h : sys.cpus.foldlM addCPU ∅ = .ok cores) (k : CoreKey) :
    (coresOf order cores n).countP (fun b => decide (b.cpu < (coreDevice sys k).cpu)) =
      (coreKeys sys).countP
        (fun k' => decide (k'.numa = n ∧ firstCPU sys k' < firstCPU sys k)) := by
  rw [(coresOf_perm h).countP_eq, List.countP_map, List.countP_filter]
  apply List.countP_congr
  intro k' _
  simp [cpu_coreDevice, and_comm]

theorem mem_offeredCores (h : sys.cpus.foldlM addCPU ∅ = .ok cores) :
    d ∈ offeredCores order cores reserve n ↔
      ∃ k, Offered sys reserve k ∧ k.numa = n ∧ coreDevice sys k = d := by
  have hdrop : offeredCores order cores reserve n = (coresOf order cores n).drop reserve := by
    rw [offeredCores, Int.toNat_natCast]
    split
    next hle => rw [List.drop_eq_nil_of_le (by omega)]
    · rfl
  rw [hdrop, mem_drop_iff (pairwise_coresOf h), mem_coresOf h]
  constructor
  · rintro ⟨⟨k, hk, rfl, rfl⟩, hcount⟩
    rw [countP_coresOf h] at hcount
    exact ⟨k, ⟨hk, hcount⟩, rfl, rfl⟩
  · rintro ⟨k, ⟨hk, hcount⟩, rfl, rfl⟩
    rw [countP_coresOf h]
    exact ⟨⟨k, hk, rfl, rfl⟩, hcount⟩

theorem length_offeredCores (order : CPUOrders) (h : sys.cpus.foldlM addCPU ∅ = .ok cores) :
    (offeredCores order cores reserve n).length = coreCount sys n - reserve := by
  have hlen : (coresOf order cores n).length = coreCount sys n := by
    rw [(coresOf_perm h).length_eq, List.length_map, coreCount, List.countP_eq_length_filter]
  rw [offeredCores, Int.toNat_natCast, hlen]
  split
  · rw [List.length_nil]
    omega
  · rw [List.length_drop, hlen]

theorem nodup_offeredCores (h : sys.cpus.foldlM addCPU ∅ = .ok cores) :
    (offeredCores order cores reserve n).Nodup := by
  have hsorted : (coresOf order cores n).Nodup :=
    (pairwise_coresOf h).imp (fun hlt heq => absurd (congrArg LocalDevice.cpu heq) hlt.ne)
  rw [offeredCores]
  split
  · exact List.nodup_nil
  · exact hsorted.sublist (List.drop_sublist _ _)

theorem discoverCPU_ok (h : discoverCPU order sys reserve ∅ = .ok devices) :
    ∃ cores l, sys.cpus.foldlM addCPU ∅ = .ok cores ∧
      devices = storeAll LocalDevice.name l ∅ ∧
      ∀ d, d ∈ l ↔ ∃ k, Offered sys reserve k ∧ coreDevice sys k = d := by
  simp only [discoverCPU, bind_eq_ok, exists_unit, pure_eq_ok] at h
  obtain ⟨-, cores, hcores, rfl⟩ := h
  refine ⟨cores, _, hcores, rfl, ?_⟩
  intro d
  simp only [List.mem_flatMap, (order.nodes.perm _).mem_iff, mem_offeredCores hcores]
  constructor
  · rintro ⟨n, -, k, hk, -, hd⟩
    exact ⟨k, hk, hd⟩
  · rintro ⟨k, hk, hd⟩
    refine ⟨k.numa, ?_, k, hk, rfl, hd⟩
    rw [List.mem_dedup, List.mem_map]
    exact ⟨k, (cores_perm hcores).mem_iff.mpr hk.1, rfl⟩

end Offers

section Published

variable {sys : Sysfs} {order : CPUOrders} {reserve : Nat}
  {devices : Devices}

theorem cpuName_inj {a b a' b' : Int} (h : cpuName a b = cpuName a' b') : a = a' ∧ b = b' := by
  have hlist : ∀ a b : Int, (cpuName a b).toList =
      "cpu-s".toList ++ (((toString a).toList ++ ['-']) ++ 'c' :: (toString b).toList) := by
    intro a b
    simp [cpuName]
  have hc : ∀ a : Int, 'c' ∉ (toString a).toList ++ ['-'] := by
    intro a hm
    obtain hm | hm := List.mem_append.mp hm
    · exact not_mem_toString (by decide) (by decide) a hm
    · exact absurd hm (by decide)
  have hl := congrArg String.toList h
  rw [hlist, hlist] at hl
  obtain ⟨ha, hb⟩ := append_cons_inj (hc a) (hc a') (List.append_cancel_left hl)
  exact ⟨Int.repr_inj.mp (String.toList_injective (List.append_cancel_right ha)),
    Int.repr_inj.mp (String.toList_injective hb)⟩

/-- What should be published of the CPUs: of every node all cores but those
reserved, each with its lowest online CPU. -/
structure Published (sys : Sysfs) (reserve : Nat) (devices : Devices) : Prop where
  count : ∀ n, (values devices).countP (fun d => d.kind = .cpu ∧ d.numa = n) =
    coreCount sys n - reserve
  names : ((values devices).map LocalDevice.name).Nodup
  cpus : ((values devices).map LocalDevice.cpu).Nodup
  lowest : ∀ d ∈ values devices,
    (∃ dir ∈ sys.cpus, coreKey dir = some ⟨d.numa, d.socket, d.core⟩ ∧ d.cpu = dir.cpu) ∧
      ∀ dir ∈ sys.cpus, coreKey dir = some ⟨d.numa, d.socket, d.core⟩ → d.cpu ≤ dir.cpu

/-- No two of the offered cores differ in their node only. -/
def Distinct (sys : Sysfs) (reserve : Nat) : Prop :=
  ∀ k k', Offered sys reserve k → Offered sys reserve k' → k.socket = k'.socket →
    k.core = k'.core → k = k'

theorem name_coreDevice (k : CoreKey) : (coreDevice sys k).name = cpuName k.socket k.core := rfl

theorem mem_values_of_distinct (hd : Distinct sys reserve)
    (h : discoverCPU order sys reserve ∅ = .ok devices) (name : String)
    (d : LocalDevice) : devices.lookup name = some d ↔
      (∃ k, Offered sys reserve k ∧ coreDevice sys k = d) ∧ d.name = name := by
  obtain ⟨cores, l, -, rfl, hl⟩ := discoverCPU_ok h
  rw [lookup_storeAll_iff, hl]
  intro a ha b hb hname
  obtain ⟨k, hk, rfl⟩ := (hl a).mp ha
  obtain ⟨k', hk', rfl⟩ := (hl b).mp hb
  obtain ⟨hsocket, hcore⟩ := cpuName_inj hname
  rw [hd k' k hk' hk hsocket hcore]

theorem published_of_distinct (hd : Distinct sys reserve)
    (h : discoverCPU order sys reserve ∅ = .ok devices) :
    Published sys reserve devices := by
  have hmem : ∀ d, d ∈ values devices ↔ ∃ k, Offered sys reserve k ∧ coreDevice sys k = d := by
    intro d
    rw [mem_values]
    constructor
    · rintro ⟨name, hl⟩
      exact ((mem_values_of_distinct hd h name d).mp hl).1
    · intro hk
      exact ⟨d.name, (mem_values_of_distinct hd h d.name d).mpr ⟨hk, rfl⟩⟩
  have hfiled : Filed LocalDevice.name devices :=
    fun name d hl => ((mem_values_of_distinct hd h name d).mp hl).2
  have hnodup : (values devices).Nodup := List.Nodup.of_map _ hfiled.nodup
  obtain ⟨cores, -, hcores, -, -⟩ := discoverCPU_ok h
  refine ⟨?_, hfiled.nodup, ?_, ?_⟩
  · intro n
    rw [List.countP_eq_length_filter, ← length_offeredCores order hcores]
    apply List.Perm.length_eq
    rw [List.perm_ext_iff_of_nodup (hnodup.filter _) (nodup_offeredCores hcores)]
    intro d
    rw [List.mem_filter, hmem, mem_offeredCores hcores, decide_eq_true_eq]
    constructor
    · rintro ⟨⟨k, hk, rfl⟩, -, hn⟩
      exact ⟨k, hk, hn, rfl⟩
    · rintro ⟨k, hk, hn, rfl⟩
      exact ⟨⟨k, hk, rfl⟩, rfl, hn⟩
  · apply List.Nodup.map_on _ hnodup
    intro a ha b hb hcpu
    obtain ⟨k, hk, rfl⟩ := (hmem a).mp ha
    obtain ⟨k', hk', rfl⟩ := (hmem b).mp hb
    rw [firstCPU_inj hk.1 hk'.1 (Int.ofNat_inj.mp hcpu)]
  · intro d hdev
    obtain ⟨k, hk, rfl⟩ := (hmem d).mp hdev
    obtain ⟨-, ⟨dir, hdir, hkey, hcpu⟩, hleast⟩ := firstCPU_spec hk.1
    refine ⟨⟨dir, hdir, hkey, ?_⟩, ?_⟩
    · rw [cpu_coreDevice, hcpu]
    · intro dir' hdir' hkey'
      exact Int.ofNat_le.mpr (hleast dir' hdir' hkey')

/-- A list of offered cores has all of a node if it has as many of them. -/
theorem mem_of_count {cores : Cores} {k : CoreKey} {l : List LocalDevice}
    (hcores : sys.cpus.foldlM addCPU ∅ = .ok cores) (hnodup : l.Nodup)
    (hl : ∀ d ∈ l, ∃ k, Offered sys reserve k ∧ coreDevice sys k = d)
    (hcount : l.countP (fun d => d.kind = .cpu ∧ d.numa = k.numa) = coreCount sys k.numa - reserve)
    (hk : Offered sys reserve k) : coreDevice sys k ∈ l := by
  by_contra hlost
  rw [List.countP_eq_length_filter, ← length_offeredCores .same hcores] at hcount
  have hcons : (coreDevice sys k ::
      l.filter (fun d => decide (d.kind = .cpu ∧ d.numa = k.numa))).Nodup := by
    refine List.nodup_cons.mpr ⟨?_, hnodup.filter _⟩
    intro hm
    exact hlost (List.mem_of_mem_filter hm)
  have hoffered : coreDevice sys k ::
      l.filter (fun d => decide (d.kind = .cpu ∧ d.numa = k.numa)) ⊆
        offeredCores .same cores reserve k.numa := by
    intro d hd
    rw [mem_offeredCores hcores]
    obtain rfl | hd := List.mem_cons.mp hd
    · exact ⟨k, hk, rfl, rfl⟩
    · rw [List.mem_filter, decide_eq_true_eq] at hd
      obtain ⟨k', hk', rfl⟩ := hl d hd.1
      exact ⟨k', hk', hd.2.2, rfl⟩
  have hle := (List.subperm_of_subset hcons hoffered).length_le
  rw [List.length_cons, hcount] at hle
  omega

theorem distinct_of_count (h : discoverCPU order sys reserve ∅ = .ok devices)
    (hcount : ∀ n, (values devices).countP (fun d => d.kind = .cpu ∧ d.numa = n) =
      coreCount sys n - reserve) : Distinct sys reserve := by
  obtain ⟨cores, l, hcores, rfl, hl⟩ := discoverCPU_ok h
  have hfiled : Filed LocalDevice.name (storeAll LocalDevice.name l ∅) :=
    Filed.storeAll (by intro name d hd; simp at hd) l
  have hnodup : (values (storeAll LocalDevice.name l ∅)).Nodup := List.Nodup.of_map _ hfiled.nodup
  have hsub : ∀ d ∈ values (storeAll LocalDevice.name l ∅),
      ∃ k, Offered sys reserve k ∧ coreDevice sys k = d := by
    intro d hd
    obtain ⟨name, hd⟩ := mem_values.mp hd
    obtain ⟨hmem, -⟩ | hd := of_lookup_storeAll hd
    · exact (hl d).mp hmem
    · simp at hd
  intro k k' hk hk' hsocket hcore
  have hlookup := hfiled.lookup (mem_of_count hcores hnodup hsub (hcount _) hk)
  have hlookup' := hfiled.lookup (mem_of_count hcores hnodup hsub (hcount _) hk')
  rw [name_coreDevice, hsocket, hcore] at hlookup
  rw [name_coreDevice] at hlookup'
  exact coreDevice_inj (Option.some.inj (hlookup.symm.trans hlookup'))

/-- The names of the devices leave out the NUMA node, so all cores are published,
and the same ones in every order of the loops, exactly if no two offered cores
share their socket and core numbers. -/
theorem published_iff (sys : Sysfs) (reserve : Nat)
    (hfound : ∃ order devices, discoverCPU order sys reserve ∅ = .ok devices) :
    (∀ order devices, discoverCPU order sys reserve ∅ = .ok devices →
      Published sys reserve devices ∧
        ∀ order' devices', discoverCPU order' sys reserve ∅ = .ok devices' →
          ∀ name, devices.lookup name = devices'.lookup name) ↔ Distinct sys reserve := by
  constructor
  · intro hall
    obtain ⟨order, devices, h⟩ := hfound
    exact distinct_of_count h (hall order devices h).1.count
  · intro hd order devices h
    refine ⟨published_of_distinct hd h, ?_⟩
    intro order' devices' h' name
    apply Option.ext
    intro d
    rw [mem_values_of_distinct hd h, mem_values_of_distinct hd h']

end Published

section Samples

def twoCPUs (node : Nat) (core : String) : Sysfs where
  cpus := [⟨0, none, some "0", some "0", [0]⟩, ⟨1, none, some "0", some core, [node]⟩]
  nodes := []
  numaNode _ := none
  cpus_nodup := by simp
  nodes_nodup := List.nodup_nil

theorem published_twoCores : ∃ devices,
    discoverCPU .same (twoCPUs 0 "1") 1 ∅ = .ok devices ∧
      Published (twoCPUs 0 "1") 1 devices := by
  have hdistinct : Distinct (twoCPUs 0 "1") 1 := by
    have hall : ∀ k ∈ coreKeys (twoCPUs 0 "1"), ∀ k' ∈ coreKeys (twoCPUs 0 "1"),
        k.socket = k'.socket → k.core = k'.core → k = k' := by
      decide +kernel
    intro k k' hk hk'
    exact hall k hk.1 k' hk'.1
  have hfound : okWith (discoverCPU .same (twoCPUs 0 "1") 1 ∅)
      (fun _ => true) = true := by
    decide +kernel
  obtain ⟨devices, hdevices, -⟩ := okWith_iff.mp hfound
  exact ⟨devices, hdevices, ((published_iff (twoCPUs 0 "1") 1 ⟨_, devices, hdevices⟩).mpr hdistinct
    .same devices hdevices).1⟩

def reversed : CPUOrders := ⟨.same _, ⟨List.reverse, List.reverse_perm⟩⟩

/-- The cores of two nodes have the same numbers: one of them is lost, and which
one depends on the order of the loop. -/
theorem core_lost : ∃ devices devices',
    discoverCPU .same (twoCPUs 1 "0") 0 ∅ = .ok devices ∧
    discoverCPU reversed (twoCPUs 1 "0") 0 ∅ = .ok devices' ∧
      ¬ Published (twoCPUs 1 "0") 0 devices ∧ ¬ Published (twoCPUs 1 "0") 0 devices' ∧
      devices.lookup "cpu-s0-c0" ≠ devices'.lookup "cpu-s0-c0" := by
  have hsame : okWith (discoverCPU .same (twoCPUs 1 "0") 0 ∅) (fun devices =>
      decide ((devices.lookup "cpu-s0-c0").map LocalDevice.numa = some 0) &&
        decide ((values devices).countP (fun d => decide (d.kind = .cpu ∧ d.numa = 1)) = 0)) =
          true := by
    decide +kernel
  have hreversed : okWith (discoverCPU reversed (twoCPUs 1 "0") 0 ∅) (fun devices =>
      decide ((devices.lookup "cpu-s0-c0").map LocalDevice.numa = some 1) &&
        decide ((values devices).countP (fun d => decide (d.kind = .cpu ∧ d.numa = 0)) = 0)) =
          true := by
    decide +kernel
  obtain ⟨devices, hdevices, htest⟩ := okWith_iff.mp hsame
  obtain ⟨devices', hdevices', htest'⟩ := okWith_iff.mp hreversed
  rw [Bool.and_eq_true, decide_eq_true_eq, decide_eq_true_eq] at htest htest'
  refine ⟨devices, devices', hdevices, hdevices', ?_, ?_, ?_⟩
  · intro h
    exact absurd ((h.count 1).symm.trans htest.2) (by decide +kernel)
  · intro h
    exact absurd ((h.count 0).symm.trans htest'.2) (by decide +kernel)
  · intro heq
    rw [heq, htest'.1] at htest
    exact absurd htest.1 (by decide)

end Samples

end HeteroCluster.CPUDevices
