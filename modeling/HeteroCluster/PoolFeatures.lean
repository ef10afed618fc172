import HeteroCluster.GresInit
import HeteroCluster.HetDemand
import HeteroCluster.SlurmConfig

namespace HeteroCluster.PoolFeatures

open GoStrings LetterCase WorkerDemand SlurmConfig

def isLower (c : Char) : Bool := decide ('a' ≤ c ∧ c ≤ 'z')

def isNameChar (c : Char) : Bool := isLower c || c.isDigit || c == '-'

def namePattern : String → Bool := hasForm isLower isNameChar 62

/-- The constraint that `Demands` takes for the feature of a pool. -/
def demandFeature (pool : WorkerPoolSpec) : String := "pool_" ++ WorkerDemand.normalize pool.name

def dashesApart : List Char → Bool
  | [] => true
  | [c] => c != '-'
  | c :: d :: rest => !(c == '-' && d == '-') && dashesApart (d :: rest)

section Names

variable {name : String}

theorem head_splitOnP {p : Char → Bool} (d : Char) (l : List Char) :
    ((d :: l).splitOnP p).head? = some [] ↔ p d = true := by
  rw [List.splitOnP_cons_eq_if_modifyHead]
  split
  next hd => simpa using hd
  next hd =>
    cases h : l.splitOnP p with
    | nil => exact absurd h (List.splitOnP_ne_nil p l)
    | cons first words => simpa using hd

/-- The parts of a name after the first are all non-empty exactly if its dashes
stand apart. -/
theorem dashesApart_iff {p : Char → Bool} {l : List Char} (hp : ∀ c ∈ l, p c = (c == '-')) :
    dashesApart l = true ↔ [] ∉ (l.splitOnP p).tail := by
  induction l using dashesApart.induct with
  | case1 => simp [dashesApart]
  | case2 c =>
    have hc := hp c List.mem_cons_self
    cases h : p c <;> simp_all [dashesApart, List.splitOnP_cons_eq_if_modifyHead]
  | case3 c d rest ih =>
    have hc := hp c List.mem_cons_self
    have hd := hp d (List.mem_cons_of_mem c List.mem_cons_self)
    have hhead := head_splitOnP (p := p) d rest
    rw [dashesApart, Bool.and_eq_true, ih (fun x hx => hp x (List.mem_cons_of_mem c hx)),
      List.splitOnP_cons_eq_if_modifyHead (p := p) c, ← hc, ← hd]
    cases hw : (d :: rest).splitOnP p with
    | nil => exact absurd hw (List.splitOnP_ne_nil p _)
    | cons first words =>
      rw [hw, List.head?_cons, Option.some.injEq] at hhead
      cases hpc : p c with
      | true =>
        have hfirst : p d = false ↔ first ≠ [] := by rw [Ne, hhead, Bool.not_eq_true]
        simp [hfirst]
      | false => simp

theorem isNameChar_cases {c : Char} (h : isNameChar c = true) :
    c = '-' ∨ (97 ≤ c.toNat ∧ c.toNat ≤ 122) ∨ (48 ≤ c.toNat ∧ c.toNat ≤ 57) := by
  simp only [isNameChar, isLower, Bool.or_eq_true, decide_eq_true_eq, beq_iff_eq,
    Char.isDigit_iff_toNat] at h
  obtain (⟨hlow, hhigh⟩ | hdigit) | hdash := h
  · exact .inr (.inl ⟨hlow, hhigh⟩)
  · exact .inr (.inr hdigit)
  · exact .inl hdash

theorem lowerChar_nameChar {c : Char} (h : isNameChar c = true) : lowerChar c = c := by
  obtain rfl | hc := isNameChar_cases h
  · rfl
  · rw [lowerChar_of_lt (by omega), toLower_of_not_capital (by omega)]

theorem isPunctuation_nameChar {c : Char} (h : isNameChar c = true) :
    isPunctuation c = (c == '-') := by
  obtain rfl | hc := isNameChar_cases h
  · decide
  · have hdash : c ≠ '-' := by
      rintro rfl
      revert hc
      decide
    have ha : c < 'a' ↔ c.toNat < 97 := Iff.rfl
    have hz : 'z' < c ↔ 122 < c.toNat := Iff.rfl
    have h0 : c < '0' ↔ c.toNat < 48 := Iff.rfl
    have h9 : '9' < c ↔ 57 < c.toNat := Iff.rfl
    rw [beq_eq_false_iff_ne.mpr hdash]
    simp only [isPunctuation, ha, hz, h0, h9, Bool.and_eq_false_iff, Bool.or_eq_false_iff,
      decide_eq_false_iff_not]
    omega

theorem namePattern_chars (h : namePattern name = true) :
    ∃ c cs, name.toList = c :: cs ∧ c ≠ '-' ∧ ∀ d ∈ name.toList, isNameChar d = true := by
  unfold namePattern hasForm at h
  split at h
  · cases h
  next c cs hs =>
    simp only [Bool.and_eq_true, List.all_eq_true] at h
    refine ⟨c, cs, hs, ?_, ?_⟩
    · rintro rfl
      revert h
      simp [isLower]
    · rw [hs, List.forall_mem_cons]
      exact ⟨by simp [isNameChar, h.1.1], h.1.2⟩

/-- `ReplaceAll` keeps every dash, as an underscore. -/
theorem toList_replaceAll (name : String) : (replaceAll name "-" "_").toList =
    name.toList.map (fun c => if c == '-' then '_' else c) := by
  rw [replaceAll, String.toList_ofList]
  exact replaceFrom_singleton '-' '_' name.toList

/-- `normalize` keeps those that stand between two parts. -/
theorem toList_normalize (h : ∀ c ∈ name.toList, isNameChar c = true) :
    (WorkerDemand.normalize name).toList = List.intercalate ['_']
      ((name.toList.splitOnP isPunctuation).filter (fun word => decide (word ≠ []))) := by
  have hlower : toLower name = name := by
    rw [toLower, List.map_congr_left (fun c hc => lowerChar_nameChar (h c hc)), List.map_id',
      String.ofList_toList]
  rw [WorkerDemand.normalize, hlower, fieldsFunc, String.toList_intercalate, List.map_map]
  simp [Function.comp_def]

theorem replaceAll_injective {a b : String} (ha : ∀ c ∈ a.toList, isNameChar c = true)
    (hb : ∀ c ∈ b.toList, isNameChar c = true) (h : replaceAll a "-" "_" = replaceAll b "-" "_") :
    a = b := by
  have hback : ∀ s : String, (∀ c ∈ s.toList, isNameChar c = true) →
      (replaceAll s "-" "_").toList.map (fun c => if c == '_' then '-' else c) = s.toList := by
    intro s hs
    rw [toList_replaceAll, List.map_map]
    refine (List.map_congr_left fun c hc => ?_).trans (List.map_id _)
    have hunderscore : c ≠ '_' := by
      rintro rfl
      exact absurd (hs _ hc) (by decide)
    by_cases hdash : c = '-'
    · simp [hdash]
    · simp [hdash, hunderscore]
  rw [← String.toList_inj, ← hback a ha, ← hback b hb, h]

theorem normalize_eq_iff (h : namePattern name = true) :
    WorkerDemand.normalize name = replaceAll name "-" "_" ↔ dashesApart name.toList = true := by
  obtain ⟨c, cs, hs, hc, hall⟩ := namePattern_chars h
  have hp : ∀ d ∈ name.toList, isPunctuation d = (d == '-') :=
    fun d hd => isPunctuation_nameChar (hall d hd)
  have hreplace : (replaceAll name "-" "_").toList =
      List.intercalate ['_'] (name.toList.splitOnP isPunctuation) := by
    rw [toList_replaceAll, intercalate_splitOnP]
    exact List.map_congr_left (fun d hd => by rw [hp d hd])
  rw [dashesApart_iff hp, ← String.toList_inj, toList_normalize hall, hreplace]
  have hhead := head_splitOnP (p := isPunctuation) c cs
  rw [← hs] at hhead
  cases hw : name.toList.splitOnP isPunctuation with
  | nil => exact absurd hw (List.splitOnP_ne_nil _ _)
  | cons first words =>
    have hfirst : first ≠ [] := by
      rintro rfl
      rw [hw] at hhead
      have hpc := hhead.mp rfl
      rw [hp c (by simp [hs])] at hpc
      exact hc (by simpa using hpc)
    exact intercalate_filter_iff hfirst

end Names

structure OneFeature (pool : WorkerPoolSpec) : Prop where
  demand : demandFeature pool = nodeSet pool
  registered : ∀ host wanted, host.workerPool = pool.name →
    (GresInit.dynamicNode host wanted).feature = nodeSet pool

structure FeaturesApart (a b : WorkerPoolSpec) : Prop where
  demand : demandFeature a ≠ demandFeature b
  nodeSet : nodeSet a ≠ nodeSet b
  registered : ∀ host host' wanted wanted', host.workerPool = a.name → host'.workerPool = b.name →
    (GresInit.dynamicNode host wanted).feature ≠ (GresInit.dynamicNode host' wanted').feature

theorem registered_eq {host : GresInit.Host} {pool : WorkerPoolSpec} (h : host.workerPool = pool.name)
    (wanted : WorkerPods.ShapeJSON) : (GresInit.dynamicNode host wanted).feature = nodeSet pool := by
  rw [GresInit.dynamicNode, h, nodeSet]

theorem oneFeature_iff {pool : WorkerPoolSpec} (h : namePattern pool.name = true) :
    OneFeature pool ↔ dashesApart pool.name.toList = true := by
  rw [← normalize_eq_iff h]
  constructor
  · intro hf
    exact (String.append_right_inj _).mp hf.demand
  · intro heq
    refine ⟨?_, fun host wanted hpool => registered_eq hpool wanted⟩
    rw [demandFeature, nodeSet, heq]

/-- Field splitting and character replacement name one feature, and different
pools differ in it, exactly as long as the dashes of the names stand apart. -/
theorem features_iff (a b : WorkerPoolSpec) (ha : namePattern a.name = true)
    (hb : namePattern b.name = true) :
    (OneFeature a ∧ OneFeature b ∧ (a.name ≠ b.name → FeaturesApart a b)) ↔
      dashesApart a.name.toList = true ∧ dashesApart b.name.toList = true := by
  rw [← oneFeature_iff ha, ← oneFeature_iff hb]
  constructor
  · rintro ⟨hfa, hfb, -⟩
    exact ⟨hfa, hfb⟩
  · rintro ⟨hfa, hfb⟩
    refine ⟨hfa, hfb, fun hne => ?_⟩
    have hsets : nodeSet a ≠ nodeSet b := by
      intro h
      obtain ⟨-, -, -, -, ha⟩ := namePattern_chars ha
      obtain ⟨-, -, -, -, hb⟩ := namePattern_chars hb
      exact hne (replaceAll_injective ha hb ((String.append_right_inj _).mp h))
    refine ⟨?_, hsets, ?_⟩
    · rw [hfa.demand, hfb.demand]
      exact hsets
    · intro host host' wanted wanted' hhost hhost'
      rw [registered_eq hhost, registered_eq hhost']
      exact hsets

section Placement

open HetDemand

variable {quantity : String → Option Int} {pools : List WorkerPoolSpec} {pool : WorkerPoolSpec}
  {lines : List String}

/-- The set of a pool's nodes, by their feature, and the partition of that set. -/
def poolEntry (pool : WorkerPoolSpec) (rest : String) : String :=
  line "NodeSet" (nodeSet pool ++ " Feature=" ++ nodeSet pool) ++
    line "PartitionName" (pool.partition ++ " Nodes=" ++ nodeSet pool ++ rest)

def HasEntry (pool : WorkerPoolSpec) (text : String) : Prop :=
  ∃ before rest after, text = before ++ poolEntry pool rest ++ after

theorem HasEntry.within {own : List String} (h : HasEntry pool (String.join own))
    (hl : own <:+: lines) : HasEntry pool (String.join lines) := by
  obtain ⟨before, rest, after, h⟩ := h
  obtain ⟨a, b, rfl⟩ := hl
  refine ⟨String.join a ++ before, rest, after ++ String.join b, ?_⟩
  simp only [String.join_append, h, String.append_assoc]

theorem hasEntry_poolLines {first : Bool} (h : poolLines quantity first pool = some lines) :
    HasEntry pool (String.join lines) := by
  rw [poolLines, Option.bind_eq_bind, Option.bind_eq_some_iff] at h
  obtain ⟨memoryUnit, -, h⟩ := h
  obtain rfl := Option.some.inj h
  refine HasEntry.within ⟨"", " State=UP DefMemPerNode=" ++ toString (memoryUnit / 2 ^ 20) ++
    if first then " Default=YES" else "", "", ?_⟩ (List.suffix_append _ _).isInfix
  have hspace : " Nodes=" = " " ++ "Nodes=" := rfl
  simp only [String.join_cons, poolEntry, hspace, String.append_assoc, String.empty_append]
  rfl

theorem exists_of_mapM {α β : Type} {f : α → Option β} {l : List α} {bs : List β} {a : α}
    (h : l.mapM f = some bs) (ha : a ∈ l) : ∃ b ∈ bs, f a = some b := by
  induction l generalizing bs with
  | nil => cases ha
  | cons c l ih =>
    simp only [List.mapM_cons, Option.bind_eq_bind, Option.bind_eq_some_iff] at h
    obtain ⟨b, hb, rest, hrest, hbs⟩ := h
    obtain rfl := Option.some.inj hbs
    obtain rfl | ha := List.mem_cons.mp ha
    · exact ⟨b, List.mem_cons_self, hb⟩
    · obtain ⟨x, hx, hfx⟩ := ih hrest ha
      exact ⟨x, List.mem_cons_of_mem b hx, hfx⟩

theorem hasEntry_allPoolLines (h : allPoolLines quantity pools = some lines) (hp : pool ∈ pools) :
    HasEntry pool (String.join lines) := by
  cases pools with
  | nil => cases hp
  | cons head pools =>
    simp only [allPoolLines, Option.bind_eq_bind, Option.bind_eq_some_iff] at h
    obtain ⟨first, hfirst, others, hothers, hlines⟩ := h
    obtain rfl := Option.some.inj hlines
    obtain rfl | hp := List.mem_cons.mp hp
    · exact (hasEntry_poolLines hfirst).within (List.prefix_append _ _).isInfix
    · obtain ⟨own, hown, hpool⟩ := exists_of_mapM hothers hp
      exact (hasEntry_poolLines hpool).within
        ((List.infix_of_mem_flatten hown).trans (List.suffix_append _ _).isInfix)

theorem hasEntry_slurm {name space : String} {files : SlurmFiles}
    (h : slurm quantity name space pools = some files) (hp : pool ∈ pools) :
    HasEntry pool files.slurmConf := by
  simp only [slurm, slurmConf, Option.bind_eq_bind, Option.bind_eq_some_iff] at h
  obtain ⟨conf, ⟨lines, hlines, hconf⟩, hfiles⟩ := h
  have hs : files.slurmConf = conf := by rw [← Option.some.inj hfiles]
  rw [hs, ← Option.some.inj hconf]
  exact (hasEntry_allPoolLines hlines (List.mem_mergeSort.mpr hp)).within
    (List.suffix_append _ _).isInfix

/-- The workers that a demand asks for are where its job can run: the configuration
gives the job's partition the nodes of a feature, the job asks for no other one, and
the workers of the demanded pool, and no others, are registered with it. -/
theorem demand_placed {int64 : Int → Int} {footprints : Footprints} {jobs : List PendingJob}
    {d : Demand} {name space : String} {files : SlurmFiles}
    (hconf : slurm quantity name space pools = some files)
    (hnames : ∀ pool ∈ pools, namePattern pool.name = true ∧ dashesApart pool.name.toList = true)
    (hd : d ∈ (demands int64 quantity jobs pools footprints).1) :
    ∃ job ∈ jobs, ∃ pool ∈ pools, d.jobID = job.id ∧ d.poolName = pool.name ∧
      pool.partition = job.partition ∧ HasEntry pool files.slurmConf ∧
      (job.features = "" ∨ job.features = nodeSet pool) ∧
      ∀ other ∈ pools, ∀ host wanted, host.workerPool = other.name →
        ((GresInit.dynamicNode host wanted).feature = nodeSet pool ↔ other.name = d.poolName) := by
  obtain ⟨job, hjob, hv⟩ := mem_demands_iff.mp hd
  obtain ⟨pool, s, ha, rfl⟩ := admitted_of_verdict hv
  have hpool := List.mem_reverse.mp (List.mem_of_find?_eq_some ha.partition)
  obtain ⟨hname, hdashes⟩ := hnames pool hpool
  refine ⟨job, hjob, pool, hpool, rfl, rfl, ?_, hasEntry_slurm hconf hpool, ?_, ?_⟩
  · simpa using List.find?_some ha.partition
  · rw [← ((oneFeature_iff hname).mpr hdashes).demand]
    exact ha.features
  · intro other hother host wanted hhost
    obtain ⟨-, -, -, -, hchars⟩ := namePattern_chars hname
    obtain ⟨-, -, -, -, hchars'⟩ := namePattern_chars (hnames other hother).1
    rw [registered_eq hhost]
    constructor
    · intro h
      exact replaceAll_injective hchars' hchars ((String.append_right_inj _).mp h)
    · intro h
      rw [nodeSet, nodeSet, h]
      rfl

theorem demand_placed_hetPool : ∃ d ∈ (demands wrapInt64 bytes hetJobs [hetPool] ∅).1,
    ∃ files, slurm bytes "c" "default" [hetPool] = some files ∧ ∃ job ∈ hetJobs,
      d.jobID = job.id ∧ HasEntry hetPool files.slurmConf := by
  obtain ⟨d, hd, -⟩ := demanded_iff_served.mpr component_served
  obtain ⟨files, hfiles⟩ := Option.isSome_iff_exists.mp
    (show (slurm bytes "c" "default" [hetPool]).isSome = true by decide +kernel)
  obtain ⟨job, hjob, pool, hpool, hid, -, -, hentry, -⟩ :=
    demand_placed hfiles (by decide +kernel) hd
  obtain rfl := List.mem_singleton.mp hpool
  exact ⟨d, hd, files, hfiles, job, hjob, hid, hentry⟩

end Placement

def namedPool (name : String) : WorkerPoolSpec := ⟨name, "cpu", "1Gi", ⟨0, 1, 1⟩, []⟩

theorem features_gpu_cpu : OneFeature (namedPool "gpu-a100") ∧ OneFeature (namedPool "cpu-64") ∧
    ((namedPool "gpu-a100").name ≠ (namedPool "cpu-64").name →
      FeaturesApart (namedPool "gpu-a100") (namedPool "cpu-64")) :=
  (features_iff (namedPool "gpu-a100") (namedPool "cpu-64") (by decide +kernel)
    (by decide +kernel)).mpr (by decide +kernel)

/-- Two names that the pattern allows with one feature for `Demands`, which is
not the feature of the first pool's nodes. -/
theorem feature_shared : namePattern "gpu--a" = true ∧ namePattern "gpu-a" = true ∧
    ¬ OneFeature (namedPool "gpu--a") ∧ ¬ FeaturesApart (namedPool "gpu--a") (namedPool "gpu-a") := by
  refine ⟨by decide +kernel, by decide +kernel, fun h => ?_, fun h => ?_⟩
  · exact absurd h.demand (by decide +kernel)
  · exact h.demand (by decide +kernel)

end HeteroCluster.PoolFeatures
