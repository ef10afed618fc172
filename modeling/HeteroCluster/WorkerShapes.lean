import HeteroCluster.ComputeInventory
import HeteroCluster.HetDemand
import HeteroCluster.TRESAmounts
import HeteroCluster.WorkerClaims

namespace HeteroCluster.WorkerShapes

open ComputeInventory FailFast GoStrings HetDemand RecoveryVerifier RunningTotals TRESAmounts
open WorkerClaims WorkerDemand

abbrev Entry := Sigma fun _ : String => Int

/-- The orders in which the loops of `shapeFor` meet the keys of the maps. -/
structure Orders where
  values : RangeOrder Entry
  gres : RangeOrder Entry
  cpus : RangeOrder Entry
  memory : RangeOrder Entry

def Orders.same : Orders := ⟨.same Entry, .same Entry, .same Entry, .same Entry⟩

section Ordered

variable (w : Int → Int) (quantity : String → Option Int) (job : PendingJob)
  (pool : WorkerPoolSpec) (footprints : Footprints)

def raiseCPUs (constraints : Counts) (n : Needs) (entry : Entry) : Needs :=
  n.atLeastCPUs (w (count constraints ("gres/" ++ entry.1) * entry.2))

def raiseMemory (constraints : Counts) (n : Needs) (entry : Entry) : Needs :=
  n.atLeastMemory (w (count constraints ("gres/" ++ entry.1) * entry.2))

/-- `shapeFor`, with its loops in the given orders. -/
def shapeForIn (orders : Orders) : Except String Shape := do
  let values ← parseTRES w quantity (tresSource w job).1
  let needs := (orders.values.order values.entries).foldl (addTRES w (tresSource w job).2)
    (startNeeds w job)
  let (needs, shared) ← (orders.gres.order needs.gres.entries).foldlM (addGRES w pool footprints)
    (needs, 0)
  let cpuConstraints ← (parseTRES w quantity job.cpusPerTRES).mapError ("CPUsPerTRES: " ++ ·)
  let needs := (orders.cpus.order needs.gres.entries).foldl (raiseCPUs w cpuConstraints) needs
  let memoryConstraints ← (parseTRES w quantity job.memoryPerTRES).mapError ("MemoryPerTRES: " ++ ·)
  let needs := (orders.memory.order needs.gres.entries).foldl (raiseMemory w memoryConstraints) needs
  finishShape quantity pool needs shared

theorem shapeFor_eq_in :
    shapeFor w quantity job pool footprints = shapeForIn w quantity job pool footprints .same := rfl

end Ordered

section Loops

variable {w : Int → Int} {pool : WorkerPoolSpec} {footprints : Footprints}

theorem addTRES_other {e : Entry} (hc : e.1 ≠ "cpu") (hm : e.1 ≠ "mem") (multiplier : Int)
    (n : Needs) : (addTRES w multiplier n e).cpus = n.cpus ∧
      (addTRES w multiplier n e).memory = n.memory := by
  unfold addTRES
  simp only [if_neg hc, if_neg hm]
  cases cutPrefix e.1 "gres/" <;> exact ⟨rfl, rfl⟩

theorem le_addTRES (multiplier : Int) (n : Needs) (e : Entry) (x : Int) :
    (x ≤ (addTRES w multiplier n e).cpus ↔
      x ≤ n.cpus ∨ e.1 = "cpu" ∧ x ≤ scale w multiplier e.2) ∧
    (x ≤ (addTRES w multiplier n e).memory ↔
      x ≤ n.memory ∨ e.1 = "mem" ∧ x ≤ scale w multiplier e.2) := by
  by_cases hc : e.1 = "cpu"
  · simp [addTRES, hc, Needs.atLeastCPUs]
  · by_cases hm : e.1 = "mem"
    · simp [addTRES, hm, Needs.atLeastMemory]
    · obtain ⟨hcpus, hmemory⟩ := addTRES_other hc hm multiplier n
      rw [hcpus, hmemory, or_iff_left (fun h => hc h.1), or_iff_left (fun h => hm h.1)]
      exact ⟨Iff.rfl, Iff.rfl⟩

theorem gres_key_ne (g : String) : "gres/" ++ g ≠ "cpu" ∧ "gres/" ++ g ≠ "mem" := by
  constructor <;> intro h <;> have hlist := congrArg String.toList h <;> simp at hlist

theorem lookup_addTRES (multiplier : Int) (n : Needs) (e : Entry) (g : String) :
    (addTRES w multiplier n e).gres.lookup g =
      if e.1 = "gres/" ++ g then some (w (count n.gres g + scale w multiplier e.2))
      else n.gres.lookup g := by
  unfold addTRES
  by_cases hc : e.1 = "cpu"
  · simp [hc, (gres_key_ne g).1.symm, Needs.atLeastCPUs]
  · by_cases hm : e.1 = "mem"
    · simp [hm, (gres_key_ne g).2.symm, Needs.atLeastMemory]
    · simp only [if_neg hc, if_neg hm]
      cases hcut : cutPrefix e.1 "gres/" with
      | none =>
        rw [if_neg]
        intro he
        rw [he, cutPrefix_append] at hcut
        cases hcut
      | some name =>
        have hkey : e.1 = "gres/" ++ g ↔ name = g := by
          rw [cutPrefix_eq_some.mp hcut, String.append_right_inj]
        by_cases hname : name = g
        · rw [if_pos (hkey.mpr hname), hname, AList.lookup_insert]
        · rw [if_neg (mt hkey.mp hname), AList.lookup_insert_ne (Ne.symm hname)]

theorem lookup_foldl_addTRES (multiplier : Int) (n : Needs) {l : List Entry} (hl : l.NodupKeys)
    (g : String) :
    (l.foldl (addTRES w multiplier) n).gres.lookup g =
      (l.dlookup ("gres/" ++ g)).elim (n.gres.lookup g)
        (fun v => some (w (count n.gres g + scale w multiplier v))) := by
  induction l generalizing n with
  | nil => rfl
  | cons e l ih =>
    obtain ⟨key, value⟩ := e
    rw [List.nodupKeys_cons] at hl
    rw [List.foldl_cons, ih _ hl.2, lookup_addTRES]
    by_cases hkey : key = "gres/" ++ g
    · -- no other entry has the key
      have hnone : l.dlookup ("gres/" ++ g) = none := List.dlookup_eq_none.mpr (hkey ▸ hl.1)
      rw [hnone, if_pos hkey, hkey, List.dlookup_cons_eq]
      rfl
    · have hcount : count (addTRES w multiplier n ⟨key, value⟩).gres g = count n.gres g := by
        rw [count, lookup_addTRES, if_neg hkey, count]
      rw [if_neg hkey, List.dlookup_cons_ne _ _ (Ne.symm hkey), hcount]

def addFootprint (w : Int → Int) (footprints : Footprints) (state : Needs × Int) (e : Entry) :
    Needs × Int :=
  match footprints.lookup e.1 with
  | none => state
  | some footprint =>
    ((state.1.atLeastCPUs (w (footprint.cpus * e.2))).atLeastMemory
        (w (w (footprint.memoryBytes + footprint.sharedMemory) * e.2)),
      w (state.2 + w (footprint.sharedMemory * e.2)))

structure Mapped (pool : WorkerPoolSpec) (e : Entry) : Prop where
  count : 1 ≤ e.2
  profile : ∃ profile ∈ pool.profiles, profile.gres = e.1

theorem addGRES_eq_ok_iff (state : Needs × Int) (e : Entry) (state' : Needs × Int) :
    addGRES w pool footprints state e = .ok state' ↔
      Mapped pool e ∧ addFootprint w footprints state e = state' := by
  have hmapped : Mapped pool e ↔ ¬ e.2 < 1 ∧
      ¬ ¬ pool.profiles.any (fun profile => profile.gres == e.1) = true := by
    rw [not_lt, not_not, List.any_eq_true]
    simp only [beq_iff_eq]
    exact ⟨fun h => ⟨h.count, h.profile⟩, fun h => ⟨h.1, h.2⟩⟩
  rw [hmapped]
  simp only [addGRES, bind_eq_ok, exists_unit, refuse_eq_ok, and_assoc]
  refine and_congr_right fun _ => and_congr_right fun _ => ?_
  unfold addFootprint
  cases footprints.lookup e.1 <;> simp

theorem le_cpus_addFootprint (state : Needs × Int) (e : Entry) (x : Int) :
    x ≤ (addFootprint w footprints state e).1.cpus ↔
      x ≤ state.1.cpus ∨ ∃ f, footprints.lookup e.1 = some f ∧ x ≤ w (f.cpus * e.2) := by
  unfold addFootprint
  cases footprints.lookup e.1 <;> simp [Needs.atLeastCPUs, Needs.atLeastMemory]

theorem le_memory_addFootprint (state : Needs × Int) (e : Entry) (x : Int) :
    x ≤ (addFootprint w footprints state e).1.memory ↔
      x ≤ state.1.memory ∨ ∃ f, footprints.lookup e.1 = some f ∧
        x ≤ w (w (f.memoryBytes + f.sharedMemory) * e.2) := by
  unfold addFootprint
  cases footprints.lookup e.1 <;> simp [Needs.atLeastCPUs, Needs.atLeastMemory]

theorem gres_addFootprint (state : Needs × Int) (e : Entry) :
    (addFootprint w footprints state e).1.gres = state.1.gres := by
  unfold addFootprint
  cases footprints.lookup e.1 <;> rfl

def addShared (w : Int → Int) (footprints : Footprints) (shared : Int) (e : Entry) : Int :=
  match footprints.lookup e.1 with
  | none => shared
  | some footprint => w (shared + w (footprint.sharedMemory * e.2))

theorem shared_foldl (l : List Entry) (state : Needs × Int) :
    (l.foldl (addFootprint w footprints) state).2 = l.foldl (addShared w footprints) state.2 := by
  have hstep : ∀ s e, addShared w footprints s.2 e = (addFootprint w footprints s e).2 := by
    intro s e
    unfold addFootprint addShared
    cases footprints.lookup e.1 <;> rfl
  exact (List.foldl_hom Prod.snd hstep).symm

theorem shared_perm (hw : Wrapping w) {l l' : List Entry} (h : l.Perm l') :
    l.foldl (addShared w footprints) 0 = l'.foldl (addShared w footprints) 0 := by
  apply h.foldl_eq'
  intro a _ b _ shared
  unfold addShared
  cases footprints.lookup a.1 with
  | none => rfl
  | some f =>
    cases footprints.lookup b.1 with
    | none => rfl
    | some f' => exact hw.comm shared _ _

end Loops

section Results

variable {w : Int → Int} {quantity : String → Option Int} {job : PendingJob} {pool : WorkerPoolSpec}
  {footprints : Footprints} {values cpuConstraints memoryConstraints : Counts} {unit : Int} {s : Shape}

/-- What the lists of a job and the unit of its pool are read as. -/
structure Parsed (w : Int → Int) (quantity : String → Option Int) (job : PendingJob)
    (pool : WorkerPoolSpec) (values cpuConstraints memoryConstraints : Counts) (unit : Int) : Prop where
  values : parseTRES w quantity (tresSource w job).1 = .ok values
  cpus : parseTRES w quantity job.cpusPerTRES = .ok cpuConstraints
  memory : parseTRES w quantity job.memoryPerTRES = .ok memoryConstraints
  memoryUnit : quantity pool.memoryUnit = some unit
  unit_pos : 1 ≤ unit

/-- The shape, without a word about the orders of the loops. -/
structure Computed (w : Int → Int) (job : PendingJob) (pool : WorkerPoolSpec) (footprints : Footprints)
    (values cpuConstraints memoryConstraints : Counts) (unit : Int) (s : Shape) : Prop where
  cpus : ∀ x, x ≤ s.cpus ↔ x ≤ taskCPUs w job ∨
    (∃ v, values.lookup "cpu" = some v ∧ x ≤ scale w (tresSource w job).2 v) ∨
    (∃ g c f, s.gres.lookup g = some c ∧ footprints.lookup g = some f ∧ x ≤ w (f.cpus * c)) ∨
    ∃ g c, s.gres.lookup g = some c ∧ x ≤ w (count cpuConstraints ("gres/" ++ g) * c)
  memory : ∀ x, x ≤ s.memoryBytes ↔ x ≤ requestMemory w job ∨
    (∃ v, values.lookup "mem" = some v ∧ x ≤ scale w (tresSource w job).2 v) ∨
    (∃ g c f, s.gres.lookup g = some c ∧ footprints.lookup g = some f ∧
      x ≤ w (w (f.memoryBytes + f.sharedMemory) * c)) ∨
    (∃ g c, s.gres.lookup g = some c ∧ x ≤ w (count memoryConstraints ("gres/" ++ g) * c)) ∨ x ≤ unit
  shared : s.sharedMemoryBytes = s.gres.entries.foldl (addShared w footprints) 0
  gres : ∀ g, s.gres.lookup g = (values.lookup ("gres/" ++ g)).map
    (fun v => w (0 + scale w (tresSource w job).2 v))
  mapped : ∀ e ∈ s.gres.entries, Mapped pool e

def load (w : Int → Int) (job : PendingJob) (orders : Orders) (values : Counts) : Needs :=
  (orders.values.order values.entries).foldl (addTRES w (tresSource w job).2) (startNeeds w job)

structure Loaded (w : Int → Int) (job : PendingJob) (values : Counts) (n : Needs) : Prop where
  cpus : ∀ x, x ≤ n.cpus ↔ x ≤ taskCPUs w job ∨
    ∃ v, values.lookup "cpu" = some v ∧ x ≤ scale w (tresSource w job).2 v
  memory : ∀ x, x ≤ n.memory ↔ x ≤ requestMemory w job ∨
    ∃ v, values.lookup "mem" = some v ∧ x ≤ scale w (tresSource w job).2 v
  gres : ∀ g, n.gres.lookup g = (values.lookup ("gres/" ++ g)).map
    (fun v => w (0 + scale w (tresSource w job).2 v))

theorem loaded (orders : Orders) (values : Counts) :
    Loaded w job values (load w job orders values) := by
  have hperm := orders.values.perm values.entries
  have hentry : ∀ key x, (∃ e ∈ orders.values.order values.entries, e.1 = key ∧
      x ≤ scale w (tresSource w job).2 e.2) ↔
      ∃ v, values.lookup key = some v ∧ x ≤ scale w (tresSource w job).2 v := by
    intro key x
    constructor
    · rintro ⟨⟨k, v⟩, he, rfl, hx⟩
      exact ⟨v, AList.mem_lookup_iff.mpr (hperm.mem_iff.mp he), hx⟩
    · rintro ⟨v, hv, hx⟩
      exact ⟨⟨key, v⟩, hperm.mem_iff.mpr (AList.mem_lookup_iff.mp hv), rfl, hx⟩
  constructor
  · intro x
    rw [load, le_foldl_iff _ Needs.cpus (fun n e x => (le_addTRES _ n e x).1), hentry]
    rfl
  · intro x
    rw [load, le_foldl_iff _ Needs.memory (fun n e x => (le_addTRES _ n e x).2), hentry]
    rfl
  · intro g
    have hnodup := (List.perm_nodupKeys hperm).mpr values.nodupKeys
    rw [load, lookup_foldl_addTRES _ _ hnodup, List.perm_dlookup _ hnodup hperm]
    cases h : values.entries.dlookup ("gres/" ++ g) with
    | none =>
      have hnone : values.lookup ("gres/" ++ g) = none := h
      rw [hnone]
      rfl
    | some v =>
      have hsome : values.lookup ("gres/" ++ g) = some v := h
      rw [hsome]
      rfl

theorem exists_gres_iff (order : RangeOrder Entry) (gres : Counts) (p : String → Int → Prop) :
    (∃ e ∈ order.order gres.entries, p e.1 e.2) ↔ ∃ g c, gres.lookup g = some c ∧ p g c := by
  have hperm := order.perm gres.entries
  constructor
  · rintro ⟨⟨g, c⟩, he, hp⟩
    exact ⟨g, c, AList.mem_lookup_iff.mpr (hperm.mem_iff.mp he), hp⟩
  · rintro ⟨g, c, hc, hp⟩
    exact ⟨⟨g, c⟩, hperm.mem_iff.mpr (AList.mem_lookup_iff.mp hc), hp⟩

/-- The last steps, from the state after the loop over the resources. -/
def finish (w : Int → Int) (footprints : Footprints) (orders : Orders)
    (cpuConstraints memoryConstraints : Counts) (n : Needs) : Needs × Int :=
  let state := (orders.gres.order n.gres.entries).foldl (addFootprint w footprints) (n, 0)
  let raised := (orders.cpus.order state.1.gres.entries).foldl (raiseCPUs w cpuConstraints) state.1
  ((orders.memory.order raised.gres.entries).foldl (raiseMemory w memoryConstraints) raised, state.2)

theorem finishShape_eq_ok_iff {n : Needs} {shared : Int} :
    finishShape quantity pool n shared = .ok s ↔ ∃ unit, quantity pool.memoryUnit = some unit ∧
      1 ≤ unit ∧ s.cpus = n.cpus ∧ s.memoryBytes = max n.memory unit ∧ s.sharedMemoryBytes = shared ∧
      s.gres = n.gres := by
  unfold finishShape
  cases quantity pool.memoryUnit with
  | none => simp
  | some unit =>
    dsimp only
    by_cases hunit : 1 ≤ unit
    · obtain ⟨cpus, memoryBytes, sharedMemoryBytes, gres, hcpus, hmemory⟩ := s
      simp [hunit, eq_comm]
    · simp [hunit]

theorem shapeForIn_ok_iff {orders : Orders} :
    shapeForIn w quantity job pool footprints orders = .ok s ↔
      ∃ values cpuConstraints memoryConstraints,
        parseTRES w quantity (tresSource w job).1 = .ok values ∧
        (∀ e ∈ orders.gres.order (load w job orders values).gres.entries, Mapped pool e) ∧
        parseTRES w quantity job.cpusPerTRES = .ok cpuConstraints ∧
        parseTRES w quantity job.memoryPerTRES = .ok memoryConstraints ∧
        finishShape quantity pool
          (finish w footprints orders cpuConstraints memoryConstraints (load w job orders values)).1
          (finish w footprints orders cpuConstraints memoryConstraints (load w job orders values)).2 =
            .ok s := by
  simp only [shapeForIn, bind_eq_ok, mapError_eq_ok, foldlM_eq_ok_iff addGRES_eq_ok_iff]
  constructor
  · rintro ⟨values, hvalues, ⟨n, shared⟩, ⟨hmapped, hfold⟩, cpus, hcpus, memory, hmemory, hfinish⟩
    refine ⟨values, cpus, memory, hvalues, hmapped, hcpus, hmemory, ?_⟩
    rw [← hfinish]
    unfold finish load
    rw [hfold]
  · rintro ⟨values, cpus, memory, hvalues, hmapped, hcpus, hmemory, hfinish⟩
    exact ⟨values, hvalues, _, ⟨hmapped, rfl⟩, cpus, hcpus, memory, hmemory, hfinish⟩

theorem gres_footed (l : List Entry) (n : Needs) :
    (l.foldl (addFootprint w footprints) (n, 0)).1.gres = n.gres :=
  foldl_keeps (addFootprint w footprints) (fun state => state.1.gres) gres_addFootprint l (n, 0)

theorem gres_raisedCPUs (l : List Entry) (n : Needs) :
    (l.foldl (raiseCPUs w cpuConstraints) n).gres = n.gres :=
  foldl_keeps (raiseCPUs w cpuConstraints) Needs.gres (fun _ _ => rfl) l n

theorem memory_raisedCPUs (l : List Entry) (n : Needs) :
    (l.foldl (raiseCPUs w cpuConstraints) n).memory = n.memory :=
  foldl_keeps (raiseCPUs w cpuConstraints) Needs.memory (fun _ _ => rfl) l n

theorem gres_raisedMemory (l : List Entry) (n : Needs) :
    (l.foldl (raiseMemory w memoryConstraints) n).gres = n.gres :=
  foldl_keeps (raiseMemory w memoryConstraints) Needs.gres (fun _ _ => rfl) l n

theorem cpus_raisedMemory (l : List Entry) (n : Needs) :
    (l.foldl (raiseMemory w memoryConstraints) n).cpus = n.cpus :=
  foldl_keeps (raiseMemory w memoryConstraints) Needs.cpus (fun _ _ => rfl) l n

theorem gres_finish (orders : Orders) (n : Needs) :
    (finish w footprints orders cpuConstraints memoryConstraints n).1.gres = n.gres := by
  rw [finish, gres_raisedMemory, gres_raisedCPUs, gres_footed]

theorem le_cpus_finish (orders : Orders) (n : Needs) (x : Int) :
    x ≤ (finish w footprints orders cpuConstraints memoryConstraints n).1.cpus ↔ x ≤ n.cpus ∨
      (∃ g c, n.gres.lookup g = some c ∧ ∃ f, footprints.lookup g = some f ∧ x ≤ w (f.cpus * c)) ∨
      ∃ g c, n.gres.lookup g = some c ∧ x ≤ w (count cpuConstraints ("gres/" ++ g) * c) := by
  have hraise := le_foldl_iff (raiseCPUs w cpuConstraints) Needs.cpus (fun _ _ _ => le_max_iff)
  have hfoot := le_foldl_iff (addFootprint w footprints) (fun state => state.1.cpus)
    le_cpus_addFootprint
  rw [finish, cpus_raisedMemory, hraise, hfoot, gres_footed, or_assoc]
  rw [exists_gres_iff orders.cpus n.gres (fun g c => x ≤ w (count cpuConstraints ("gres/" ++ g) * c)),
    exists_gres_iff orders.gres n.gres
      (fun g c => ∃ f, footprints.lookup g = some f ∧ x ≤ w (f.cpus * c))]

theorem le_memory_finish (orders : Orders) (n : Needs) (x : Int) :
    x ≤ (finish w footprints orders cpuConstraints memoryConstraints n).1.memory ↔ x ≤ n.memory ∨
      (∃ g c, n.gres.lookup g = some c ∧ ∃ f, footprints.lookup g = some f ∧
        x ≤ w (w (f.memoryBytes + f.sharedMemory) * c)) ∨
      ∃ g c, n.gres.lookup g = some c ∧ x ≤ w (count memoryConstraints ("gres/" ++ g) * c) := by
  have hraise := le_foldl_iff (raiseMemory w memoryConstraints) Needs.memory
    (fun _ _ _ => le_max_iff)
  have hfoot := le_foldl_iff (addFootprint w footprints) (fun state => state.1.memory)
    le_memory_addFootprint
  rw [finish, hraise, memory_raisedCPUs, hfoot, gres_raisedCPUs, gres_footed, or_assoc]
  rw [exists_gres_iff orders.memory n.gres
      (fun g c => x ≤ w (count memoryConstraints ("gres/" ++ g) * c)),
    exists_gres_iff orders.gres n.gres (fun g c => ∃ f, footprints.lookup g = some f ∧
      x ≤ w (w (f.memoryBytes + f.sharedMemory) * c))]

theorem computed_of_ok (hw : Wrapping w) {orders : Orders}
    (h : shapeForIn w quantity job pool footprints orders = .ok s) :
    ∃ values cpuConstraints memoryConstraints unit,
      Parsed w quantity job pool values cpuConstraints memoryConstraints unit ∧
      Computed w job pool footprints values cpuConstraints memoryConstraints unit s := by
  obtain ⟨values, cpus, memory, hvalues, hmapped, hcpus, hmemory, hfinish⟩ := shapeForIn_ok_iff.mp h
  obtain ⟨unit, hunit, hpos, hscpus, hsmemory, hshared, hgres⟩ := finishShape_eq_ok_iff.mp hfinish
  have hloaded : Loaded w job values (load w job orders values) := loaded orders values
  rw [gres_finish] at hgres
  refine ⟨values, cpus, memory, unit, ⟨hvalues, hcpus, hmemory, hunit, hpos⟩, ?_, ?_, ?_, ?_, ?_⟩
  · intro x
    rw [hscpus, le_cpus_finish, hloaded.cpus, hgres, or_assoc]
    simp only [exists_and_left]
  · intro x
    rw [hsmemory, le_max_iff, le_memory_finish, hloaded.memory, hgres, or_assoc, or_assoc, or_assoc]
    simp only [exists_and_left]
  · rw [hshared, finish, shared_foldl, hgres]
    exact shared_perm hw (orders.gres.perm _)
  · rw [hgres]
    exact hloaded.gres
  · rw [hgres]
    exact fun e he => hmapped e ((orders.gres.perm _).mem_iff.mpr he)

theorem ok_in_any_order {orders : Orders}
    (h : shapeForIn w quantity job pool footprints orders = .ok s) (orders' : Orders) :
    ∃ s', shapeForIn w quantity job pool footprints orders' = .ok s' := by
  obtain ⟨values, cpus, memory, hvalues, hmapped, hcpus, hmemory, hfinish⟩ := shapeForIn_ok_iff.mp h
  obtain ⟨unit, hunit, hpos, -⟩ := finishShape_eq_ok_iff.mp hfinish
  have hshape : ∀ n shared, ∃ s', finishShape quantity pool n shared = .ok s' := by
    intro n shared
    refine ⟨⟨n.cpus, max n.memory unit, shared, n.gres, n.cpus_pos, le_max_of_le_right hpos⟩, ?_⟩
    rw [finishShape_eq_ok_iff]
    exact ⟨unit, hunit, hpos, rfl, rfl, rfl, rfl⟩
  obtain ⟨s', hs'⟩ := hshape
    (finish w footprints orders' cpus memory (load w job orders' values)).1
    (finish w footprints orders' cpus memory (load w job orders' values)).2
  refine ⟨s', shapeForIn_ok_iff.mpr ⟨values, cpus, memory, hvalues, ?_, hcpus, hmemory, hs'⟩⟩
  rintro ⟨g, c⟩ he
  have hc := AList.mem_lookup_iff.mpr ((orders'.gres.perm _).mem_iff.mp he)
  rw [(loaded orders' values).gres] at hc
  apply hmapped
  rw [(orders.gres.perm _).mem_iff, ← AList.mem_lookup_iff]
  rw [(loaded orders values).gres]
  exact hc

/-- Two shapes that are equal as Go values: a map has no order. -/
structure Same (s s' : Shape) : Prop where
  cpus : s.cpus = s'.cpus
  memory : s.memoryBytes = s'.memoryBytes
  shared : s.sharedMemoryBytes = s'.sharedMemoryBytes
  gres : ∀ g, s.gres.lookup g = s'.gres.lookup g

theorem same_in_any_order (hw : Wrapping w) {orders orders' : Orders} {s' : Shape}
    (h : shapeForIn w quantity job pool footprints orders = .ok s)
    (h' : shapeForIn w quantity job pool footprints orders' = .ok s') : Same s s' := by
  obtain ⟨values, cpus, memory, unit, hparsed, hcomputed⟩ := computed_of_ok hw h
  obtain ⟨values', cpus', memory', unit', hparsed', hcomputed'⟩ := computed_of_ok hw h'
  obtain rfl : values = values' := Except.ok.inj (hparsed.values.symm.trans hparsed'.values)
  obtain rfl : cpus = cpus' := Except.ok.inj (hparsed.cpus.symm.trans hparsed'.cpus)
  obtain rfl : memory = memory' := Except.ok.inj (hparsed.memory.symm.trans hparsed'.memory)
  obtain rfl : unit = unit' := Option.some.inj (hparsed.memoryUnit.symm.trans hparsed'.memoryUnit)
  have hgres : ∀ g, s.gres.lookup g = s'.gres.lookup g := by
    intro g
    rw [hcomputed.gres, hcomputed'.gres]
  refine ⟨eq_of_forall_le_iff fun x => ?_, eq_of_forall_le_iff fun x => ?_, ?_, hgres⟩
  · rw [hcomputed.cpus, hcomputed'.cpus]
    simp only [hgres]
  · rw [hcomputed.memory, hcomputed'.memory]
    simp only [hgres]
  · rw [hcomputed.shared, hcomputed'.shared]
    apply shared_perm hw
    apply List.lookup_ext s.gres.nodupKeys s'.gres.nodupKeys
    intro g c
    have := hgres g
    unfold AList.lookup at this
    rw [this]

end Results

section Requests

/-- The five lists of resources that a job can come with. -/
inductive Source where
  | perNode | perTask | perSocket | perJob | requested
  deriving DecidableEq

def selected (job : PendingJob) : Source × String :=
  if job.tresPerNode ≠ "" then (.perNode, job.tresPerNode)
  else if job.tresPerTask ≠ "" then (.perTask, job.tresPerTask)
  else if job.tresPerSocket ≠ "" then (.perSocket, job.tresPerSocket)
  else if job.tresPerJob ≠ "" then (.perJob, job.tresPerJob)
  else (.requested, job.tresRequested)

/-- What an amount of a list comes to on one node. -/
def OnNode (job : PendingJob) : Source → Int → Int → Prop
  | .perNode, a, v => v = a
  | .perSocket, a, v => v = a
  | .perTask, a, v => ∃ tasks, IsLeast {k | job.tasks ≤ k * nodeCount job} tasks ∧
      v = a * max (max job.tasksPerNode tasks) 1
  | .perJob, a, v => IsLeast {k | a ≤ k * nodeCount job} v
  | .requested, a, v => IsLeast {k | a ≤ k * nodeCount job} v

variable {quantity : String → Option Int} {job : PendingJob} {pool : WorkerPoolSpec}
  {footprints : Footprints} {s : Shape}

theorem nodeCount_pos (job : PendingJob) : 0 < nodeCount job :=
  lt_of_lt_of_le Int.zero_lt_one (le_max_right _ _)

theorem divRoundUp_eq {a n : Int} (ha : 0 < a) (hn : 0 < n) : divRoundUp id a n = (a + n - 1) / n := by
  rw [divRoundUp, if_neg (not_le.mpr ha)]
  exact Int.tdiv_eq_ediv_of_nonneg (by simp only [id]; omega)

theorem isLeast_divRoundUp {a n : Int} (ha : 0 < a) (hn : 0 < n) :
    IsLeast {k | a ≤ k * n} (divRoundUp id a n) := by
  rw [divRoundUp_eq ha hn]
  exact isLeast_ceil hn

theorem max_divRoundUp {a n : Int} (hn : 0 < n) (b : Int) :
    ∃ k, IsLeast {k | a ≤ k * n} k ∧ max (max b (divRoundUp id a n)) 1 = max (max b k) 1 := by
  by_cases ha : 0 < a
  · exact ⟨_, isLeast_divRoundUp ha hn, rfl⟩
  · refine ⟨_, isLeast_ceil hn, ?_⟩
    have hzero : divRoundUp id a n = 0 := if_pos (not_lt.mp ha)
    have hle : (a + n - 1) / n ≤ 0 := (isLeast_ceil hn).2 (by simpa using ha)
    omega

def multiplier (w : Int → Int) (job : PendingJob) : Source → Int
  | .perNode => 1
  | .perTask => max (max job.tasksPerNode (divRoundUp w job.tasks (nodeCount job))) 1
  | .perSocket => 1
  | .perJob => -nodeCount job
  | .requested => -nodeCount job

theorem tresSource_eq (w : Int → Int) (job : PendingJob) :
    tresSource w job = ((selected job).2, multiplier w job (selected job).1) := by
  unfold tresSource selected
  split
  · rfl
  · split
    · rfl
    · split
      · rfl
      · split <;> rfl

theorem isLeast_spread {a : Int} (h : 1 ≤ scale id (-nodeCount job) a) :
    IsLeast {k | a ≤ k * nodeCount job} (scale id (-nodeCount job) a) := by
  have hn := nodeCount_pos job
  rw [scale, if_neg (by omega), neg_neg] at h ⊢
  have ha : 0 < a := by
    by_contra hnot
    rw [divRoundUp, if_pos (not_lt.mp hnot)] at h
    omega
  exact isLeast_divRoundUp ha hn

theorem onNode_scale (source : Source) {a : Int} (h : 1 ≤ scale id (multiplier id job source) a) :
    OnNode job source a (scale id (multiplier id job source) a) := by
  cases source with
  | perNode => simp [OnNode, multiplier, scale]
  | perSocket => simp [OnNode, multiplier, scale]
  | perTask =>
    obtain ⟨tasks, hleast, hmax⟩ := max_divRoundUp (a := job.tasks) (nodeCount_pos job) job.tasksPerNode
    refine ⟨tasks, hleast, ?_⟩
    rw [scale, multiplier, if_pos (lt_of_lt_of_le Int.zero_lt_one (le_max_right _ _)), hmax]
    rfl
  | perJob => exact isLeast_spread h
  | requested => exact isLeast_spread h

theorem le_taskCPUs (job : PendingJob) :
    job.cpus ≤ taskCPUs id job * nodeCount job ∧ max 1 job.cpusPerTask ≤ taskCPUs id job ∧
      (0 < job.tasksPerNode → 0 < job.cpusPerTask →
        job.tasksPerNode * job.cpusPerTask ≤ taskCPUs id job) := by
  have hstart : startCPUs id job ≤ taskCPUs id job := by
    unfold taskCPUs
    split
    · exact le_max_left _ _
    · exact le_rfl
  have hn := nodeCount_pos job
  have hspread : divRoundUp id job.cpus (nodeCount job) ≤ taskCPUs id job :=
    (le_max_of_le_left (le_max_left _ _)).trans hstart
  refine ⟨?_, ?_, ?_⟩
  · by_cases hcpus : 0 < job.cpus
    · exact (isLeast_divRoundUp hcpus hn).1.trans (mul_le_mul_of_nonneg_right hspread hn.le)
    · have hpos := taskCPUs_pos id job
      have hprod : 0 ≤ taskCPUs id job * nodeCount job := mul_nonneg (by omega) hn.le
      omega
  · refine le_trans (max_le ?_ ?_) hstart
    · exact le_max_right _ _
    · exact le_max_of_le_left (le_max_right _ _)
  · intro htasks hcpus
    unfold taskCPUs
    rw [if_pos ⟨htasks, hcpus⟩]
    exact le_max_right _ _

/-- A shape that holds what a job asks for on one node. -/
structure Meets (quantity : String → Option Int) (job : PendingJob) (pool : WorkerPoolSpec)
    (footprints : Footprints) (s : Shape) : Prop where
  cpus_total : job.cpus ≤ s.cpus * nodeCount job
  cpus_task : max 1 job.cpusPerTask ≤ s.cpus
  cpus_tasks : 0 < job.tasksPerNode → 0 < job.cpusPerTask →
    job.tasksPerNode * job.cpusPerTask ≤ s.cpus
  gres_keys : ∀ g, g ∈ s.gres ↔ (amount quantity (selected job).2 ("gres/" ++ g)).isSome = true
  gres_mapped : ∀ g ∈ s.gres, ∃ profile ∈ pool.profiles, profile.gres = g
  gres_counts : ∀ g v, s.gres.lookup g = some v →
    ∃ a, amount quantity (selected job).2 ("gres/" ++ g) = some a ∧ OnNode job (selected job).1 a v
  cpus_gres : ∀ g v a, s.gres.lookup g = some v →
    amount quantity job.cpusPerTRES ("gres/" ++ g) = some a → a * v ≤ s.cpus
  cpus_footprint : ∀ g v f, s.gres.lookup g = some v → footprints.lookup g = some f →
    f.cpus * v ≤ s.cpus

theorem meets_of_computed {values cpuConstraints memoryConstraints : Counts} {unit : Int}
    (hparsed : Parsed id quantity job pool values cpuConstraints memoryConstraints unit)
    (h : Computed id job pool footprints values cpuConstraints memoryConstraints unit s) :
    Meets quantity job pool footprints s := by
  have hvalues := lookup_parseTRES hparsed.values
  have hcpus := lookup_parseTRES hparsed.cpus
  have hleast : taskCPUs id job ≤ s.cpus := (h.cpus _).mpr (.inl le_rfl)
  obtain ⟨htotal, htask, htasks⟩ := le_taskCPUs job
  have hgres := h.gres
  rw [tresSource_eq] at hvalues hgres
  simp only [hvalues, id, zero_add] at hgres
  constructor
  · exact htotal.trans (mul_le_mul_of_nonneg_right hleast (nodeCount_pos job).le)
  · exact htask.trans hleast
  · exact fun hn hc => (htasks hn hc).trans hleast
  · intro g
    rw [← AList.lookup_isSome, hgres, Option.isSome_map]
  · intro g hg
    obtain ⟨v, hv⟩ := Option.isSome_iff_exists.mp (AList.lookup_isSome.mpr hg)
    exact (h.mapped ⟨g, v⟩ (AList.mem_lookup_iff.mp hv)).profile
  · intro g v hv
    have hcount : 1 ≤ v := (h.mapped ⟨g, v⟩ (AList.mem_lookup_iff.mp hv)).count
    rw [hgres] at hv
    obtain ⟨a, ha, rfl⟩ := Option.map_eq_some_iff.mp hv
    exact ⟨a, ha, onNode_scale _ hcount⟩
  · intro g v a hv ha
    refine (h.cpus _).mpr (.inr (.inr (.inr ⟨g, v, hv, ?_⟩)))
    rw [count, hcpus, ha]
    exact le_rfl
  · exact fun g v f hv hf => (h.cpus _).mpr (.inr (.inr (.inl ⟨g, v, f, hv, hf, le_rfl⟩)))

end Requests

/-- `shapeFor` returns a shape, and it is the one that unbounded integers give. -/
structure ExactShape (quantity : String → Option Int) (job : PendingJob) (pool : WorkerPoolSpec)
    (footprints : Footprints) (s : Shape) : Prop where
  machine : shapeFor wrapInt64 quantity job pool footprints = .ok s
  unbounded : shapeFor id quantity job pool footprints = .ok s

/-- Without overflow the shape meets the request, whatever the orders of the
loops. -/
theorem shape_meets_request (quantity : String → Option Int) (job : PendingJob) (pool : WorkerPoolSpec)
    (footprints : Footprints) (s : Shape) (h : ExactShape quantity job pool footprints s) :
    Meets quantity job pool footprints s ∧ ∀ orders : Orders, ∃ s',
      shapeForIn wrapInt64 quantity job pool footprints orders = .ok s' ∧ Same s s' := by
  obtain ⟨hmachine, hunbounded⟩ := h
  rw [shapeFor_eq_in] at hmachine hunbounded
  constructor
  · obtain ⟨values, cpus, memory, unit, hparsed, hcomputed⟩ := computed_of_ok wrapping_id hunbounded
    exact meets_of_computed hparsed hcomputed
  · intro orders
    obtain ⟨s', hs'⟩ := ok_in_any_order hmachine orders
    exact ⟨s', hs', same_in_any_order wrapInt64_wrapping hmachine hs'⟩

section Samples

def parts (s : Shape) : Int × Int × Int × List Entry :=
  (s.cpus, s.memoryBytes, s.sharedMemoryBytes, s.gres.entries)

theorem parts_injective : Function.Injective parts := by
  rintro ⟨cpus, memory, shared, gres, _, _⟩ ⟨cpus', memory', shared', gres', _, _⟩ h
  simp only [parts, Prod.mk.injEq] at h
  obtain ⟨rfl, rfl, rfl, hgres⟩ := h
  obtain rfl : gres = gres' := AList.ext hgres
  rfl

theorem exactShape_of_parts (quantity : String → Option Int) (job : PendingJob) (pool : WorkerPoolSpec)
    (footprints : Footprints) (view : Int × Int × Int × List Entry)
    (h : (shapeFor wrapInt64 quantity job pool footprints).map parts = .ok view)
    (h' : (shapeFor id quantity job pool footprints).map parts = .ok view) :
    ∃ s, ExactShape quantity job pool footprints s ∧ parts s = view := by
  cases hs : shapeFor wrapInt64 quantity job pool footprints with
  | error e =>
    rw [hs] at h
    cases h
  | ok s =>
    cases ht : shapeFor id quantity job pool footprints with
    | error e =>
      rw [ht] at h'
      cases h'
    | ok t =>
      rw [hs] at h
      rw [ht] at h'
      have hview : parts s = view := Except.ok.inj h
      have hview' : parts t = view := Except.ok.inj h'
      obtain rfl : t = s := parts_injective (hview'.trans hview.symm)
      exact ⟨t, ⟨hs, ht⟩, hview⟩

def shapePool : WorkerPoolSpec := ⟨"tpu", "batch", "1Gi", ⟨0, 2, 0⟩, [⟨"m8", "tpu:m8", "opentpu"⟩]⟩

def shapeFootprints : Footprints := AList.singleton "tpu:m8" ⟨3, 2 ^ 26, 2 ^ 26⟩

/-- Five tasks on three nodes, each with an accelerator, written in two items. -/
def shapeJob : PendingJob :=
  { component 7 "Resources" with
    hetJobID := 0, cpus := 10, nodeCount := 3, tasks := 5, cpusPerTask := 2, memoryPerNode := 512
    tresPerTask := "gres/tpu:m8=1, cpu=1,gres:tpu:m8=1", cpusPerTRES := "gres/tpu:m8:4" }

def gibibyte (_ : String) : Option Int := some (2 ^ 30)

theorem shape_meets_sample : ∃ s, Meets gibibyte shapeJob shapePool shapeFootprints s ∧
    s.cpus = 16 ∧ s.gres.lookup "tpu:m8" = some 4 := by
  obtain ⟨s, hs, hparts⟩ := exactShape_of_parts gibibyte shapeJob shapePool shapeFootprints
    (16, 2 ^ 30, 2 ^ 28, [⟨"tpu:m8", 4⟩]) (by decide +kernel) (by decide +kernel)
  obtain ⟨hcpus, -, -, hgres⟩ : s.cpus = 16 ∧ s.memoryBytes = 2 ^ 30 ∧ s.sharedMemoryBytes = 2 ^ 28 ∧
      s.gres.entries = [⟨"tpu:m8", 4⟩] := by simpa [parts] using hparts
  refine ⟨s, (shape_meets_request _ _ _ _ s hs).1, hcpus, ?_⟩
  rw [← Option.mem_def, AList.mem_lookup_iff, hgres]
  exact List.mem_singleton_self _

end Samples

end HeteroCluster.WorkerShapes
