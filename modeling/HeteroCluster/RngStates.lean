import HeteroCluster.FailFast
import HeteroCluster.SortedBy
import Mathlib

namespace HeteroCluster.RngStates

open FailFast SortedBy

abbrev Bytes := List UInt8

/-- A dictionary, in the order of insertion. -/
abbrev Dict := List (String × Bytes)

def setItem (d : Dict) (key : String) (value : Bytes) : Dict :=
  if key ∈ d.map Prod.fst then d.map (fun p => if p.1 = key then (key, value) else p)
  else d ++ [(key, value)]

structure KeyError where
  key : String
  deriving DecidableEq

def getItem (d : Dict) (key : String) : Except KeyError Bytes :=
  match d.lookup key with
  | none => .error ⟨key⟩
  | some value => .ok value

def cudaKey (index : Nat) : String := "cuda_" ++ toString index

/-- The states that `torch.cuda` reports, if there is CUDA at all. -/
def deviceStates (available : Bool) (cuda : List Bytes) : List Bytes :=
  if available then cuda else []

def captureRng (cpu : Bytes) (available : Bool) (cuda : List Bytes) : Dict :=
  (deviceStates available cuda).zipIdx.foldl (fun result p => setItem result (cudaKey p.2) p.1)
    [("cpu", cpu)]

/-- What `torch.set_rng_state` and `torch.cuda.set_rng_state_all` are called with. -/
structure Restored where
  cpu : Bytes
  cuda : Option (List Bytes)
  deriving DecidableEq

/-- The keys of the devices in the order of `sorted`. -/
def cudaKeys (state : Dict) : List String :=
  ((state.map Prod.fst).insertionSort (· ≤ ·)).filter
    (fun key => "cuda_".toList.isPrefixOf key.toList)

def restoreRng (state : Dict) : Except KeyError Restored := do
  let cpu ← getItem state "cpu"
  let cuda ← (cudaKeys state).mapM (getItem state)
  return ⟨cpu, if cuda = [] then none else some cuda⟩

def RoundTrip (cpu : Bytes) (available : Bool) (cuda : List Bytes) : Prop :=
  restoreRng (captureRng cpu available cuda) = .ok ⟨cpu,
    if deviceStates available cuda = [] then none else some (deviceStates available cuda)⟩

/-- How many of the first numerals come before a numeral in the order of strings. -/
def place (n i : Nat) : Nat := (List.range n).countP (fun j => toString j < toString i)

section Capture

variable {cpu : Bytes} {states : List Bytes} {n i j : Nat}

theorem cudaKey_inj : cudaKey i = cudaKey j ↔ i = j := by
  constructor
  · intro h
    have hlists := congrArg String.toList h
    rw [cudaKey, cudaKey, String.toList_append, String.toList_append] at hlists
    exact Nat.repr_inj.mp (String.toList_inj.mp (List.append_cancel_left hlists))
  · rintro rfl
    rfl

theorem cudaKey_lt : cudaKey i < cudaKey j ↔ toString i < toString j := by
  rw [cudaKey, cudaKey, String.lt_iff_toList_lt, String.lt_iff_toList_lt, String.toList_append,
    String.toList_append]
  generalize "cuda_".toList = start
  induction start with
  | nil => rfl
  | cons c start ih => rw [List.cons_append, List.cons_append, List.cons_lt_cons_self, ih]

theorem isPrefixOf_cudaKey (i : Nat) : "cuda_".toList.isPrefixOf (cudaKey i).toList = true := by
  rw [cudaKey, String.toList_append, List.isPrefixOf_iff_prefix]
  exact List.prefix_append _ _

theorem foldl_setItem (states : List Bytes) (k : Nat) (d : Dict)
    (h : ∀ i, k ≤ i → cudaKey i ∉ d.map Prod.fst) :
    (states.zipIdx k).foldl (fun result p => setItem result (cudaKey p.2) p.1) d =
      d ++ (states.zipIdx k).map (fun p => (cudaKey p.2, p.1)) := by
  induction states generalizing k d with
  | nil => simp
  | cons state states ih =>
    have hfresh : setItem d (cudaKey k) state = d ++ [(cudaKey k, state)] := if_neg (h k le_rfl)
    rw [List.zipIdx_cons, List.foldl_cons, hfresh, ih, List.map_cons, List.append_assoc]
    · rfl
    · intro i hi
      rw [List.map_append, List.mem_append, not_or]
      refine ⟨h i (by omega), ?_⟩
      simp only [List.map_cons, List.map_nil, List.mem_singleton, cudaKey_inj]
      omega

/-- A dictionary with the states of the devices, each under its own key. -/
def captured (cpu : Bytes) (states : List Bytes) : Dict :=
  ("cpu", cpu) :: states.zipIdx.map (fun p => (cudaKey p.2, p.1))

theorem cudaKey_ne_cpu (i : Nat) : cudaKey i ≠ "cpu" := by
  intro h
  have hstart := isPrefixOf_cudaKey i
  rw [h] at hstart
  exact absurd hstart (by decide)

theorem captureRng_eq (cpu : Bytes) (available : Bool) (cuda : List Bytes) :
    captureRng cpu available cuda = captured cpu (deviceStates available cuda) := by
  refine foldl_setItem (deviceStates available cuda) 0 [("cpu", cpu)] ?_
  intro i _ hmem
  exact cudaKey_ne_cpu i (List.mem_singleton.mp hmem)

theorem keys_captured (cpu : Bytes) (states : List Bytes) :
    (captured cpu states).map Prod.fst = "cpu" :: (List.range states.length).map cudaKey := by
  rw [captured, List.map_cons, List.map_map, List.range_eq_range', ← List.zipIdx_map_snd 0 states,
    List.map_map]
  rfl

theorem nodup_keys_captured (cpu : Bytes) (states : List Bytes) :
    ((captured cpu states).map Prod.fst).Nodup := by
  rw [keys_captured, List.nodup_cons]
  constructor
  · intro hmem
    obtain ⟨i, _, hi⟩ := List.mem_map.mp hmem
    exact cudaKey_ne_cpu i hi
  · exact List.nodup_range.map (fun _ _ => cudaKey_inj.mp)

theorem lookup_zipIdx (states : List Bytes) (k i : Nat) :
    ((states.zipIdx k).map (fun p => (cudaKey p.2, p.1))).lookup (cudaKey (k + i)) =
      states[i]? := by
  induction states generalizing k i with
  | nil => rfl
  | cons state states ih =>
    rw [List.zipIdx_cons, List.map_cons]
    cases i with
    | zero => exact List.lookup_cons_self
    | succ i =>
      have hne : (cudaKey (k + (i + 1)) == cudaKey k) = false := by
        rw [beq_eq_false_iff_ne, ne_eq, cudaKey_inj]
        omega
      rw [List.lookup_cons, hne, List.getElem?_cons_succ, ← ih (k + 1) i, Nat.add_right_comm]
      rfl

theorem getItem_captured {state : Bytes} (h : states[i]? = some state) :
    getItem (captured cpu states) (cudaKey i) = .ok state := by
  have hcpu : (cudaKey i == "cpu") = false := beq_eq_false_iff_ne.mpr (cudaKey_ne_cpu i)
  have hlookup := lookup_zipIdx states 0 i
  rw [Nat.zero_add, h] at hlookup
  rw [getItem, captured, List.lookup_cons, hcpu]
  simp only [hlookup]

end Capture

section Order

variable {cpu : Bytes} {states : List Bytes} {i k : Nat}

theorem mem_cudaKeys {state : Dict} {key : String} : key ∈ cudaKeys state ↔
    key ∈ state.map Prod.fst ∧ "cuda_".toList.isPrefixOf key.toList = true := by
  rw [cudaKeys, List.mem_filter, List.mem_insertionSort]

theorem pairwise_cudaKeys {state : Dict} (h : (state.map Prod.fst).Nodup) :
    (cudaKeys state).Pairwise (fun a b => id a < id b) := by
  apply List.Pairwise.filter
  apply pairwise_lt_insertionSort
  rwa [List.map_id]

theorem mem_cudaKeys_captured {key : String} :
    key ∈ cudaKeys (captured cpu states) ↔ key ∈ (List.range states.length).map cudaKey := by
  rw [mem_cudaKeys, keys_captured, List.mem_cons]
  constructor
  · rintro ⟨rfl | hmem, hstart⟩
    · exact absurd hstart (by decide)
    · exact hmem
  · intro hmem
    obtain ⟨i, _, rfl⟩ := List.mem_map.mp hmem
    exact ⟨.inr hmem, isPrefixOf_cudaKey i⟩

theorem cudaKeys_perm :
    (cudaKeys (captured cpu states)).Perm ((List.range states.length).map cudaKey) := by
  have hnodup := nodup_keys_captured cpu states
  have hrange := hnodup
  rw [keys_captured] at hrange
  apply (List.perm_ext_iff_of_nodup _ hrange.of_cons).mpr
  · intro key
    exact mem_cudaKeys_captured
  · exact (pairwise_cudaKeys hnodup).imp (fun hlt => ne_of_lt hlt)

theorem length_cudaKeys : (cudaKeys (captured cpu states)).length = states.length := by
  rw [cudaKeys_perm.length_eq, List.length_map, List.length_range]

theorem getElem?_cudaKeys (h : i < states.length) :
    (cudaKeys (captured cpu states))[place states.length i]? = some (cudaKey i) := by
  have hmem : cudaKey i ∈ cudaKeys (captured cpu states) :=
    mem_cudaKeys_captured.mpr (List.mem_map_of_mem (List.mem_range.mpr h))
  have hget := getElem?_countP (pairwise_cudaKeys (nodup_keys_captured cpu states)) hmem
  have hplace : ((List.range states.length).map cudaKey).countP
      (fun key => decide (id key < id (cudaKey i))) = place states.length i := by
    rw [List.countP_map, place]
    apply List.countP_congr
    intro j _
    simp only [Function.comp_apply, id_eq, decide_eq_true_eq, cudaKey_lt]
  rw [cudaKeys_perm.countP_eq, hplace] at hget
  exact hget

theorem exists_place (h : k < states.length) : ∃ i < states.length, place states.length i = k := by
  have hsorted := pairwise_cudaKeys (nodup_keys_captured [] states)
  have hk : k < (cudaKeys (captured [] states)).length := by rwa [length_cudaKeys]
  have hmem := mem_cudaKeys_captured.mp (List.getElem_mem hk)
  obtain ⟨i, hi, hkey⟩ := List.mem_map.mp hmem
  have hi := List.mem_range.mp hi
  refine ⟨i, hi, ?_⟩
  have hplace := @getElem?_cudaKeys [] states i hi
  rw [hkey, ← List.getElem?_eq_getElem hk] at hplace
  exact ((List.getElem?_inj hk (hsorted.imp (fun hlt => ne_of_lt hlt))).mp hplace.symm).symm

end Order

section Restore

variable {cpu : Bytes} {states : List Bytes}

theorem restoreRng_captured {cuda : List Bytes} :
    restoreRng (captured cpu states) = .ok ⟨cpu, if cuda = [] then none else some cuda⟩ ↔
      (cudaKeys (captured cpu states)).mapM (getItem (captured cpu states)) = .ok cuda := by
  have hcpu : getItem (captured cpu states) "cpu" = .ok cpu := by
    rw [getItem, captured, List.lookup_cons_self]
  rw [restoreRng, hcpu, ok_bind, bind_eq_ok]
  constructor
  · rintro ⟨cuda', hcuda, hresult⟩
    have hsame : cuda' = cuda := by
      rw [pure_eq_ok, Restored.mk.injEq] at hresult
      have hlists := hresult.2
      split at hlists <;> split at hlists <;> simp_all
    rwa [← hsame]
  · intro hcuda
    exact ⟨cuda, hcuda, rfl⟩

/-- The states come back to their devices if the devices that trade places have
the same state. -/
theorem mapM_getItem_iff :
    (cudaKeys (captured cpu states)).mapM (getItem (captured cpu states)) = .ok states ↔
      ∀ i < states.length, states[place states.length i]? = states[i]? := by
  have hget : ∀ i (hi : i < states.length),
      ((cudaKeys (captured cpu states)).map (getItem (captured cpu states)))[
        place states.length i]? = some (.ok states[i]) := by
    intro i hi
    rw [List.getElem?_map, getElem?_cudaKeys hi, Option.map_some,
      getItem_captured (List.getElem?_eq_getElem hi)]
  have hok : Function.Injective (Except.ok : Bytes → Except KeyError Bytes) :=
    fun _ _ => Except.ok.inj
  rw [mapM_eq_ok]
  constructor
  · intro h i hi
    have hplace := hget i hi
    rw [h, List.getElem?_map] at hplace
    obtain ⟨state, hstate, heq⟩ := Option.map_eq_some_iff.mp hplace
    rw [hstate, hok heq, List.getElem?_eq_getElem hi]
  · intro h
    apply List.ext_getElem?
    intro k
    by_cases hk : k < states.length
    · obtain ⟨i, hi, rfl⟩ := exists_place hk
      rw [hget i hi, List.getElem?_map, h i hi, List.getElem?_eq_getElem hi, Option.map_some]
    · rw [List.getElem?_eq_none (by rw [List.length_map, length_cudaKeys]; omega),
        List.getElem?_eq_none (by rw [List.length_map]; omega)]

theorem roundTrip_iff_place (cpu : Bytes) (available : Bool) (cuda : List Bytes) :
    RoundTrip cpu available cuda ↔ ∀ i < (deviceStates available cuda).length,
      (deviceStates available cuda)[place (deviceStates available cuda).length i]? =
        (deviceStates available cuda)[i]? := by
  rw [RoundTrip, captureRng_eq, restoreRng_captured, mapM_getItem_iff]

end Restore

section Ten

variable {states : List Bytes} {n i : Nat}

theorem place_of_le_ten (hn : n ≤ 10) (hi : i < n) : place n i = i := by
  have hten : ∀ n ≤ 10, ∀ i < n, place n i = i := by decide +kernel
  exact hten n hn i hi

theorem exists_place_ne (h : 10 < states.length) :
    ∃ i < states.length, place states.length i ≠ i := by
  by_contra hnone
  have hplace : ∀ i < states.length, place states.length i = i := by
    intro i hi
    by_contra hne
    exact hnone ⟨i, hi, hne⟩
  have hkey : ∀ i (hi : i < states.length),
      (cudaKeys (captured [] states))[i]? = some (cudaKey i) := by
    intro i hi
    have hget := @getElem?_cudaKeys [] states i hi
    rwa [hplace i hi] at hget
  obtain ⟨h2, hkey2⟩ := List.getElem?_eq_some_iff.mp (hkey 2 (by omega))
  obtain ⟨h10, hkey10⟩ := List.getElem?_eq_some_iff.mp (hkey 10 h)
  have hsorted := pairwise_cudaKeys (nodup_keys_captured [] states)
  have hlt := List.pairwise_iff_getElem.mp hsorted 2 10 h2 h10 (by omega)
  rw [hkey2, hkey10] at hlt
  exact absurd hlt (by decide +kernel)

theorem length_le_ten_of_nodup (hnodup : states.Nodup)
    (h : ∀ i < states.length, states[place states.length i]? = states[i]?) :
    states.length ≤ 10 := by
  by_contra hlong
  obtain ⟨i, hi, hne⟩ := exists_place_ne (Nat.lt_of_not_le hlong)
  exact hne ((List.getElem?_inj hi hnodup).mp (h i hi).symm).symm

end Ten

/-- The states come back in the order of the devices with at most ten of them. With
more, the devices that trade places in the order of their numerals have to share a state. -/
theorem restoreRng_captureRng (cpu : Bytes) (available : Bool) (cuda : List Bytes) :
    (RoundTrip cpu available cuda ↔ ∀ i < (deviceStates available cuda).length,
      (deviceStates available cuda)[place (deviceStates available cuda).length i]? =
        (deviceStates available cuda)[i]?) ∧
    ((deviceStates available cuda).length ≤ 10 → RoundTrip cpu available cuda) ∧
    ((deviceStates available cuda).Nodup →
      (RoundTrip cpu available cuda ↔ (deviceStates available cuda).length ≤ 10)) := by
  have hiff := roundTrip_iff_place cpu available cuda
  have hten : (deviceStates available cuda).length ≤ 10 → RoundTrip cpu available cuda := by
    intro hn
    apply hiff.mpr
    intro i hi
    rw [place_of_le_ten hn hi]
  refine ⟨hiff, hten, ?_⟩
  intro hnodup
  constructor
  · intro h
    exact length_le_ten_of_nodup hnodup (hiff.mp h)
  · exact hten

theorem restoreRng_captureRng_two :
    RoundTrip [7] true [[0], [1]] ∧ ([[0], [1]] : List Bytes).Nodup :=
  ⟨(restoreRng_captureRng [7] true [[0], [1]]).2.1 (by decide), by decide⟩

def elevenStates : List Bytes := (List.range 11).map (fun i => [UInt8.ofNat i])

theorem eleven_devices_trade_states :
    restoreRng (captureRng [7] true elevenStates) =
      .ok ⟨[7], some [[0], [1], [10], [2], [3], [4], [5], [6], [7], [8], [9]]⟩ ∧
    ¬ RoundTrip [7] true elevenStates := by
  unfold RoundTrip
  decide +kernel

end HeteroCluster.RngStates
