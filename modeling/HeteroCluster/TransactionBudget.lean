import HeteroCluster.TransactionFiles
import Mathlib.Algebra.Order.BigOperators.Group.List
import Mathlib.Algebra.Order.Group.Nat

namespace HeteroCluster.TransactionBudget

open CallProgram TransactionServer TransactionCreation TransactionFiles

variable {cfg : Config} {s s' : System} {maps : Maps} {request : CreateRequest}

def transactionBytes (cfg : Config) (streams : Nat) : Nat := streams * ringSize cfg streams

/-- What the rings of the live transactions take, by the numbers of their
streams. -/
def liveBytes (cfg : Config) (maps : Maps) : Nat :=
  (maps.transactions.entries.map (fun e => transactionBytes cfg e.2.streams.length)).sum

def fileBytes (fs : FileSystem) (path : Path) : Nat :=
  match fs path with
  | some (.file size) => size
  | _ => 0

def ringBytes (s : System) : Nat :=
  (s.maps.transactions.entries.map (fun e =>
    (e.2.streams.map (fun stream => fileBytes s.fs stream.2)).sum)).sum

/-- The server does not refuse the request for what it has registered. -/
structure Acceptable (maps : Maps) (request : CreateRequest) : Prop where
  count : 1 ≤ request.streams.length ∧ request.streams.length ≤ 2
  fresh : maps.transactions.lookup request.id = none
  free : (maps.active.lookup (activeKey request.job request.rank)).getD "" = ""

/-- The rings of the request fit beside those of the live transactions. -/
def Fits (cfg : Config) (maps : Maps) (request : CreateRequest) : Prop :=
  liveBytes cfg maps + transactionBytes cfg request.streams.length ≤ cfg.budget.toNat

def Room (cfg : Config) (s : System) : Action → Prop
  | .create request => Acceptable s.maps request → Fits cfg s.maps request
  | _ => True

section Sums

theorem liveBytes_insert {maps' : Maps} {id : String} {txn : Transaction}
    (hfresh : maps.transactions.lookup id = none)
    (h : maps'.transactions = maps.transactions.insert id txn) :
    liveBytes cfg maps' = liveBytes cfg maps + transactionBytes cfg txn.streams.length := by
  have hnot : id ∉ maps.transactions := AList.lookup_eq_none.mp hfresh
  rw [liveBytes, h, AList.entries_insert_of_notMem hnot, List.map_cons, List.sum_cons, Nat.add_comm]
  rfl

theorem liveBytes_erase {maps' : Maps} {id : String}
    (h : maps'.transactions = maps.transactions.erase id) :
    liveBytes cfg maps' ≤ liveBytes cfg maps := by
  rw [liveBytes, h]
  exact ((List.kerase_sublist id _).map _).sum_le_sum (fun _ _ => Nat.zero_le _)

theorem sum_map_const {α : Type} {l : List α} {f : α → Nat} {n : Nat} (h : ∀ a ∈ l, f a = n) :
    (l.map f).sum = l.length * n := by
  rw [List.map_congr_left h, List.map_const', List.sum_replicate, Nat.nsmul_eq_mul]

theorem sum_map_le {α : Type} {l : List α} {f : α → Nat} {n : Nat} (h : ∀ a ∈ l, f a ≤ n) :
    (l.map f).sum ≤ l.length * n := by
  rw [← sum_map_const (f := fun _ : α => n) (l := l) (fun _ _ => rfl)]
  exact List.sum_le_sum h

variable {strict : Prop}

theorem Present.le {fs : FileSystem} {path : Path} {size : Nat} (h : Present strict fs path size) :
    fileBytes fs path ≤ size := by
  unfold fileBytes
  obtain h | ⟨-, h⟩ := h
  · rw [h]
  · rw [h]
    exact Nat.zero_le _

theorem ringBytes_le (h : Sound strict cfg s) : ringBytes s ≤ liveBytes cfg s.maps := by
  apply List.sum_le_sum
  intro e he
  have hr := h.registered e.1 e.2 (AList.mem_lookup_iff.mpr he)
  exact sum_map_le (fun stream hstream => Present.le (hr.ring stream hstream))

theorem ringBytes_eq (h : Sound True cfg s) : ringBytes s = liveBytes cfg s.maps := by
  rw [ringBytes, liveBytes, List.map_congr_left]
  intro e he
  have hr := h.registered e.1 e.2 (AList.mem_lookup_iff.mpr he)
  apply sum_map_const
  intro stream hstream
  obtain hring | ⟨hn, -⟩ := hr.ring stream hstream
  · rw [fileBytes, hring]
  · exact absurd trivial hn

end Sums

section Runs

structure Within (cfg : Config) (s : System) : Prop where
  live : liveBytes cfg s.maps ≤ cfg.budget.toNat
  next : ∀ creation, s.busy = some creation → ∃ request,
    Ensured cfg s.maps request creation.rest creation.log (Outcome cfg s.maps request) ∧
      (Acceptable s.maps request → Fits cfg s.maps request)

theorem Within.step {a : Action} (h : Within cfg s) (ha : Room cfg s a) (hs : Step cfg s a s') :
    Within cfg s' := by
  cases hs with
  | create request hb =>
    refine ⟨h.live, ?_⟩
    rintro creation ⟨⟩
    exact ⟨request, createTransaction_spec cfg s.maps request, ha⟩
  | @call i next log fs' r hb hserves =>
    refine ⟨h.live, ?_⟩
    rintro creation ⟨⟩
    obtain ⟨request, he, hfits⟩ := h.next _ hb
    exact ⟨request, (he r trivial).2, hfits⟩
  | @finish result maps log hb =>
    refine ⟨?_, by rintro creation ⟨⟩⟩
    obtain ⟨request, hpost, hfits⟩ := h.next _ hb
    obtain rfl | ⟨streams, hadd⟩ := hpost
    · exact h.live
    · have hcount := hadd.count
      rw [hadd.length] at hcount
      have hsum := hfits ⟨hcount, hadd.fresh, hadd.free⟩
      rw [Fits, ← hadd.length] at hsum
      dsimp only
      rw [liveBytes_insert hadd.fresh hadd.transactions]
      exact hsum
  | @delete id job rank dir maps hb hd =>
    obtain ⟨txn, -, -, -, -, rfl⟩ := deleteTransaction_ok hd
    refine ⟨(liveBytes_erase rfl).trans h.live, ?_⟩
    intro creation hc
    exact absurd (hb.symm.trans hc) (by simp)
  | remove | removed => exact ⟨h.live, h.next⟩

theorem within_of_reaches (h : Reaches cfg (Room cfg) s) : Within cfg s := by
  induction h with
  | start fs => exact ⟨Nat.zero_le _, by simp [System.initial]⟩
  | step _ ha hs ih => exact ih.step ha hs

end Runs

/-- The rings stay within the budget in every run in which each request that is
accepted finds room for its rings. The numbers are exact: where no file is lost
the rings take what the condition adds up. -/
theorem rings_within_budget (cfg : Config) :
    (∀ s, Reaches cfg (Room cfg) s → ringBytes s ≤ cfg.budget.toNat) ∧
      ∀ s, Reaches cfg Apart s → ringBytes s = liveBytes cfg s.maps := by
  constructor
  · intro s h
    have hsound : Sound False cfg s := sound_of_reaches h (fun _ _ _ hf => hf.elim)
    exact (ringBytes_le hsound).trans (within_of_reaches h).live
  · intro s h
    exact ringBytes_eq (sound_of_reaches h (fun _ _ ha _ => ha))

def secondAfterFirst : System := withRing (firstRemoved firstCreated) "u" 2 "a"

theorem secondAfterFirst_reaches {allowed : System → Action → Prop}
    (h : Reaches defaultConfig allowed firstCreated)
    (ha : ∀ s a, s.removals = [] → Internal a → allowed s a)
    (hdelete : ∀ s dir, allowed s (.delete "t" 1 0) ∧ allowed s (.remove dir) ∧
      allowed s (.removed dir))
    (hcreate : allowed (firstRemoved firstCreated) (.create (oneByte "u" 2 "a"))) :
    Reaches defaultConfig allowed secondAfterFirst := by
  have hdeleted := firstDeleted_reaches h ⟨rfl, rfl⟩ (AList.lookup_insert _) (hdelete _ []).1
  have hremoved := firstRemoved_reaches hdeleted (fun s dir => (hdelete s dir).2)
  have hcreatable : Creatable defaultConfig (firstRemoved firstCreated).maps (oneByte "u" 2 "a")
      ⟨"a", 1⟩ :=
    creatable_oneByte "u" 2 (by decide +kernel)
      ((AList.lookup_erase_ne (by decide)).trans secondID_fresh) (by decide +kernel)
  refine hcreatable.reaches hremoved rfl ?_ (by decide +kernel) hcreate ha
  intro path hp
  dsimp only [firstRemoved]
  split
  · exact .inl rfl
  · exact madeRing_dir hp.length_le (.inl rfl)

/-- The first transaction leaves room for the second one, which would not have fit
beside it. -/
theorem rings_within_budget_second : Reaches defaultConfig (Room defaultConfig) secondAfterFirst ∧
    ringBytes secondAfterFirst ≤ defaultConfig.budget.toNat ∧
    ringBytes secondAfterFirst = liveBytes defaultConfig secondAfterFirst.maps := by
  have hroom : ∀ s a, s.removals = [] → Internal a → Room defaultConfig s a := by
    intro s a _ ha
    unfold Room
    split
    · exact ha.elim
    · trivial
  have hfirst : Fits defaultConfig ⟨∅, ∅⟩ (oneByte "t" 1 "a") := by
    unfold Fits
    decide +kernel
  have hsecond : Fits defaultConfig (firstRemoved firstCreated).maps (oneByte "u" 2 "a") := by
    unfold Fits
    decide +kernel
  have h := secondAfterFirst_reaches (firstCreated_reaches (fun _ => hfirst) hroom) hroom
    (fun _ _ => ⟨trivial, trivial, trivial⟩) (fun _ => hsecond)
  have hapart : Reaches defaultConfig Apart secondAfterFirst :=
    secondAfterFirst_reaches
      (firstCreated_reaches (apart_of_quiet rfl) (fun _ _ hs _ => apart_of_quiet hs))
      (fun _ _ hs _ => apart_of_quiet hs) (fun _ _ => ⟨trivial, trivial, trivial⟩)
      (apart_of_quiet rfl)
  exact ⟨h, (rings_within_budget defaultConfig).1 secondAfterFirst h,
    (rings_within_budget defaultConfig).2 secondAfterFirst hapart⟩

theorem live_first : liveBytes defaultConfig firstCreated.maps = ringSize defaultConfig 1 := by
  decide +kernel

/-- The transactions of two jobs get the whole budget each. -/
theorem budget_exceeded : ∃ s, Reaches defaultConfig Apart s ∧ Quiet s ∧
    defaultConfig.budget.toNat < ringBytes s := by
  refine ⟨bothCreated, bothCreated_apart, ⟨rfl, rfl⟩, ?_⟩
  rw [ringBytes_eq (sound_of_reaches bothCreated_apart (fun _ _ ha _ => ha)),
    liveBytes_insert secondID_fresh rfl, live_first]
  decide +kernel

end HeteroCluster.TransactionBudget
