import HeteroCluster.RunningTotals
import HeteroCluster.WorkerDemand

namespace HeteroCluster.TRESAmounts

open FailFast GoStrings WorkerDemand

section Entries

variable (quantity : String → Option Int)

/-- What one item of a list of resources says. An empty item and a resource that
the operator does not know say nothing. -/
def tresEntry (raw : String) : Except String (Option (String × Int)) :=
  if trimSpace raw = "" then .ok none
  else do
    let field ← tresField (trimSpace raw)
    let key := tresKey field.1
    if key ≠ "cpu" ∧ key ≠ "mem" ∧ hasPrefix key "gres/" = false then return none
    else
      match parseTRESValue quantity key (trimSpace field.2) with
      | none => .error ("invalid " ++ key ++ " value " ++ quote field.2)
      | some value => return some (key, value)

def knownEntry (raw : String) : Option (String × Int) := (tresEntry quantity raw).toOption.join

/-- The entries of a list, of which one resource can have several. -/
def tresEntries (raw : String) : List (String × Int) := (split raw ',').filterMap (knownEntry quantity)

def summed (values : List Int) : Option Int := if values = [] then none else some values.sum

def amount (raw key : String) : Option Int :=
  summed (((tresEntries quantity raw).filter (fun e => e.1 == key)).map Prod.snd)

end Entries

section Parse

variable {quantity : String → Option Int} {raw key : String} {values : Counts}

theorem tresItem_eq (w : Int → Int) (result : Counts) (raw : String) :
    tresItem w quantity result raw = (tresEntry quantity raw).map (fun entry =>
      entry.elim result (fun e => result.insert e.1 (w (count result e.1 + e.2)))) := by
  unfold tresItem tresEntry
  by_cases hempty : trimSpace raw = ""
  · rw [if_pos hempty, if_pos hempty]
    rfl
  · rw [if_neg hempty, if_neg hempty]
    cases tresField (trimSpace raw) with
    | error e => rfl
    | ok field =>
      simp only [ok_bind]
      by_cases hkey : tresKey field.1 ≠ "cpu" ∧ tresKey field.1 ≠ "mem" ∧
          hasPrefix (tresKey field.1) "gres/" = false
      · rw [if_pos hkey, if_pos hkey]
        rfl
      · rw [if_neg hkey, if_neg hkey]
        cases parseTRESValue quantity (tresKey field.1) (trimSpace field.2) with
        | none => simp [Except.map]
        | some value => simp [Except.map, pure, Except.pure]

theorem lookup_insert_count (result : Counts) (e : String × Int) :
    (result.insert e.1 (count result e.1 + e.2)).lookup key =
      if e.1 = key then some (count result key + e.2) else result.lookup key := by
  by_cases h : e.1 = key
  · rw [if_pos h, ← h, AList.lookup_insert]
  · rw [if_neg h, AList.lookup_insert_ne (Ne.symm h)]

theorem summed_concat (values : List Int) (v : Int) :
    summed (values ++ [v]) = some ((summed values).getD 0 + v) := by
  cases values with
  | nil => simp [summed]
  | cons a values => simp [summed, Int.add_assoc]

/-- The loop over the items, with unbounded integers: a key holds the sum of the
entries met so far. -/
theorem foldlM_tresItem {items : List String} {done : List (String × Int)} {result : Counts}
    (hresult : ∀ key, result.lookup key = summed ((done.filter (fun e => e.1 == key)).map Prod.snd))
    (h : items.foldlM (tresItem id quantity) result = .ok values) (key : String) :
    values.lookup key = summed (((done ++ items.filterMap (knownEntry quantity)).filter
      (fun e => e.1 == key)).map Prod.snd) := by
  induction items generalizing done result with
  | nil =>
    rw [List.foldlM_nil, pure_eq_ok] at h
    rw [← h, hresult]
    simp
  | cons item items ih =>
    rw [List.foldlM_cons, tresItem_eq] at h
    cases hentry : tresEntry quantity item with
    | error e =>
      rw [hentry] at h
      cases h
    | ok entry =>
      rw [hentry] at h
      cases entry with
      | none =>
        have hjoin : knownEntry quantity item = none := by
          rw [knownEntry, hentry]
          rfl
        rw [List.filterMap_cons_none hjoin]
        exact ih hresult h
      | some e =>
        have hjoin : knownEntry quantity item = some e := by
          rw [knownEntry, hentry]
          rfl
        rw [List.filterMap_cons_some hjoin, List.append_cons]
        refine ih (fun key => ?_) h
        dsimp only [Option.elim_some, id]
        rw [lookup_insert_count, List.filter_append, List.map_append]
        by_cases hkey : e.1 = key
        · simp [hkey, summed_concat, count, hresult]
        · simp [hkey, hresult]

theorem lookup_parseTRES (h : parseTRES id quantity raw = .ok values) (key : String) :
    values.lookup key = amount quantity raw key := by
  have hstart : ∀ key, (∅ : Counts).lookup key =
      summed ((([] : List (String × Int)).filter (fun e => e.1 == key)).map Prod.snd) := by
    simp [summed]
  have hsum := foldlM_tresItem hstart h key
  rwa [List.nil_append] at hsum

end Parse

end HeteroCluster.TRESAmounts
