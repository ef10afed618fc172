import HeteroCluster.Hostlist
import Mathlib.Algebra.Order.BigOperators.Group.List
import Mathlib.Algebra.Order.Ring.Int
import Mathlib.Algebra.Order.Ring.Nat
import Mathlib.Data.List.Range

namespace HeteroCluster.HostlistBounds

open FailFast GoStrings Hostlist

def maxInt : Int := 2 ^ 63 - 1

section Ranges

def optionRange (limit : Int) (option : String) : Option NumericRange :=
  match split option '-' with
  | [low, high] => parseRange limit low high
  | _ => none

/-- The brackets of a group that its loop comes to, up to the first error. -/
def openedBrackets (rounds : Nat) (limit : Int) (done : Nat) :
    Nat → String → List String → List String
  | left, group, expanded =>
    if group = "" then []
    else
      match left with
      | 0 => []
      | left + 1 =>
        match cut group '[' with
        | (_, _, false) => []
        | (before, opened, true) =>
          match cut opened ']' with
          | (_, _, false) => []
          | (inner, after, true) =>
            inner ::
              match addBracket rounds limit done expanded before inner with
              | .error _ => []
              | .ok next => openedBrackets rounds limit done left after next

/-- The ranges whose numbers are listed, with each loop stopped after a number
of rounds: those that pass the checks, up to the first error. -/
def startedRanges (rounds : Nat) (limit : Int) (value : String) : List NumericRange :=
  match splitHostlist value with
  | .error _ => []
  | .ok groups => (visited (addGroup rounds limit) [] groups).flatMap (fun p =>
      (openedBrackets rounds limit p.1.length rounds p.2 [""]).flatMap (fun inner =>
        (attempted (optionNames rounds limit) (split inner ',')).filterMap (optionRange limit)))

/-- The code comes to list the numbers of the range. -/
def Started (value : String) (limit : Int) (r : NumericRange) : Prop :=
  ∃ rounds, r ∈ startedRanges rounds limit value

variable {limit : Int} {r : NumericRange} {width : Nat} {last number : Int}

def numbersFrom (number : Int) : Nat → List Int
  | 0 => []
  | count + 1 => number :: numbersFrom (number + 1) count

theorem length_numbersFrom (number : Int) (count : Nat) :
    (numbersFrom number count).length = count := by
  induction count generalizing number with
  | zero => rfl
  | succ count ih => rw [numbersFrom, List.length_cons, ih]

theorem countUp_eq (hlast : last < maxInt) (hnumber : -2 ^ 63 ≤ number) (rounds : Nat) :
    countUp width last rounds number =
      ((numbersFrom number (min rounds (last - number + 1).toNat)).map (padded width),
        decide ((last - number + 1).toNat ≤ rounds)) := by
  unfold maxInt at hlast
  induction rounds generalizing number with
  | zero =>
    have hdone : last < number ↔ (last - number + 1).toNat ≤ 0 := by omega
    rw [countUp, Nat.zero_min, numbersFrom, List.map_nil, decide_eq_decide.mpr hdone]
  | succ rounds ih =>
    rw [countUp]
    by_cases hle : number ≤ last
    · have hwrap : wrapInt64 (number + 1) = number + 1 := wrapInt64_of_range (by omega) (by omega)
      have hcount : (last - number + 1).toNat = (last - (number + 1) + 1).toNat + 1 := by omega
      rw [if_pos hle, hwrap, ih (by omega), hcount, Nat.add_min_add_right, numbersFrom]
      simp
    · have hcount : (last - number + 1).toNat = 0 := by omega
      rw [if_neg hle, hcount]
      simp [numbersFrom]

/-- At the largest number it never ends. -/
theorem countUp_endless (hnumber : number ≤ maxInt) (rounds : Nat) :
    (countUp width maxInt rounds number).1.length = rounds ∧
      (countUp width maxInt rounds number).2 = false := by
  induction rounds generalizing number with
  | zero => exact ⟨rfl, decide_eq_false (not_lt.mpr hnumber)⟩
  | succ rounds ih =>
    have hnext : wrapInt64 (number + 1) ≤ maxInt := by
      have hrange := wrapInt64_range (number + 1)
      unfold maxInt
      omega
    obtain ⟨hlength, hend⟩ := ih hnext
    rw [countUp, if_pos hnumber]
    exact ⟨by simp [hlength], hend⟩

theorem parseRange_spec {low high : String} (h : parseRange limit low high = some r) :
    atoi low = some r.start ∧ atoi high = some r.last ∧ r.width = max low.length high.length ∧
      r.start ≤ r.last ∧ wrapInt64 (wrapInt64 (r.last - r.start) + 1) ≤ limit := by
  simp only [parseRange, Option.bind_eq_bind, Option.bind_eq_some_iff] at h
  obtain ⟨start, hlow, last, hhigh, h⟩ := h
  split at h
  · cases h
  next hchecks =>
    obtain rfl := Option.some.inj h
    rw [not_or, gt_iff_lt, gt_iff_lt, not_lt, not_lt] at hchecks
    exact ⟨hlow, hhigh, rfl, hchecks⟩

/-- A range that passes the checks has at most `limit` numbers, unless it ends at
the largest one. -/
theorem size_le_limit {option : String} (h : optionRange limit option = some r)
    (hlast : r.last ≠ maxInt) :
    0 ≤ r.start ∧ r.last < maxInt ∧ r.last - r.start + 1 ≤ limit := by
  unfold optionRange at h
  split at h
  next low high hsplit =>
    obtain ⟨hlow, hhigh, -, hle, hsize⟩ := parseRange_spec h
    have hstart : 0 ≤ r.start := atoi_nonneg hlow (notMem_of_mem_split (s := option) (by simp [hsplit]))
    have hmax := atoi_range hhigh
    unfold maxInt at hlast ⊢
    rw [wrapInt64_of_range (x := r.last - r.start) (by omega) (by omega),
      wrapInt64_of_range (by omega) (by omega)] at hsize
    omega
  · cases h

theorem rangeNames_length_le (hstart : 0 ≤ r.start) (hlast : r.last < maxInt)
    (hsize : r.last - r.start + 1 ≤ limit) (rounds : Nat) :
    ((rangeNames rounds r).1.length : Int) ≤ max 0 limit := by
  rw [rangeNames, countUp_eq hlast (by omega), List.length_map, length_numbersFrom]
  omega

theorem rangeNames_finished (hstart : 0 ≤ r.start) (hlast : r.last < maxInt)
    (hsize : r.last - r.start + 1 ≤ limit) {rounds : Nat} (hr : limit ≤ rounds) :
    (rangeNames rounds r).2 = true := by
  rw [rangeNames, countUp_eq hlast (by omega), decide_eq_true_eq]
  omega

end Ranges

section Rounds

variable {rounds left : Nat} {limit : Int} {group option : String}

theorem optionNames_finished (hr : limit ≤ rounds)
    (h : ∀ r, optionRange limit option = some r → r.last ≠ maxInt) :
    optionNames rounds limit option ≠ .error .unfinished := by
  unfold optionNames
  split
  · split <;> simp
  next low high hsplit =>
    cases hparse : parseRange limit low high with
    | none => simp
    | some r =>
      have hrange : optionRange limit option = some r := by
        rw [optionRange, hsplit]
        exact hparse
      obtain ⟨hstart, hlast, hsize⟩ := size_le_limit hrange (h r hrange)
      simp [rangeNames_finished hstart hlast hsize hr]
  · simp

theorem foldlM_addName_finished {done : Nat} {names next : List String} :
    names.foldlM (addName limit done) next ≠ .error .unfinished := by
  intro h
  obtain ⟨p, -, hstep⟩ := foldlM_error h
  unfold addName at hstep
  split at hstep <;> cases hstep

/-- A bracket that is not finished has an option that is not, and the loop over
its options comes to it. -/
theorem addBracket_unfinished {done : Nat} {expanded : List String} {before inner : String}
    (h : addBracket rounds limit done expanded before inner = .error .unfinished) :
    ∃ option ∈ attempted (optionNames rounds limit) (split inner ','),
      optionNames rounds limit option = .error .unfinished := by
  rw [addBracket, bind_eq_error] at h
  obtain h | ⟨values, -, h⟩ := h
  · exact mapM_error h
  · exact absurd h foldlM_addName_finished

theorem length_after {before inner after opened : String} (h : cut group '[' = (before, opened, true))
    (h' : cut opened ']' = (inner, after, true)) : after.length + 2 ≤ group.length := by
  rw [(cut_spec h).1, (cut_spec h').1]
  simp only [String.length_append, String.length_singleton]
  omega

/-- A group that is not finished has a bracket that is not, and its loop comes to
it. -/
theorem expandGroup_unfinished {done : Nat} {expanded : List String} (hleft : group.length ≤ left)
    (h : expandGroup rounds limit done left group expanded = .error .unfinished) :
    ∃ inner ∈ openedBrackets rounds limit done left group expanded,
      ∃ option ∈ attempted (optionNames rounds limit) (split inner ','),
        optionNames rounds limit option = .error .unfinished := by
  induction left generalizing group expanded with
  | zero =>
    have hempty : group = "" := by simpa using hleft
    rw [expandGroup, if_pos hempty] at h
    cases h
  | succ left ih =>
    rw [expandGroup] at h
    rw [openedBrackets]
    by_cases hne : group = ""
    · rw [if_pos hne] at h
      cases h
    · rw [if_neg hne] at h ⊢
      rcases hopen : cut group '[' with ⟨before, opened, found⟩
      rw [hopen] at h
      cases found with
      | false => cases h
      | true =>
        dsimp only at h ⊢
        rcases hclose : cut opened ']' with ⟨inner, after, closed⟩
        rw [hclose] at h
        cases closed with
        | false => cases h
        | true =>
          dsimp only at h ⊢
          rw [bind_eq_error] at h
          obtain h | ⟨next, hnext, h⟩ := h
          · exact ⟨inner, List.mem_cons_self, addBracket_unfinished h⟩
          · have hlen := length_after hopen hclose
            obtain ⟨inner', hinner, hoption⟩ := ih (by omega) h
            rw [hnext]
            exact ⟨inner', List.mem_cons_of_mem _ hinner, hoption⟩

theorem splitHostlist_finished (value : String) : splitHostlist value ≠ .error .unfinished := by
  intro h
  unfold splitHostlist at h
  rw [bind_eq_error] at h
  obtain h | ⟨s, -, h⟩ := h
  · obtain ⟨p, -, hstep⟩ := foldlM_error h
    unfold scanChar at hstep
    split at hstep
    · cases hstep
    · split at hstep
      · split at hstep <;> cases hstep
      · split at hstep <;> cases hstep
  · rw [bind_eq_error] at h
    obtain h | ⟨-, -, h⟩ := h
    · unfold refuse at h
      split at h <;> cases h
    · cases h

end Rounds

/-- What the limit is there for. The lists of the ranges are bounded at every
moment, not only when they are done. -/
structure Bounded (value : String) (limit : Int) : Prop where
  ends : ∃ enough, ∀ rounds, enough ≤ rounds →
    expandHostlist rounds value limit ≠ .error .unfinished
  names : ∀ rounds names, expandHostlist rounds value limit = .ok names →
    (names.length : Int) ≤ limit
  ranges : ∀ r, Started value limit r →
    ∀ rounds, ((rangeNames rounds r).1.length : Int) ≤ limit

theorem mem_startedRanges {rounds : Nat} {value : String} {limit : Int} {r : NumericRange} :
    r ∈ startedRanges rounds limit value ↔ ∃ groups, splitHostlist value = .ok groups ∧
      ∃ p ∈ visited (addGroup rounds limit) [] groups,
        ∃ inner ∈ openedBrackets rounds limit p.1.length rounds p.2 [""],
          ∃ option ∈ attempted (optionNames rounds limit) (split inner ','),
            optionRange limit option = some r := by
  unfold startedRanges
  cases splitHostlist value with
  | error e => simp
  | ok groups => simp

theorem Started.range {value : String} {limit : Int} {r : NumericRange} (h : Started value limit r) :
    ∃ option, optionRange limit option = some r := by
  obtain ⟨rounds, h⟩ := h
  obtain ⟨-, -, -, -, -, -, option, -, hrange⟩ := mem_startedRanges.mp h
  exact ⟨option, hrange⟩

theorem length_le_sum {groups : List String} {group : String} (h : group ∈ groups) :
    group.length ≤ (groups.map String.length).sum :=
  List.single_le_sum (fun _ _ => Nat.zero_le _) _ (List.mem_map_of_mem h)

theorem expandHostlist_finished {value : String} {limit : Int}
    (h : ∀ r, Started value limit r → r.last ≠ maxInt) :
    ∃ enough, ∀ rounds, enough ≤ rounds →
      expandHostlist rounds value limit ≠ .error .unfinished := by
  cases hsplit : splitHostlist value with
  | error e =>
    refine ⟨0, fun rounds _ herror => ?_⟩
    rw [expandHostlist, hsplit] at herror
    exact splitHostlist_finished value (hsplit.trans herror)
  | ok groups =>
    refine ⟨limit.toNat + (groups.map String.length).sum, fun rounds hrounds herror => ?_⟩
    rw [expandHostlist, hsplit, ok_bind] at herror
    obtain ⟨p, hp, herror⟩ := foldlM_error herror
    have hlen := length_le_sum (mem_of_mem_visited hp)
    rw [addGroup, bind_eq_error] at herror
    obtain herror | ⟨expanded, -, herror⟩ := herror
    · obtain ⟨inner, hinner, option, hoption, herror⟩ := expandGroup_unfinished (by omega) herror
      refine optionNames_finished (by omega) ?_ herror
      intro r hr
      exact h r ⟨rounds, mem_startedRanges.mpr
        ⟨groups, hsplit, p, hp, inner, hinner, option, hoption, hr⟩⟩
    · rw [bind_eq_error] at herror
      obtain herror | ⟨-, -, herror⟩ := herror
      · unfold refuse at herror
        split at herror <;> cases herror
      · cases herror

theorem expandHostlist_length {value : String} {limit : Int} (hl : 0 < limit) {rounds : Nat}
    {names : List String} (h : expandHostlist rounds value limit = .ok names) :
    (names.length : Int) ≤ limit := by
  rw [expandHostlist, bind_eq_ok] at h
  obtain ⟨groups, -, h⟩ := h
  apply foldlM_invariant (fun _ result => (result.length : Int) ≤ limit) h hl.le
  intro done group result result' _ _ hstep
  simp only [addGroup, bind_eq_ok, exists_unit, refuse_eq_ok, pure_eq_ok, not_lt] at hstep
  obtain ⟨expanded, -, hle, rfl⟩ := hstep
  exact hle

theorem le_last_of_started {value : String} {limit : Int} {r : NumericRange}
    (h : Started value limit r) : r.start ≤ r.last := by
  obtain ⟨option, hrange⟩ := h.range
  unfold optionRange at hrange
  split at hrange
  · exact (parseRange_spec hrange).2.2.2.1
  · cases hrange

/-- The limit holds exactly if no range that the code comes to ends at the largest
number. -/
theorem hostlist_bounded_iff (value : String) (limit : Int) (hl : 0 < limit) :
    Bounded value limit ↔ ∀ r, Started value limit r → r.last ≠ maxInt := by
  constructor
  · intro h r hr hlast
    have hstart : r.start ≤ maxInt := hlast ▸ le_last_of_started hr
    have hle := h.ranges r hr (limit.toNat + 1)
    rw [rangeNames, hlast, (countUp_endless hstart _).1] at hle
    omega
  · intro h
    refine ⟨expandHostlist_finished h, fun _ _ => expandHostlist_length hl, ?_⟩
    intro r hr rounds
    obtain ⟨option, hrange⟩ := hr.range
    obtain ⟨hstart, hlast, hsize⟩ := size_le_limit hrange (h r hr)
    have hle := rangeNames_length_le hstart hlast hsize rounds
    rwa [max_eq_right hl.le] at hle

/-- The brackets that are written in a group. -/
def writtenBrackets : Nat → String → List String
  | 0, _ => []
  | left + 1, group =>
    match cut group '[' with
    | (_, _, false) => []
    | (_, opened, true) =>
      match cut opened ']' with
      | (_, _, false) => []
      | (inner, after, true) => inner :: writtenBrackets left after

def writtenRanges (limit : Int) (value : String) : List NumericRange :=
  match splitHostlist value with
  | .error _ => []
  | .ok groups => groups.flatMap (fun group => (writtenBrackets group.length group).flatMap
      (fun inner => (split inner ',').filterMap (optionRange limit)))

theorem mem_writtenBrackets {rounds done left bound : Nat} {limit : Int} {group inner : String}
    {expanded : List String} (hbound : group.length ≤ bound)
    (h : inner ∈ openedBrackets rounds limit done left group expanded) :
    inner ∈ writtenBrackets bound group := by
  induction left generalizing group expanded bound with
  | zero =>
    rw [openedBrackets] at h
    split at h <;> cases h
  | succ left ih =>
    rw [openedBrackets] at h
    by_cases hempty : group = ""
    · simp [hempty] at h
    · obtain ⟨bound, rfl⟩ : ∃ n, bound = n + 1 := by
        apply Nat.exists_eq_succ_of_ne_zero
        rintro rfl
        exact hempty (by simpa using hbound)
      rw [if_neg hempty] at h
      rw [writtenBrackets]
      split at h
      · cases h
      next before opened hopen =>
        split at h
        · cases h
        next inner' after hclose =>
          rw [List.mem_cons] at h
          obtain rfl | h := h
          · exact List.mem_cons_self
          · split at h
            · cases h
            · have hlen := length_after hopen hclose
              exact List.mem_cons_of_mem _ (ih (by omega) h)

/-- A range that is started is written in the text. -/
theorem Started.written {value : String} {limit : Int} {r : NumericRange}
    (h : Started value limit r) : r ∈ writtenRanges limit value := by
  obtain ⟨rounds, h⟩ := h
  obtain ⟨groups, hsplit, p, hp, inner, hinner, option, hoption, hrange⟩ := mem_startedRanges.mp h
  rw [writtenRanges, hsplit]
  apply List.mem_flatMap.mpr
  refine ⟨p.2, mem_of_mem_visited hp, List.mem_flatMap.mpr ⟨inner, ?_, ?_⟩⟩
  · exact mem_writtenBrackets le_rfl hinner
  · exact List.mem_filterMap.mpr ⟨option, mem_of_mem_attempted hoption, hrange⟩

theorem hostlist_bounded_sample : Bounded "rack[1-2]node[01-02,04],plain" 10 := by
  have hwritten : ∀ r ∈ writtenRanges 10 "rack[1-2]node[01-02,04],plain", r.last ≠ maxInt := by
    decide +kernel
  exact (hostlist_bounded_iff _ 10 (by decide)).mpr (fun r hr => hwritten r hr.written)

def endlessRange : NumericRange := ⟨maxInt, maxInt, 19⟩

def endlessHosts : String := "n[9223372036854775807-9223372036854775807]"

theorem optionNames_endless (rounds : Nat) :
    optionNames rounds 10000 "9223372036854775807-9223372036854775807" = .error .unfinished := by
  have hsplit : split "9223372036854775807-9223372036854775807" '-' =
      ["9223372036854775807", "9223372036854775807"] := by decide +kernel
  have hparse : parseRange 10000 "9223372036854775807" "9223372036854775807" = some endlessRange := by
    decide +kernel
  have hend : (rangeNames rounds endlessRange).2 = false := (countUp_endless le_rfl rounds).2
  rw [optionNames, hsplit]
  dsimp only
  rw [hparse]
  dsimp only
  rw [hend]
  rfl

theorem startedRanges_endless : endlessRange ∈ startedRanges 1 10000 endlessHosts := by
  decide +kernel

/-- One host whose number is the largest: the loop over the range goes on for
ever, and its list grows with every round. -/
theorem endless_hostlist : (∀ rounds, expandHostlist rounds endlessHosts 10000 = .error .unfinished) ∧
    Started endlessHosts 10000 endlessRange ∧
    ∀ rounds, (rangeNames rounds endlessRange).1.length = rounds := by
  refine ⟨?_, ⟨1, startedRanges_endless⟩, fun rounds => (countUp_endless le_rfl rounds).1⟩
  intro rounds
  have hgroups : splitHostlist endlessHosts = .ok [endlessHosts] := by decide +kernel
  have hne : endlessHosts ≠ "" := by decide +kernel
  have hopen : cut endlessHosts '[' = ("n", "9223372036854775807-9223372036854775807]", true) := by
    decide +kernel
  have hclose : cut "9223372036854775807-9223372036854775807]" ']' =
      ("9223372036854775807-9223372036854775807", "", true) := by decide +kernel
  have hoptions : split "9223372036854775807-9223372036854775807" ',' =
      ["9223372036854775807-9223372036854775807"] := by decide +kernel
  rw [expandHostlist, hgroups, ok_bind, List.foldlM_cons, addGroup]
  cases rounds with
  | zero => rfl
  | succ rounds =>
    rw [expandGroup, if_neg hne, hopen]
    dsimp only
    rw [hclose]
    dsimp only
    rw [addBracket, hoptions, List.mapM_cons, optionNames_endless]
    rfl

end HeteroCluster.HostlistBounds
