import HeteroCluster.HostlistGrammar

namespace HeteroCluster.HostlistNames

open DecimalText FailFast GoStrings Hostlist HostlistBounds HostlistGrammar

section Options

variable {rounds limit : Nat} {low high : String}

theorem padded_natCast {width : Nat} (hwidth : width ≤ 1000000) (number : Nat) :
    padded width number = zeroPadded width number := by
  have hsign : ¬ ((number : Int) < 0) := by omega
  simp [padded, zeroPadded, hsign, not_lt.mpr hwidth]

theorem numbersFrom_natCast (start count : Nat) :
    numbersFrom start count = (List.range' start count).map Nat.cast := by
  induction count generalizing start with
  | zero => rfl
  | succ count ih =>
    rw [numbersFrom, List.range'_succ, List.map_cons, ← ih]
    rfl

theorem split_range (hlow : low.toList.all Char.isDigit = true)
    (hhigh : high.toList.all Char.isDigit = true) : split (low ++ "-" ++ high) '-' = [low, high] := by
  have hdash : ∀ s : String, s.toList.all Char.isDigit = true → '-' ∉ s.toList := by
    intro s hs hmem
    have := List.all_eq_true.mp hs '-' hmem
    simp at this
  have hjoin : low ++ "-" ++ high = (String.singleton '-').intercalate [low, high] := by
    apply String.toList_injective
    simp
  rw [hjoin, split_intercalate (by simp)]
  simp [hdash low hlow, hdash high hhigh]

theorem parseRange_digits (hlow : low ≠ "" ∧ low.toList.all Char.isDigit = true)
    (hhigh : high ≠ "" ∧ high.toList.all Char.isDigit = true) (hle : numeral low ≤ numeral high)
    (hlast : (numeral high : Int) < maxInt) :
    parseRange limit low high = if numeral high + 1 - numeral low ≤ limit then
      some ⟨numeral low, numeral high, max low.length high.length⟩ else none := by
  unfold maxInt at hlast
  have hstart : atoi low = some (numeral low : Int) := by
    rw [atoi_digits hlow.1 hlow.2, if_pos (by unfold numeral at *; omega), numeral]
  have hend : atoi high = some (numeral high : Int) := by
    rw [atoi_digits hhigh.1 hhigh.2, if_pos (by unfold numeral at *; omega), numeral]
  rw [parseRange, hstart, hend]
  simp only [Option.bind_eq_bind, Option.bind_some]
  rw [wrapInt64_of_range (x := (numeral high : Int) - numeral low) (by omega) (by omega),
    wrapInt64_of_range (by omega) (by omega)]
  by_cases hsize : numeral high + 1 - numeral low ≤ limit
  · rw [if_pos hsize, if_neg (by omega)]
  · rw [if_neg hsize, if_pos (by omega)]

/-- A range below the largest number stands for its numbers, unless they are too
many. -/
theorem optionNames_digits (hlow : low ≠ "" ∧ low.toList.all Char.isDigit = true)
    (hhigh : high ≠ "" ∧ high.toList.all Char.isDigit = true) (hle : numeral low ≤ numeral high)
    (hlast : (numeral high : Int) < maxInt) (hwidth : max low.length high.length ≤ 1000000)
    (hr : limit ≤ rounds) :
    optionNames rounds limit (low ++ "-" ++ high) =
      if numeral high + 1 - numeral low ≤ limit then
        .ok ((List.range' (numeral low) (numeral high + 1 - numeral low)).map
          (zeroPadded (max low.length high.length)))
      else .error (.failed ("invalid hostlist range " ++ quote (low ++ "-" ++ high))) := by
  rw [optionNames, split_range hlow.2 hhigh.2]
  dsimp only
  rw [parseRange_digits hlow hhigh hle hlast]
  by_cases hsize : numeral high + 1 - numeral low ≤ limit
  · have hcount : ((numeral high : Int) - numeral low + 1).toNat = numeral high + 1 - numeral low := by
      omega
    have hnames : rangeNames rounds ⟨numeral low, numeral high, max low.length high.length⟩ =
        ((List.range' (numeral low) (numeral high + 1 - numeral low)).map
          (zeroPadded (max low.length high.length)), true) := by
      have hstart : -2 ^ 63 ≤ (numeral low : Int) := by omega
      have hpadded : ∀ n : Nat, (padded (max low.length high.length) ∘ Nat.cast) n =
          zeroPadded (max low.length high.length) n := padded_natCast hwidth
      rw [rangeNames, countUp_eq hlast hstart, hcount, min_eq_right (by omega),
        numbersFrom_natCast, List.map_map, decide_eq_true (by omega), funext hpadded]
    rw [if_pos hsize, if_pos hsize]
    dsimp only
    rw [hnames, if_pos rfl]
  · rw [if_neg hsize, if_neg hsize]

/-- Either all the names, or an error that more than `limit` names justify. -/
def Partly (limit : Nat) (names : List α) (r : Except Stop β) (result : β) : Prop :=
  r = .ok result ∨ (∃ message, r = .error (.failed message)) ∧ limit < names.length

theorem optionNames_text (o : BracketOption) (hr : limit ≤ rounds) :
    Partly limit o.names (optionNames rounds limit o.text) o.names := by
  cases o with
  | literal l dashFree =>
    left
    rw [BracketOption.text, optionNames, split_of_notMem dashFree]
    exact if_pos l.nonempty
  | range r =>
    rw [BracketOption.text, optionNames_digits ⟨r.nonempty, r.digits.1⟩ ⟨r.high_ne_empty, r.digits.2⟩
      r.ordered r.numeral_high_lt r.width_le hr, ← r.sameLength, max_self]
    by_cases hsize : numeral r.high + 1 - numeral r.low ≤ limit
    · exact .inl (if_pos hsize)
    · refine .inr ⟨⟨_, if_neg hsize⟩, ?_⟩
      rw [BracketOption.names, DigitRange.names, List.length_map, List.length_range']
      omega

theorem mapM_optionNames (options : List BracketOption) (hr : limit ≤ rounds) :
    Partly limit (options.flatMap BracketOption.names)
      ((options.map BracketOption.text).mapM (optionNames rounds limit))
      (options.map BracketOption.names) := by
  induction options with
  | nil => exact .inl rfl
  | cons o options ih =>
    rw [List.map_cons, List.mapM_cons, Partly, List.flatMap_cons, List.length_append]
    obtain ho | ⟨⟨message, ho⟩, hmany⟩ := optionNames_text o hr
    · rw [ho, ok_bind]
      obtain hrest | ⟨⟨message, hrest⟩, hmany⟩ := ih
      · rw [hrest]
        exact .inl rfl
      · rw [hrest]
        exact .inr ⟨⟨message, rfl⟩, by omega⟩
    · rw [ho]
      exact .inr ⟨⟨message, rfl⟩, by omega⟩

end Options

section Expansion

variable {rounds limit left : Nat} {before inner after : String} {expanded : List String}

theorem expandGroup_bracket (hbefore : '[' ∉ before.toList) (hinner : ']' ∉ inner.toList) (done : Nat) :
    expandGroup rounds limit done (left + 1) (before ++ ("[" ++ inner ++ "]" ++ after)) expanded =
      (do
        let values ← (split inner ',').mapM (optionNames rounds limit)
        let next ← (expanded.flatMap (fun base => values.flatten.map (base ++ before ++ ·))).foldlM
          (addName limit done) []
        expandGroup rounds limit done left after next) := by
  have hne : before ++ ("[" ++ inner ++ "]" ++ after) ≠ "" := by simp [String.append_eq_empty_iff]
  have hopen : cut (before ++ ("[" ++ inner ++ "]" ++ after)) '[' =
      (before, inner ++ "]" ++ after, true) := by
    rw [← cut_append before (inner ++ "]" ++ after) '[' hbefore]
    simp only [String.append_assoc]
    rfl
  have hclose : cut (inner ++ "]" ++ after) ']' = (inner, after, true) :=
    cut_append inner after ']' hinner
  rw [expandGroup, if_neg hne, hopen]
  dsimp only
  rw [hclose]
  dsimp only
  rw [addBracket, bind_assoc]

theorem foldlM_addName {names next prior : List String} (h : (prior ++ next).length ≤ limit) :
    names.foldlM (addName limit prior.length) next =
      if (prior ++ (next ++ names)).length ≤ limit then .ok (next ++ names)
      else .error (.failed ("hostlist exceeds " ++ toString (limit : Int) ++ " nodes")) := by
  induction names generalizing next with
  | nil =>
    rw [List.append_nil, if_pos h]
    rfl
  | cons name names ih =>
    simp only [List.length_append, List.length_cons] at h ⊢
    rw [List.foldlM_cons, addName]
    by_cases hfull : limit < next.length + 1 + prior.length
    · rw [if_pos (by omega), if_neg (by omega)]
      rfl
    · have hnext : (prior ++ (next ++ [name])).length ≤ limit := by
        simp only [List.length_append, List.length_singleton]
        omega
      rw [if_neg (by omega), ok_bind, ih hnext]
      simp

/-- The names of a group, from those of the pieces already taken and the text
since the last bracket. -/
def extend (expanded : List String) (before : String) (ps : List Piece) : List String :=
  expanded.flatMap (fun base => (productNames ps).map (base ++ before ++ ·))

theorem length_flatMap_map (l : List String) (m : List α) (f : String → α → String) :
    (l.flatMap (fun a => m.map (f a))).length = l.length * m.length := by
  simp [List.length_flatMap]

theorem extend_literal (l : Literal) (ps : List Piece) :
    extend expanded before (.literal l :: ps) = extend expanded (before ++ l.text) ps := by
  simp [extend, productNames, Piece.names, String.append_assoc, Function.comp_def]

theorem extend_cons (p : Piece) (ps : List Piece) :
    extend expanded before (p :: ps) =
      extend (expanded.flatMap (fun base => p.names.map (base ++ before ++ ·))) "" ps := by
  simp [extend, productNames, List.flatMap_assoc, List.flatMap_map, List.map_flatMap,
    String.append_assoc, Function.comp_def]

theorem length_le_extend (l : List String) (ps : List Piece) : l.length ≤ (extend l "" ps).length := by
  rw [extend, length_flatMap_map]
  exact Nat.le_mul_of_pos_right _ (List.length_pos_iff.mpr (productNames_ne_nil ps))

theorem split_optionsText (first : BracketOption) (rest : List BracketOption) :
    split (optionsText (first :: rest)) ',' = (first :: rest).map BracketOption.text := by
  apply split_intercalate (by simp)
  intro w hw hcomma
  obtain ⟨o, -, rfl⟩ := List.mem_map.mp hw
  exact (isPlain_iff.mp (o.isPlain_of_mem hcomma)).2.2.1 rfl

theorem expandGroup_plain (hbefore : '[' ∉ before.toList) (hleft : before.length ≤ left) (done : Nat) :
    expandGroup rounds limit done left before expanded = .ok (expanded.map (· ++ before)) := by
  by_cases hempty : before = ""
  · have hdone : expandGroup rounds limit done left before expanded = .ok expanded := by
      cases left <;> rw [expandGroup, if_pos hempty]
    rw [hdone, hempty]
    simp
  · obtain ⟨left, rfl⟩ : ∃ n, left = n + 1 := by
      apply Nat.exists_eq_succ_of_ne_zero
      rintro rfl
      exact hempty (by simpa using hleft)
    rw [expandGroup, if_neg hempty, cut_of_notMem hbefore]

/-- A bracket extends the names, and the checks on the way fail only if the names
are too many in the end. -/
theorem partly_bracket {first : BracketOption} {rest : List BracketOption} {ps : List Piece}
    {prior : List String} {after : List String → Except Stop (List String)} (hne : expanded ≠ [])
    (hprior : prior.length ≤ limit) (hr : limit ≤ rounds)
    (hafter : ∀ next, next ≠ [] →
      Partly limit (prior ++ extend next "" ps) (after next) (extend next "" ps)) :
    Partly limit (prior ++ extend expanded before (.bracket first rest :: ps))
      (do
        let values ← ((first :: rest).map BracketOption.text).mapM (optionNames rounds limit)
        let next ← (expanded.flatMap (fun base => values.flatten.map (base ++ before ++ ·))).foldlM
          (addName limit prior.length) []
        after next)
      (extend expanded before (.bracket first rest :: ps)) := by
  set names := (Piece.bracket first rest).names with hnames
  set next := expanded.flatMap (fun base => names.map (base ++ before ++ ·)) with hnext
  have hlonger : names.length ≤ next.length := by
    rw [hnext, length_flatMap_map]
    exact Nat.le_mul_of_pos_left _ (List.length_pos_iff.mpr hne)
  have hmore := length_le_extend next ps
  rw [extend_cons, ← hnames, ← hnext]
  obtain hvalues | ⟨⟨message, hvalues⟩, hmany⟩ := mapM_optionNames (first :: rest) hr
  · have hflatten : ((first :: rest).map BracketOption.names).flatten = names := rfl
    rw [hvalues, ok_bind, hflatten, ← hnext, foldlM_addName (by simpa using hprior), List.nil_append]
    by_cases hfit : (prior ++ next).length ≤ limit
    · rw [if_pos hfit, ok_bind]
      apply hafter
      rw [← List.length_pos_iff]
      have hpos : 0 < names.length :=
        List.length_pos_iff.mpr (Piece.bracket first rest).names_ne_nil
      omega
    · rw [if_neg hfit]
      refine .inr ⟨⟨_, rfl⟩, ?_⟩
      rw [List.length_append] at hfit ⊢
      omega
  · rw [hvalues]
    refine .inr ⟨⟨message, rfl⟩, ?_⟩
    rw [List.length_append]
    have hmany' : limit < names.length := hmany
    omega

theorem expandGroup_text (ps : List Piece) {prior : List String} (hbefore : '[' ∉ before.toList)
    (hne : expanded ≠ []) (hprior : prior.length ≤ limit) (hr : limit ≤ rounds)
    (hleft : (before ++ piecesText ps).length ≤ left) :
    Partly limit (prior ++ extend expanded before ps)
      (expandGroup rounds limit prior.length left (before ++ piecesText ps) expanded)
      (extend expanded before ps) := by
  induction ps generalizing before expanded left with
  | nil =>
    left
    rw [piecesText, String.append_empty] at hleft ⊢
    rw [expandGroup_plain hbefore hleft]
    simp [extend, productNames, List.map_eq_flatMap]
  | cons p ps ih =>
    cases p with
    | literal l =>
      have hopen : '[' ∉ (before ++ l.text).toList := by
        rw [String.toList_append, List.mem_append, not_or]
        refine ⟨hbefore, fun hmem => ?_⟩
        exact (isPlain_iff.mp (l.isPlain_of_mem hmem)).1 rfl
      rw [piecesText, Piece.text, ← String.append_assoc] at hleft ⊢
      rw [extend_literal]
      exact ih hopen hne hleft
    | bracket first rest =>
      have hclose : ']' ∉ (optionsText (first :: rest)).toList :=
        fun hmem => (optionsText_bracket hmem).2 rfl
      rw [piecesText, Piece.text] at hleft ⊢
      simp only [String.length_append] at hleft
      obtain ⟨left, rfl⟩ : ∃ n, left = n + 1 :=
        Nat.exists_eq_succ_of_ne_zero (by have : "[".length = 1 := rfl; omega)
      rw [expandGroup_bracket hbefore hclose, split_optionsText]
      apply partly_bracket hne hprior hr
      intro next hnext
      have hrest : Partly limit (prior ++ extend next "" ps)
          (expandGroup rounds limit prior.length left ("" ++ piecesText ps) next)
          (extend next "" ps) := by
        apply ih (by simp) hnext
        rw [String.empty_append]
        have : "[".length = 1 := rfl
        omega
      rwa [String.empty_append] at hrest

end Expansion

def Returns (value : String) (limit : Int) (names : List String) : Prop :=
  ∃ enough, ∀ rounds, enough ≤ rounds → expandHostlist rounds value limit = .ok names

def Fails (value : String) (limit : Int) : Prop :=
  ∃ enough, ∀ rounds, enough ≤ rounds →
    ∃ message, expandHostlist rounds value limit = .error (.failed message)

section Hostlists

variable {rounds limit : Nat} {prior : List String}

def Limited (limit : Nat) (names : List String) (r : Except Stop (List String)) : Prop :=
  (names.length ≤ limit → r = .ok names) ∧
    (limit < names.length → ∃ message, r = .error (.failed message))

theorem names_eq_extend (g : Group) : g.names = extend [""] "" (g.first :: g.rest) := by
  simp [Group.names, extend]

theorem addGroup_text (g : Group) (hprior : prior.length ≤ limit) (hr : limit ≤ rounds)
    (hlength : g.text.length ≤ rounds) :
    Limited limit (prior ++ g.names) (addGroup rounds limit prior g.text) := by
  have hgroup : Partly limit (prior ++ extend [""] "" (g.first :: g.rest))
      (expandGroup rounds limit prior.length rounds ("" ++ piecesText (g.first :: g.rest)) [""])
      (extend [""] "" (g.first :: g.rest)) :=
    expandGroup_text _ (by simp) (by simp) hprior hr (by rwa [String.empty_append])
  rw [String.empty_append, ← names_eq_extend] at hgroup
  rw [addGroup, Limited]
  obtain hok | ⟨⟨message, herror⟩, hmany⟩ := hgroup
  · rw [Group.text, hok, ok_bind]
    refine ⟨fun hfit => ?_, fun hmany => ?_⟩
    · rw [refuse, if_neg (by omega), ok_bind]
      rfl
    · rw [refuse, if_pos (by omega)]
      exact ⟨_, rfl⟩
  · rw [Group.text, herror]
    exact ⟨fun hfit => by omega, fun _ => ⟨message, rfl⟩⟩

theorem foldlM_addGroup (items : List (Group × String)) (hprior : prior.length ≤ limit)
    (hr : limit ≤ rounds) (hlength : ∀ p ∈ items, p.1.text.length ≤ rounds) :
    Limited limit (prior ++ items.flatMap (fun p => p.1.names))
      ((items.map (fun p => p.1.text)).foldlM (addGroup rounds limit) prior) := by
  induction items generalizing prior with
  | nil =>
    rw [List.flatMap_nil, List.append_nil]
    exact ⟨fun _ => rfl, fun hmany => by omega⟩
  | cons p items ih =>
    rw [List.forall_mem_cons] at hlength
    obtain ⟨hok, herror⟩ := addGroup_text p.1 hprior hr hlength.1
    rw [List.map_cons, List.foldlM_cons, List.flatMap_cons, ← List.append_assoc]
    by_cases hfit : (prior ++ p.1.names).length ≤ limit
    · rw [hok hfit, ok_bind]
      exact ih hfit hlength.2
    · obtain ⟨message, herror⟩ := herror (by omega)
      rw [herror]
      refine ⟨fun hall => ?_, fun _ => ⟨message, rfl⟩⟩
      rw [List.length_append] at hall
      omega

theorem expandHostlist_text (h : WellFormed) (hr : limit ≤ rounds)
    (hlength : ∀ p ∈ h.groups, p.1.text.length ≤ rounds) :
    Limited limit h.names (expandHostlist rounds h.text limit) := by
  rw [expandHostlist, splitHostlist_text, ok_bind]
  exact @foldlM_addGroup rounds limit [] h.groups (Nat.zero_le _) hr hlength

/-- A well-formed hostlist expands to what it stands for. -/
theorem expands_to_names (h : WellFormed) (limit : Nat) :
    (h.names.length ≤ limit → Returns h.text limit h.names) ∧
      (limit < h.names.length → Fails h.text limit) := by
  have hlimited : ∀ rounds, limit + (h.groups.map (fun p => p.1.text.length)).sum ≤ rounds →
      Limited limit h.names (expandHostlist rounds h.text limit) := by
    intro rounds hrounds
    apply expandHostlist_text h (by omega)
    intro p hp
    have hle := List.single_le_sum (l := h.groups.map (fun p => p.1.text.length))
      (fun _ _ => Nat.zero_le _) _ (List.mem_map_of_mem hp)
    omega
  exact ⟨fun hfit => ⟨_, fun rounds hrounds => (hlimited rounds hrounds).1 hfit⟩,
    fun hmany => ⟨_, fun rounds hrounds => (hlimited rounds hrounds).2 hmany⟩⟩

def rackRange : DigitRange where
  low := "1"
  high := "2"
  digits := by decide +kernel
  nonempty := by decide +kernel
  sameLength := by decide +kernel
  short := by decide +kernel
  ordered := by decide +kernel

def nodeRange : DigitRange where
  low := "01"
  high := "02"
  digits := by decide +kernel
  nonempty := by decide +kernel
  sameLength := by decide +kernel
  short := by decide +kernel
  ordered := by decide +kernel

def lastNode : Literal := ⟨"04", by decide, by decide +kernel⟩

theorem dash_notMem_lastNode : '-' ∉ lastNode.text.toList := by decide +kernel

def rackGroup : Group where
  first := .literal ⟨"rack", by decide, by decide +kernel⟩
  rest := [.bracket (.range rackRange) [], .literal ⟨"node", by decide, by decide +kernel⟩,
    .bracket (.range nodeRange) [.literal lastNode dash_notMem_lastNode]]

def plainGroup : Group := ⟨.literal ⟨"plain", by decide, by decide +kernel⟩, []⟩

def rackHosts : WellFormed where
  leading := ""
  groups := [(rackGroup, ","), (plainGroup, "")]
  separators := by simp [isSeparator]
  apart := by simp

theorem rackHosts_text : rackHosts.text = "rack[1-2]node[01-02,04],plain" := by decide +kernel

theorem rackHosts_names : rackHosts.names = ["rack1node01", "rack1node02", "rack1node04",
    "rack2node01", "rack2node02", "rack2node04", "plain"] := by decide +kernel

theorem expands_to_names_rackHosts :
    Returns "rack[1-2]node[01-02,04],plain" 10 ["rack1node01", "rack1node02", "rack1node04",
      "rack2node01", "rack2node02", "rack2node04", "plain"] ∧
    Fails "rack[1-2]node[01-02,04],plain" 6 := by
  rw [← rackHosts_text, ← rackHosts_names]
  exact ⟨(expands_to_names rackHosts 10).1 (by decide +kernel),
    (expands_to_names rackHosts 6).2 (by decide +kernel)⟩

example : expandHostlist 9 "rack[1-2]node[01-02,04],plain" 10 = .ok ["rack1node01", "rack1node02",
    "rack1node04", "rack2node01", "rack2node02", "rack2node04", "plain"] := by decide +kernel

end Hostlists

end HeteroCluster.HostlistNames
