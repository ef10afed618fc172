import HeteroCluster.HostlistNames

namespace HeteroCluster.HostlistRanges

open FailFast GoStrings Hostlist HostlistBounds HostlistGrammar HostlistNames

/-- A text that stands for itself at the beginning of a group. -/
def heads (p : String) : Bool :=
  p.toList.all (fun c => c != '[' && c != ']' && !isSeparator c) && !p.toList.head?.any isSpace

section Scanning

variable {p value option : String} {s s' : Scan} {x : List Char} {c : Char}

/-- What the loop over the characters knows of a text it has gone through. -/
structure Scanned (x : List Char) (s : Scan) : Prop where
  depth : s.depth = x.count '[' - x.count ']'
  nonneg : 0 ≤ s.depth
  group : s.group <:+ x
  inside : '[' ∉ x → ∀ c ∈ s.group, isSeparator c = false

theorem Scanned.scanChar (h : Scanned x s) (hstep : scanChar value s c = .ok s') :
    Scanned (x ++ [c]) s' := by
  have hdepth := h.depth
  have hnonneg := h.nonneg
  have hadd : s.group ++ [c] <:+ x ++ [c] := List.suffix_append_self_iff.mpr h.group
  unfold Hostlist.scanChar at hstep
  split at hstep
  next hopen =>
    obtain rfl := Except.ok.inj hstep
    subst hopen
    exact ⟨by simp [Scan.add, hdepth]; omega, by simp [Scan.add]; omega, hadd, by simp⟩
  next hopen =>
    have hinside : ∀ depth, (isSeparator c = true → '[' ∈ x) → '[' ∉ x ++ [c] →
        ∀ d ∈ (s.add depth c).group, isSeparator d = false := by
      intro depth hc hx d hd
      simp only [List.mem_append, List.mem_singleton, not_or] at hx
      simp only [Scan.add, List.mem_append, List.mem_singleton] at hd
      obtain hd | rfl := hd
      · exact h.inside hx.1 d hd
      · exact Bool.eq_false_iff.mpr (fun hsep => hx.1 (hc hsep))
    split at hstep
    next hclose =>
      split at hstep
      · cases hstep
      · obtain rfl := Except.ok.inj hstep
        subst hclose
        refine ⟨by simp [Scan.add, hdepth]; omega, by simp [Scan.add]; omega, hadd, hinside _ ?_⟩
        simp [isSeparator]
    next hclose =>
      have hcount : (x ++ [c]).count '[' = x.count '[' ∧ (x ++ [c]).count ']' = x.count ']' := by
        simp [hopen, hclose]
      split at hstep
      · obtain rfl := Except.ok.inj hstep
        exact ⟨by simp [Scan.endGroup, hdepth, hcount], hnonneg, by simp [Scan.endGroup],
          by simp [Scan.endGroup]⟩
      next hsep =>
        obtain rfl := Except.ok.inj hstep
        refine ⟨by simp [Scan.add, hdepth, hcount], hnonneg, hadd, hinside _ ?_⟩
        -- a separator is only taken at a depth that a bracket has opened
        intro hc
        by_contra hx
        have hzero := List.count_eq_zero.mpr hx
        apply hsep
        refine ⟨by simpa [isSeparator, or_assoc] using hc, by omega⟩

theorem scanned (h : x.foldlM (scanChar value) ⟨0, [], []⟩ = .ok s) : Scanned x s := by
  apply foldlM_invariant Scanned h
  · exact ⟨by simp, le_rfl, List.suffix_rfl, by simp⟩
  · intro done c s s' _ hs hstep
    exact hs.scanChar hstep

/-- A part of a balanced text that reaches to its end closes what it opens. -/
theorem count_open_le {y : List Char} (h : x.foldlM (scanChar value) ⟨0, [], []⟩ = .ok s)
    (hdepth : s.depth = 0) (hy : y <:+ x) : y.count '[' ≤ y.count ']' := by
  have hall := (scanned h).depth
  obtain ⟨z, rfl⟩ := hy
  rw [List.foldlM_append, bind_eq_ok] at h
  obtain ⟨t, ht, -⟩ := h
  have hz := (scanned ht).depth
  have hnonneg := (scanned ht).nonneg
  rw [List.count_append, List.count_append] at hall
  omega

theorem trimSpace_bracket (group : List Char) (inner : String) :
    trimSpace (String.ofList (group ++ ("[" ++ inner ++ "]").toList)) =
      String.ofList (group.dropWhile isSpace) ++ ("[" ++ inner ++ "]") := by
  have hlist : ("[" ++ inner ++ "]").toList = '[' :: (inner.toList ++ [']']) := by simp
  have hleft : (group ++ '[' :: (inner.toList ++ [']'])).dropWhile isSpace =
      group.dropWhile isSpace ++ '[' :: (inner.toList ++ [']']) := by
    rw [List.dropWhile_append, List.dropWhile_cons_of_neg (by decide)]
    split
    next hempty => rw [List.isEmpty_iff.mp hempty, List.nil_append]
    · rfl
  have hright : (group.dropWhile isSpace ++ '[' :: (inner.toList ++ [']'])).reverse.dropWhile isSpace =
      (group.dropWhile isSpace ++ '[' :: (inner.toList ++ [']'])).reverse := by
    rw [← List.cons_append, ← List.append_assoc, List.reverse_append, List.reverse_singleton,
      List.singleton_append, List.dropWhile_cons_of_neg (by decide)]
  apply String.toList_injective
  rw [trimSpace, String.toList_ofList, String.toList_ofList, hlist, hleft, hright, List.reverse_reverse,
    String.toList_append, String.toList_ofList, hlist]

theorem splitHostlist_option (ho : ∀ c ∈ option.toList, isPlain c = true) {groups : List String} :
    splitHostlist (p ++ ("[" ++ option ++ "]")) = .ok groups ↔
      ∃ s, p.toList.foldlM (scanChar (p ++ ("[" ++ option ++ "]"))) ⟨0, [], []⟩ = .ok s ∧ s.depth = 0 ∧
        groups = s.groups ++ [String.ofList (s.group.dropWhile isSpace) ++ ("[" ++ option ++ "]")] := by
  have hbracket : ∀ c ∈ option.toList, c ≠ '[' ∧ c ≠ ']' := by
    intro c hc
    exact ⟨(isPlain_iff.mp (ho c hc)).1, (isPlain_iff.mp (ho c hc)).2.1⟩
  rw [splitHostlist, String.toList_append, List.foldlM_append, bind_assoc, bind_eq_ok]
  refine exists_congr fun s => and_congr_right fun hs => ?_
  have hne : String.ofList (s.group.dropWhile isSpace) ++ ("[" ++ option ++ "]") ≠ "" := by
    simp [String.append_eq_empty_iff]
  rw [foldlM_bracket hbracket (scanned hs).nonneg, ok_bind, Scan.endGroup]
  dsimp only
  rw [trimSpace_bracket, if_neg hne]
  simp only [bind_eq_ok, exists_unit, refuse_eq_ok, pure_eq_ok, not_not]
  exact and_congr_right fun _ => eq_comm

theorem foldlM_heads (hp : heads p = true) :
    p.toList.foldlM (scanChar value) ⟨0, [], []⟩ = .ok ⟨0, p.toList, []⟩ ∧
      p.toList.dropWhile isSpace = p.toList := by
  rw [heads, Bool.and_eq_true, List.all_eq_true] at hp
  refine ⟨foldlM_inside (fun c hc => ?_) [] [], ?_⟩
  · have hplain := hp.1 c hc
    simp only [Bool.and_eq_true, bne_iff_ne, Bool.not_eq_true'] at hplain
    exact ⟨hplain.1.1, hplain.1.2, fun _ => hplain.2⟩
  · cases hl : p.toList with
    | nil => rfl
    | cons c l =>
      have hspace : isSpace c = false := by simpa [hl] using hp.2
      rw [List.dropWhile_cons_of_neg (by simp [hspace])]

theorem heads_of_group (h : p.toList.foldlM (scanChar value) ⟨0, [], []⟩ = .ok s) (hdepth : s.depth = 0)
    (hgroup : s.group.dropWhile isSpace = p.toList) (hopen : '[' ∉ p.toList) : heads p = true := by
  have hs := scanned h
  have hwhole : s.group = p.toList := by
    apply hs.group.eq_of_length_le
    rw [← hgroup]
    exact (List.dropWhile_suffix _).length_le
  have hclose : ']' ∉ p.toList := by
    have hcount := hs.depth
    rw [List.count_eq_zero.mpr hopen, hdepth] at hcount
    exact List.count_eq_zero.mp (by omega)
  rw [heads, Bool.and_eq_true, List.all_eq_true]
  refine ⟨fun c hc => ?_, ?_⟩
  · have hsep := hs.inside hopen c (by rwa [hwhole])
    simp only [Bool.and_eq_true, bne_iff_ne, hsep, Bool.not_false, and_true]
    exact ⟨fun he => hopen (he ▸ hc), fun he => hclose (he ▸ hc)⟩
  · rw [hwhole] at hgroup
    cases hl : p.toList with
    | nil => rfl
    | cons c l =>
      rw [hl] at hgroup
      by_contra hspace
      have hspace' : isSpace c = true := by simpa using hspace
      rw [List.dropWhile_cons_of_pos hspace'] at hgroup
      have hshort := (List.dropWhile_suffix isSpace (l := l)).length_le
      rw [hgroup, List.length_cons] at hshort
      omega

end Scanning

section Opens

variable {rounds limit left done : Nat} {group option inner : String}
variable {expanded names values : List String}

def opens (s : String) : Nat := s.toList.count '['

theorem opens_append (a b : String) : opens (a ++ b) = opens a + opens b := by
  rw [opens, String.toList_append, List.count_append, opens, opens]

theorem opens_eq_zero {s : String} : opens s = 0 ↔ '[' ∉ s.toList := List.count_eq_zero

theorem opens_split {s w : String} {sep : Char} (h : w ∈ split s sep) : opens w ≤ opens s :=
  (sublist_of_mem_split h).count_le '['

theorem opens_padded (width : Nat) (number : Int) : opens (padded width number) = 0 := by
  have hdigits : '[' ∉ Nat.toDigits 10 number.natAbs := by
    intro h
    have hdigit := Nat.isDigit_of_mem_toDigits (by decide) le_rfl h
    simp at hdigit
  have hsign : '[' ∉ if number < 0 then ['-'] else [] := by
    split <;> simp
  rw [opens_eq_zero, padded]
  split
  · simp [hdigits, hsign]
  · simp [hdigits, hsign, List.mem_replicate]

theorem countUp_opens {width : Nat} {last number : Int} {name : String}
    (h : name ∈ (countUp width last rounds number).1) : opens name = 0 := by
  induction rounds generalizing number with
  | zero => simp [countUp] at h
  | succ rounds ih =>
    rw [countUp] at h
    split at h
    · obtain rfl | h := List.mem_cons.mp h
      · exact opens_padded _ _
      · exact ih h
    · simp at h

theorem countUp_ne_nil {width : Nat} {last number : Int} (hle : number ≤ last)
    (h : (countUp width last rounds number).2 = true) : (countUp width last rounds number).1 ≠ [] := by
  cases rounds with
  | zero =>
    rw [countUp, decide_eq_true_eq] at h
    omega
  | succ rounds =>
    rw [countUp, if_pos hle]
    simp

theorem optionNames_opens (h : optionNames rounds limit option = .ok values) :
    values ≠ [] ∧ ∀ v ∈ values, opens v ≤ opens option := by
  unfold optionNames at h
  split at h
  next name hsplit =>
    split at h
    · obtain rfl := Except.ok.inj h
      refine ⟨by simp, ?_⟩
      rw [List.forall_mem_singleton]
      exact opens_split (by rw [hsplit]; simp)
    · cases h
  next low high hsplit =>
    cases hparse : parseRange limit low high with
    | none => simp [hparse] at h
    | some r =>
      rw [hparse] at h
      dsimp only at h
      split at h
      next hend =>
        obtain rfl := Except.ok.inj h
        obtain ⟨-, -, -, hle, -⟩ := parseRange_spec hparse
        refine ⟨countUp_ne_nil hle hend, fun v hv => ?_⟩
        rw [countUp_opens hv]
        exact Nat.zero_le _
      · cases h
  · cases h

theorem foldlM_addName_eq {next result : List String}
    (h : names.foldlM (addName limit done) next = .ok result) : result = next ++ names := by
  apply foldlM_invariant (fun taken r => r = next ++ taken) h (by simp)
  intro taken name r r' _ hr hstep
  unfold addName at hstep
  split at hstep
  · cases hstep
  · obtain rfl := Except.ok.inj hstep
    rw [hr, List.append_assoc]

theorem mapM_opens {rest : List (List String)}
    (h : (split inner ',').mapM (optionNames rounds limit) = .ok rest) :
    rest.flatten ≠ [] ∧ ∀ v ∈ rest.flatten, opens v ≤ opens inner := by
  constructor
  · have hlength := congrArg List.length (mapM_eq_ok.mp h)
    have hsplit : (split inner ',').length ≠ 0 := by
      simp [split, List.splitOn_ne_nil]
    rw [List.length_map, List.length_map] at hlength
    obtain ⟨values, hvalues⟩ := List.exists_mem_of_length_pos (l := rest) (by omega)
    obtain ⟨option, -, hoption⟩ := of_mem_mapM h hvalues
    obtain ⟨v, hv⟩ := List.exists_mem_of_ne_nil _ (optionNames_opens hoption).1
    exact List.ne_nil_of_mem (List.mem_flatten_of_mem hvalues hv)
  · intro v hv
    obtain ⟨values, hvalues, hv⟩ := List.mem_flatten.mp hv
    obtain ⟨option, hmem, hoption⟩ := of_mem_mapM h hvalues
    exact ((optionNames_opens hoption).2 v hv).trans (opens_split hmem)

/-- One round of the loop over a group: the names lose what opened the bracket. -/
theorem bracket_opens {before : String} {rest : List (List String)} {next : List String}
    (hbefore : '[' ∉ before.toList)
    (hrest : (split inner ',').mapM (optionNames rounds limit) = .ok rest)
    (h : (expanded.flatMap (fun base => rest.flatten.map (base ++ before ++ ·))).foldlM
      (addName limit done) [] = .ok next) :
    (expanded ≠ [] → next ≠ []) ∧
      ∀ name ∈ next, ∃ base ∈ expanded, opens name ≤ opens base + opens inner := by
  obtain ⟨hne, hopens⟩ := mapM_opens hrest
  obtain rfl := foldlM_addName_eq h
  rw [List.nil_append]
  constructor
  · intro hexpanded
    obtain ⟨base, hbase⟩ := List.exists_mem_of_ne_nil _ hexpanded
    obtain ⟨v, hv⟩ := List.exists_mem_of_ne_nil _ hne
    exact List.ne_nil_of_mem (List.mem_flatMap.mpr ⟨base, hbase, List.mem_map_of_mem hv⟩)
  · intro name hname
    obtain ⟨base, hbase, hname⟩ := List.mem_flatMap.mp hname
    obtain ⟨v, hv, rfl⟩ := List.mem_map.mp hname
    have hv := hopens v hv
    refine ⟨base, hbase, ?_⟩
    rw [opens_append, opens_append, opens_eq_zero.mpr hbefore]
    omega

/-- The loop over a group ends with a text that has no bracket, or goes on behind
one. -/
theorem expandGroup_ok (h : expandGroup rounds limit done left group expanded = .ok names) :
    ('[' ∉ group.toList ∧ names = expanded.map (· ++ group)) ∨
      ∃ before inner after rest next fewer, left = fewer + 1 ∧ '[' ∉ before.toList ∧
        group = before ++ ("[" ++ inner ++ "]" ++ after) ∧
        (split inner ',').mapM (optionNames rounds limit) = .ok rest ∧
        (expanded.flatMap (fun base => rest.flatten.map (base ++ before ++ ·))).foldlM
          (addName limit done) [] = .ok next ∧
        expandGroup rounds limit done fewer after next = .ok names := by
  by_cases hopen : '[' ∈ group.toList
  · right
    have hne : group ≠ "" := by
      rintro rfl
      simp at hopen
    obtain ⟨before, opened, hcut, -⟩ := cut_of_mem group '[' hopen
    obtain ⟨hgroup, hbefore⟩ := cut_spec hcut
    cases left with
    | zero =>
      rw [expandGroup, if_neg hne] at h
      cases h
    | succ fewer =>
      rw [expandGroup, if_neg hne, hcut] at h
      dsimp only at h
      split at h
      · cases h
      next inner after hclose =>
        simp only [addBracket, bind_eq_ok] at h
        obtain ⟨next, ⟨rest, hrest, hnext⟩, h⟩ := h
        refine ⟨before, inner, after, rest, next, fewer, rfl, hbefore, ?_, hrest, hnext, h⟩
        rw [hgroup, (cut_spec hclose).1]
        apply String.toList_injective
        simp
  · left
    refine ⟨hopen, ?_⟩
    by_cases hempty : group = ""
    · subst hempty
      have hdone : expandGroup rounds limit done left "" expanded = .ok expanded := by
        cases left <;> rw [expandGroup, if_pos rfl]
      obtain rfl := Except.ok.inj (hdone.symm.trans h)
      simp
    · cases left with
      | zero =>
        rw [expandGroup, if_neg hempty] at h
        cases h
      | succ fewer =>
        rw [expandGroup, if_neg hempty, cut_of_notMem hopen] at h
        exact (Except.ok.inj h).symm

theorem expandGroup_opens (h : expandGroup rounds limit done left group expanded = .ok names) :
    (expanded ≠ [] → names ≠ []) ∧ ∀ name ∈ names, ∃ base ∈ expanded,
      opens name + min 1 (opens group) ≤ opens base + opens group := by
  induction left using Nat.strong_induction_on generalizing group expanded with
  | h left ih =>
    obtain ⟨hopen, rfl⟩ | ⟨before, inner, after, rest, next, fewer, rfl, hbefore, rfl, hrest, hnext, h⟩ :=
      expandGroup_ok h
    · refine ⟨by simp, fun name hname => ?_⟩
      obtain ⟨base, hbase, rfl⟩ := List.mem_map.mp hname
      refine ⟨base, hbase, ?_⟩
      rw [opens_append, opens_eq_zero.mpr hopen, Nat.min_zero]
    · obtain ⟨hnil, hfrom⟩ := bracket_opens hbefore hrest hnext
      obtain ⟨hnil', hfrom'⟩ := ih fewer (Nat.lt_succ_self _) h
      refine ⟨fun hexpanded => hnil' (hnil hexpanded), fun name hname => ?_⟩
      obtain ⟨base', hbase', hle'⟩ := hfrom' name hname
      obtain ⟨base, hbase, hle⟩ := hfrom base' hbase'
      refine ⟨base, hbase, ?_⟩
      have hcount : opens (before ++ ("[" ++ inner ++ "]" ++ after)) =
          1 + opens inner + opens after := by
        simp only [opens_append, opens_eq_zero.mpr hbefore]
        simp [opens]
      omega

theorem opens_lost {w : List Char} (hw : '[' ∈ w) (hclosed : ∀ y, y <:+ w → y.count '[' ≤ y.count ']')
    (ho : '[' ∉ option.toList)
    (h : expandGroup rounds limit done left (String.ofList w ++ ("[" ++ option ++ "]")) [""] =
      .ok names) :
    ∀ name ∈ names, opens name < w.count '[' := by
  intro name hname
  obtain ⟨before, r, rfl, hbefore⟩ := List.eq_append_cons_of_mem hw
  have hmem : ']' ∈ r := by
    have hle := hclosed ('[' :: r) (List.suffix_append _ _)
    rw [List.count_cons_self, List.count_cons_of_ne (by decide)] at hle
    exact List.one_le_count_iff.mp (by omega)
  obtain ⟨inner, after, rfl, hinner⟩ := List.eq_append_cons_of_mem hmem
  have hgroup : String.ofList (before ++ '[' :: (inner ++ ']' :: after)) ++ ("[" ++ option ++ "]") =
      String.ofList before ++ ("[" ++ String.ofList inner ++ "]" ++
        (String.ofList after ++ ("[" ++ option ++ "]"))) := by
    apply String.toList_injective
    simp
  cases left with
  | zero =>
    rw [expandGroup, if_neg (by simp [String.append_eq_empty_iff])] at h
    cases h
  | succ left =>
    rw [hgroup, expandGroup_bracket (by simpa using hbefore) (by simpa using hinner)] at h
    simp only [bind_eq_ok] at h
    obtain ⟨rest, hrest, next, hnext, h⟩ := h
    obtain ⟨base', hbase', hle'⟩ := (expandGroup_opens h).2 name hname
    obtain ⟨base, hbase, hle⟩ := (bracket_opens (by simpa using hbefore) hrest hnext).2 base' hbase'
    obtain rfl := List.mem_singleton.mp hbase
    have hafter : opens (String.ofList after ++ ("[" ++ option ++ "]")) = after.count '[' + 1 := by
      simp only [opens_append, opens_eq_zero.mpr ho]
      simp [opens]
    have hinner' : opens (String.ofList inner) = inner.count '[' := by simp [opens]
    have hempty : opens "" = 0 := rfl
    have hcount : (before ++ '[' :: (inner ++ ']' :: after)).count '[' =
        1 + inner.count '[' + after.count '[' := by
      simp [List.count_eq_zero.mpr hbefore]
      omega
    omega

end Opens

section Unpadded

variable {rounds limit a b : Nat} {p option : String}

def dec (n : Nat) : String := String.ofList (Nat.toDigits 10 n)

theorem numeral_dec (n : Nat) : numeral (dec n) = n := by
  rw [numeral, dec, String.toList_ofList, Nat.ofDigitChars_ten_toDigits]

theorem dec_digits (n : Nat) : dec n ≠ "" ∧ (dec n).toList.all Char.isDigit = true := by
  constructor
  · intro h
    have hlength := congrArg String.length h
    rw [dec, String.length_ofList, String.length_empty] at hlength
    have hpos : 0 < (Nat.toDigits 10 n).length := Nat.length_toDigits_pos
    omega
  · rw [dec, String.toList_ofList, List.all_eq_true]
    intro c hc
    exact Nat.isDigit_of_mem_toDigits (by decide) le_rfl hc

theorem length_dec_le (h : a ≤ b) : (dec a).length ≤ (dec b).length := by
  rw [dec, dec, String.length_ofList, String.length_ofList,
    Nat.length_toDigits_le_iff (by decide) Nat.length_toDigits_pos]
  exact lt_of_le_of_lt h
    ((Nat.length_toDigits_le_iff (by decide) Nat.length_toDigits_pos).mp le_rfl)

theorem length_dec_lt (h : b < maxInt) : (dec b).length < 20 := by
  unfold maxInt at h
  rw [Nat.lt_succ_iff, dec, String.length_ofList, Nat.length_toDigits_le_iff (by decide) (by decide)]
  omega

theorem zeroPadded_eq_dec {width n : Nat} : zeroPadded width n = dec n ↔ width ≤ (dec n).length := by
  rw [zeroPadded, dec, String.length_ofList]
  constructor
  · intro h
    have hlength := congrArg String.length h
    rw [String.length_ofList, String.length_ofList, List.length_append, List.length_replicate] at hlength
    omega
  · intro h
    rw [Nat.sub_eq_zero_of_le h, List.replicate_zero, List.nil_append]

theorem option_plain (a b : Nat) : ∀ c ∈ (dec a ++ "-" ++ dec b).toList, isPlain c = true := by
  intro c hc
  simp only [String.toList_append, List.mem_append] at hc
  obtain (hc | hc) | hc := hc
  · exact isPlain_of_isDigit (List.all_eq_true.mp (dec_digits a).2 c hc)
  · obtain rfl : c = '-' := by simpa using hc
    decide
  · exact isPlain_of_isDigit (List.all_eq_true.mp (dec_digits b).2 c hc)

theorem lt_maxInt_of_optionNames {values : List String}
    (h : optionNames rounds limit (dec a ++ "-" ++ dec b) = .ok values) : b < maxInt := by
  rw [optionNames, split_range (dec_digits a).2 (dec_digits b).2] at h
  dsimp only at h
  cases hparse : parseRange limit (dec a) (dec b) with
  | none => simp [hparse] at h
  | some r =>
    rw [hparse] at h
    obtain ⟨-, hlast, -, hle, -⟩ := parseRange_spec hparse
    have hrange := atoi_range hlast
    have hvalue : (b : Int) = r.last := by
      rw [atoi_digits (dec_digits b).1 (dec_digits b).2, Option.ite_none_right_eq_some] at hlast
      rw [← Option.some.inj hlast.2, ← numeral, numeral_dec]
    by_contra hb
    have hend : r.last = maxInt := by
      unfold maxInt at hb ⊢
      omega
    have hendless : (rangeNames rounds r).2 = false := by
      rw [rangeNames, hend]
      exact (countUp_endless (hend ▸ hle) rounds).2
    simp [hendless] at h

theorem optionNames_dec (hab : a ≤ b) (hb : b < maxInt) (hlimit : b - a < limit) (hr : limit ≤ rounds) :
    optionNames rounds limit (dec a ++ "-" ++ dec b) =
      .ok ((List.range' a (b + 1 - a)).map (zeroPadded (dec b).length)) := by
  have hwidth : max (dec a).length (dec b).length ≤ 1000000 := by
    rw [max_eq_right (length_dec_le hab)]
    have hlength := length_dec_lt hb
    omega
  have h := optionNames_digits (dec_digits a) (dec_digits b)
    (by rwa [numeral_dec, numeral_dec]) (by rwa [numeral_dec]) hwidth hr
  rwa [numeral_dec, numeral_dec, if_pos (by omega), max_eq_right (length_dec_le hab)] at h

theorem expandHostlist_option (ho : ∀ c ∈ option.toList, isPlain c = true) {names : List String} :
    expandHostlist rounds (p ++ ("[" ++ option ++ "]")) limit = .ok names ↔
      ∃ s prior expanded,
        p.toList.foldlM (scanChar (p ++ ("[" ++ option ++ "]"))) ⟨0, [], []⟩ = .ok s ∧ s.depth = 0 ∧
        s.groups.foldlM (addGroup rounds limit) [] = .ok prior ∧
        expandGroup rounds limit prior.length rounds
          (String.ofList (s.group.dropWhile isSpace) ++ ("[" ++ option ++ "]")) [""] = .ok expanded ∧
        prior ++ expanded = names ∧ names.length ≤ limit := by
  rw [expandHostlist, bind_eq_ok]
  constructor
  · rintro ⟨groups, hsplit, h⟩
    obtain ⟨s, hs, hdepth, rfl⟩ := (splitHostlist_option ho).mp hsplit
    rw [List.foldlM_append, bind_eq_ok] at h
    obtain ⟨prior, hprior, h⟩ := h
    simp only [List.foldlM_cons, List.foldlM_nil, bind_pure, addGroup, bind_eq_ok, exists_unit,
      refuse_eq_ok, pure_eq_ok, not_lt] at h
    obtain ⟨expanded, hexpanded, hle, rfl⟩ := h
    exact ⟨s, prior, expanded, hs, hdepth, hprior, hexpanded, rfl, by omega⟩
  · rintro ⟨s, prior, expanded, hs, hdepth, hprior, hexpanded, rfl, hle⟩
    refine ⟨_, (splitHostlist_option ho).mpr ⟨s, hs, hdepth, rfl⟩, ?_⟩
    rw [List.foldlM_append, hprior, ok_bind]
    simp only [List.foldlM_cons, List.foldlM_nil, bind_pure, addGroup, bind_eq_ok, exists_unit,
      refuse_eq_ok, pure_eq_ok, not_lt]
    exact ⟨expanded, hexpanded, by omega, rfl⟩

theorem expandGroup_option {before : String} {prior expanded : List String}
    (hbefore : '[' ∉ before.toList) (ho : ∀ c ∈ option.toList, isPlain c = true) (hr : 0 < rounds)
    (hprior : prior.length ≤ limit) :
    expandGroup rounds limit prior.length rounds (before ++ ("[" ++ option ++ "]")) [""] =
        .ok expanded ↔
      ∃ values, optionNames rounds limit option = .ok values ∧ (prior ++ values).length ≤ limit ∧
        expanded = values.map (before ++ ·) := by
  obtain ⟨left, rfl⟩ : ∃ n, rounds = n + 1 := Nat.exists_eq_succ_of_ne_zero hr.ne'
  have hgroup := @expandGroup_bracket (left + 1) limit left before option "" [""] hbefore
    (fun hc => (isPlain_iff.mp (ho _ hc)).2.1 rfl) prior.length
  have hcomma : split option ',' = [option] :=
    split_of_notMem (fun hc => (isPlain_iff.mp (ho _ hc)).2.2.1 rfl)
  have hdone : ∀ next, expandGroup (left + 1) limit prior.length left "" next = .ok next := by
    intro next
    rw [expandGroup_plain (by simp) (by simp)]
    simp
  rw [String.append_empty, hcomma] at hgroup
  rw [hgroup]
  simp only [List.mapM_cons, List.mapM_nil, bind_assoc, pure_bind, bind_eq_ok, List.flatten_singleton,
    List.flatMap_singleton, String.empty_append, hdone]
  refine exists_congr fun values => and_congr_right fun _ => ?_
  have hfold := @foldlM_addName limit (values.map (before ++ ·)) [] prior (by simpa using hprior)
  rw [List.nil_append, List.length_append, List.length_map] at hfold
  rw [hfold, List.length_append]
  by_cases hfit : prior.length + values.length ≤ limit
  · simpa [hfit] using eq_comm
  · simp [hfit]

theorem expandHostlist_heads (hp : heads p = true) (ho : ∀ c ∈ option.toList, isPlain c = true)
    (hr : 0 < rounds) {names : List String} :
    expandHostlist rounds (p ++ ("[" ++ option ++ "]")) limit = .ok names ↔
      ∃ values, optionNames rounds limit option = .ok values ∧ values.length ≤ limit ∧
        names = values.map (p ++ ·) := by
  obtain ⟨hscan, hdrop⟩ := @foldlM_heads p (p ++ ("[" ++ option ++ "]")) hp
  have hopen : '[' ∉ (String.ofList p.toList).toList := by
    rw [heads, Bool.and_eq_true, List.all_eq_true] at hp
    intro hc
    have hplain := hp.1 _ (by simpa using hc)
    simp at hplain
  have hgroup := @expandGroup_option rounds limit option (String.ofList p.toList) []
  rw [expandHostlist_option ho]
  constructor
  · rintro ⟨s, prior, expanded, hs, -, hprior, hexpanded, rfl, hle⟩
    obtain rfl := Except.ok.inj (hscan.symm.trans hs)
    obtain rfl := Except.ok.inj hprior
    rw [hdrop, hgroup hopen ho hr (Nat.zero_le _)] at hexpanded
    obtain ⟨values, hvalues, hfit, rfl⟩ := hexpanded
    rw [List.nil_append, String.ofList_toList]
    exact ⟨values, hvalues, hfit, rfl⟩
  · rintro ⟨values, hvalues, hfit, rfl⟩
    refine ⟨_, [], _, hscan, rfl, rfl, ?_, rfl, by simpa using hfit⟩
    rw [hdrop, hgroup hopen ho hr (Nat.zero_le _), String.ofList_toList]
    exact ⟨values, hvalues, hfit, rfl⟩

theorem length_zeroPadded {width n : Nat} (h : (dec n).length ≤ width) :
    (zeroPadded width n).length = width := by
  rw [dec, String.length_ofList] at h
  rw [zeroPadded, String.length_ofList, List.length_append, List.length_replicate]
  omega

/-- What stands before the bracket is only found again in the names if it stands
for itself. -/
theorem heads_of_names (hab : a ≤ b) (hlimit : b - a < limit) (hr : limit ≤ rounds)
    (h : expandHostlist rounds (p ++ ("[" ++ (dec a ++ "-" ++ dec b) ++ "]")) limit =
      .ok ((List.range' a (b + 1 - a)).map (fun n => p ++ dec n))) : heads p = true := by
  have ho := option_plain a b
  obtain ⟨s, prior, expanded, hs, hdepth, -, hgroup, hnames, hle⟩ := (expandHostlist_option ho).mp h
  have hsuffix : s.group.dropWhile isSpace <:+ p.toList :=
    (List.dropWhile_suffix _).trans (scanned hs).group
  have hlast : p ++ dec b ∈ expanded := by
    have hcount : b + 1 - a = (b - a) + 1 := by omega
    have hend : a + 1 * (b - a) = b := by omega
    have hne := (expandGroup_opens hgroup).1 (by simp)
    have hget := congrArg List.getLast? hnames
    rw [List.getLast?_append_of_ne_nil _ hne, hcount, List.range'_concat, hend, List.map_append,
      List.map_singleton, List.getLast?_concat] at hget
    exact List.mem_of_getLast? hget
  have hopen : '[' ∉ s.group.dropWhile isSpace := by
    intro hmem
    have hclosed : ∀ y, y <:+ s.group.dropWhile isSpace → y.count '[' ≤ y.count ']' :=
      fun y hy => count_open_le hs hdepth (hy.trans hsuffix)
    have hlost := opens_lost hmem hclosed (fun hc => (isPlain_iff.mp (ho _ hc)).1 rfl) hgroup _ hlast
    have hle := hsuffix.sublist.count_le '['
    rw [opens_append, opens] at hlost
    omega
  rw [expandGroup_option (by simpa using hopen) ho (by omega)
    (by rw [← hnames, List.length_append] at hle; omega)] at hgroup
  obtain ⟨values, hvalues, -, rfl⟩ := hgroup
  have hb := lt_maxInt_of_optionNames hvalues
  rw [optionNames_dec hab hb hlimit hr] at hvalues
  obtain rfl := Except.ok.inj hvalues
  obtain ⟨v, hv, hname⟩ := List.mem_map.mp hlast
  obtain ⟨n, hn, rfl⟩ := List.mem_map.mp hv
  have hlength := congrArg String.length hname
  rw [String.length_append, String.length_append,
    length_zeroPadded (length_dec_le (by have := List.mem_range'_1.mp hn; omega)),
    String.length_ofList] at hlength
  have hwhole : s.group.dropWhile isSpace = p.toList := by
    apply hsuffix.eq_of_length
    rw [String.length_toList]
    omega
  rw [hwhole] at hopen
  exact heads_of_group hs hdepth hwhole hopen

/-- A range of numbers without leading zeros is expanded to them exactly if the
text before it stands for itself, the bounds have the same length, and the loop
over the range ends. -/
theorem unpadded_range (p : String) (a b limit : Nat) (hab : a ≤ b) (hlimit : b - a < limit) :
    Returns (p ++ ("[" ++ (dec a ++ "-" ++ dec b) ++ "]")) limit
        ((List.range' a (b + 1 - a)).map (fun n => p ++ dec n)) ↔
      heads p = true ∧ (dec a).length = (dec b).length ∧ b < maxInt := by
  constructor
  · rintro ⟨enough, h⟩
    have hnames := h (enough + limit + 1) (by omega)
    have hp := heads_of_names hab hlimit (by omega) hnames
    rw [expandHostlist_heads hp (option_plain a b) (by omega)] at hnames
    obtain ⟨values, hvalues, -, hnames⟩ := hnames
    have hb := lt_maxInt_of_optionNames hvalues
    refine ⟨hp, le_antisymm (length_dec_le hab) ?_, hb⟩
    rw [optionNames_dec hab hb hlimit (by omega)] at hvalues
    obtain rfl := Except.ok.inj hvalues
    -- the lower bound is padded to the width of the upper one
    rw [List.map_map, List.map_inj_left] at hnames
    have hfirst := hnames a (by simp; omega)
    rw [Function.comp_apply, String.append_right_inj] at hfirst
    exact zeroPadded_eq_dec.mp hfirst.symm
  · rintro ⟨hp, hlength, hb⟩
    refine ⟨limit + 1, fun rounds hr => ?_⟩
    rw [expandHostlist_heads hp (option_plain a b) (by omega)]
    refine ⟨_, optionNames_dec hab hb hlimit (by omega), by simp; omega, ?_⟩
    rw [List.map_map, List.map_inj_left]
    intro n hn
    have hle : a ≤ n := (List.mem_range'_1.mp hn).1
    have hpadded : zeroPadded (dec b).length n = dec n := by
      rw [zeroPadded_eq_dec, ← hlength]
      exact length_dec_le hle
    rw [Function.comp_apply, hpadded]

theorem unpadded_range_ten : Returns "node[10-12]" 10 ["node10", "node11", "node12"] := by
  have hreturns := (unpadded_range "node" 10 12 10 (by decide) (by decide)).mpr (by decide +kernel)
  exact hreturns

/-- The node `n8` is not found under its name. -/
theorem padded_eight : ¬ Returns "n[8-12]" 10 ["n8", "n9", "n10", "n11", "n12"] ∧
    Returns "n[8-12]" 10 ["n08", "n09", "n10", "n11", "n12"] := by
  have hnames : ∀ rounds, 10 ≤ rounds →
      expandHostlist rounds "n[8-12]" 10 = .ok ["n08", "n09", "n10", "n11", "n12"] := by
    intro rounds hr
    have hplain : ∀ c ∈ "8-12".toList, isPlain c = true := by
      rw [← List.all_eq_true]
      decide +kernel
    refine (@expandHostlist_heads rounds 10 "n" "8-12" (by decide +kernel) hplain (by omega) _).mpr ?_
    exact ⟨_, optionNames_dec (a := 8) (b := 12) (by decide) (by decide) (by decide) hr,
      by decide +kernel, by decide +kernel⟩
  refine ⟨?_, 10, hnames⟩
  rintro ⟨enough, h⟩
  have hsame := (hnames (enough + 10) (by omega)).symm.trans (h (enough + 10) (by omega))
  exact absurd (Except.ok.inj hsame) (by decide +kernel)

end Unpadded

end HeteroCluster.HostlistRanges
