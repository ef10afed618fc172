import HeteroCluster.HostlistBounds

namespace HeteroCluster.HostlistGrammar

open DecimalText FailFast GoStrings Hostlist HostlistBounds

section Grammar

def isPlain (c : Char) : Bool := c != '[' && c != ']' && c != ',' && !isSpace c

def isSeparator (c : Char) : Bool := c == ',' || c == ' ' || c == '\t'

def numeral (digits : String) : Nat := Nat.ofDigitChars 10 digits.toList 0

structure Literal where
  text : String
  nonempty : text ≠ ""
  plain : text.toList.all isPlain = true

structure DigitRange where
  low : String
  high : String
  digits : low.toList.all Char.isDigit = true ∧ high.toList.all Char.isDigit = true
  nonempty : low ≠ ""
  sameLength : low.length = high.length
  short : low.length ≤ 18
  ordered : numeral low ≤ numeral high

inductive BracketOption where
  | literal (l : Literal) (dashFree : '-' ∉ l.text.toList)
  | range (r : DigitRange)

inductive Piece where
  | literal (l : Literal)
  | bracket (first : BracketOption) (rest : List BracketOption)

structure Group where
  first : Piece
  rest : List Piece

structure WellFormed where
  leading : String
  groups : List (Group × String)
  separators : leading.toList.all isSeparator = true ∧
    ∀ p ∈ groups, p.2.toList.all isSeparator = true
  apart : ∀ p ∈ groups.dropLast, p.2 ≠ ""

def BracketOption.text : BracketOption → String
  | .literal l _ => l.text
  | .range r => r.low ++ "-" ++ r.high

def optionsText (options : List BracketOption) : String :=
  ",".intercalate (options.map BracketOption.text)

def Piece.text : Piece → String
  | .literal l => l.text
  | .bracket first rest => "[" ++ optionsText (first :: rest) ++ "]"

def piecesText : List Piece → String
  | [] => ""
  | p :: ps => p.text ++ piecesText ps

def Group.text (g : Group) : String := piecesText (g.first :: g.rest)

def groupsText : List (Group × String) → String
  | [] => ""
  | p :: ps => p.1.text ++ p.2 ++ groupsText ps

def WellFormed.text (h : WellFormed) : String := h.leading ++ groupsText h.groups

end Grammar

section Denotation

def zeroPadded (width number : Nat) : String :=
  let digits := Nat.toDigits 10 number
  String.ofList (List.replicate (width - digits.length) '0' ++ digits)

def DigitRange.names (r : DigitRange) : List String :=
  (List.range' (numeral r.low) (numeral r.high + 1 - numeral r.low)).map (zeroPadded r.low.length)

def BracketOption.names : BracketOption → List String
  | .literal l _ => [l.text]
  | .range r => r.names

def Piece.names : Piece → List String
  | .literal l => [l.text]
  | .bracket first rest => (first :: rest).flatMap BracketOption.names

/-- Every choice of a name for each piece, the first piece varying slowest. -/
def productNames : List Piece → List String
  | [] => [""]
  | p :: ps => p.names.flatMap (fun a => (productNames ps).map (a ++ ·))

def Group.names (g : Group) : List String := productNames (g.first :: g.rest)

def WellFormed.names (h : WellFormed) : List String := h.groups.flatMap (fun p => p.1.names)

theorem DigitRange.numeral_high_lt (r : DigitRange) : (numeral r.high : Int) < maxInt := by
  have hlt : numeral r.high < 10 ^ r.high.toList.length := ofDigitChars_lt r.digits.2
  have hpow : 10 ^ r.high.toList.length ≤ 10 ^ 18 := by
    apply Nat.pow_le_pow_right (by decide)
    rw [String.length_toList, ← r.sameLength]
    exact r.short
  unfold maxInt
  omega

theorem DigitRange.width_le (r : DigitRange) : max r.low.length r.high.length ≤ 1000000 := by
  have hshort := r.short
  rw [← r.sameLength, max_self]
  omega

theorem DigitRange.high_ne_empty (r : DigitRange) : r.high ≠ "" := by
  intro h
  have hlength := r.sameLength
  rw [h, String.length_empty, String.length_eq_zero_iff] at hlength
  exact r.nonempty hlength

theorem BracketOption.names_ne_nil (o : BracketOption) : o.names ≠ [] := by
  cases o with
  | literal l _ => simp [BracketOption.names]
  | range r =>
    have hle := r.ordered
    have hpos : numeral r.high + 1 - numeral r.low ≠ 0 := by omega
    simp [BracketOption.names, DigitRange.names, hpos]

theorem Piece.names_ne_nil (p : Piece) : p.names ≠ [] := by
  cases p with
  | literal l => simp [Piece.names]
  | bracket first rest => simp [Piece.names, first.names_ne_nil]

theorem productNames_ne_nil (ps : List Piece) : productNames ps ≠ [] := by
  induction ps with
  | nil => simp [productNames]
  | cons p ps ih =>
    obtain ⟨a, ha⟩ := List.exists_mem_of_ne_nil _ p.names_ne_nil
    obtain ⟨b, hb⟩ := List.exists_mem_of_ne_nil _ ih
    apply List.ne_nil_of_mem (a := a ++ b)
    rw [productNames, List.mem_flatMap]
    exact ⟨a, ha, List.mem_map_of_mem hb⟩

end Denotation

section Characters

variable {c : Char}

theorem isPlain_iff : isPlain c = true ↔ c ≠ '[' ∧ c ≠ ']' ∧ c ≠ ',' ∧ isSpace c = false := by
  simp [isPlain, and_assoc]

theorem isPlain_of_isDigit (h : c.isDigit = true) : isPlain c = true := by
  have hdigit := Char.isDigit_iff_toNat.mp h
  have hzero : '0'.toNat = 48 := rfl
  have hnine : '9'.toNat = 57 := rfl
  rw [isPlain_iff]
  refine ⟨?_, ?_, ?_, ?_⟩
  · rintro rfl
    simp at h
  · rintro rfl
    simp at h
  · rintro rfl
    simp at h
  · simp only [isSpace, Bool.or_eq_false_iff, Bool.and_eq_false_iff, decide_eq_false_iff_not,
      beq_eq_false_iff_ne]
    omega

theorem Literal.isPlain_of_mem (l : Literal) (hc : c ∈ l.text.toList) : isPlain c = true :=
  List.all_eq_true.mp l.plain c hc

theorem DigitRange.isDigit_low (r : DigitRange) (hc : c ∈ r.low.toList) : c.isDigit = true :=
  List.all_eq_true.mp r.digits.1 c hc

theorem DigitRange.isDigit_high (r : DigitRange) (hc : c ∈ r.high.toList) : c.isDigit = true :=
  List.all_eq_true.mp r.digits.2 c hc

theorem BracketOption.isPlain_of_mem (o : BracketOption) (hc : c ∈ o.text.toList) :
    isPlain c = true := by
  cases o with
  | literal l _ => exact l.isPlain_of_mem hc
  | range r =>
    simp only [BracketOption.text, String.toList_append, List.mem_append] at hc
    obtain (hc | hc) | hc := hc
    · exact isPlain_of_isDigit (r.isDigit_low hc)
    · obtain rfl : c = '-' := by simpa using hc
      decide
    · exact isPlain_of_isDigit (r.isDigit_high hc)

end Characters

section Splitting

/-- A text that the loop over the characters takes into the group as it is. -/
def Taken (text : String) : Prop :=
  ∀ value group groups, text.toList.foldlM (scanChar value) ⟨0, group, groups⟩ =
    .ok ⟨0, group ++ text.toList, groups⟩

theorem Taken.append {a b : String} (ha : Taken a) (hb : Taken b) : Taken (a ++ b) := by
  intro value group groups
  rw [String.toList_append, List.foldlM_append, ha, ok_bind, hb, List.append_assoc]

theorem taken_empty : Taken "" := by
  intro value group groups
  rw [String.toList_empty, List.append_nil]
  rfl

theorem isSpace_of_isSeparator {c : Char} (h : isSeparator c = true) (hc : c ≠ ',') :
    isSpace c = true := by
  simp only [isSeparator, Bool.or_eq_true, beq_iff_eq] at h
  obtain (h | rfl) | rfl := h
  · exact absurd h hc
  · decide
  · decide

theorem foldlM_inside {value : String} {depth : Int} {l : List Char}
    (h : ∀ c ∈ l, c ≠ '[' ∧ c ≠ ']' ∧ (depth = 0 → isSeparator c = false))
    (group : List Char) (groups : List String) :
    l.foldlM (scanChar value) ⟨depth, group, groups⟩ = .ok ⟨depth, group ++ l, groups⟩ := by
  induction l generalizing group with
  | nil => rw [List.append_nil]; rfl
  | cons c l ih =>
    rw [List.forall_mem_cons] at h
    obtain ⟨⟨hopen, hclose, hsep⟩, hl⟩ := h
    have hstay : ¬ ((c = ',' ∨ c = ' ' ∨ c = '\t') ∧ depth = 0) := by
      rintro ⟨hc, hd⟩
      have := hsep hd
      rcases hc with rfl | rfl | rfl <;> simp [isSeparator] at this
    rw [List.foldlM_cons, scanChar, if_neg hopen, if_neg hclose, if_neg hstay, ok_bind, Scan.add, ih hl,
      List.append_assoc]
    rfl

theorem taken_of_plain {text : String} (h : ∀ c ∈ text.toList, isPlain c = true) : Taken text := by
  intro value group groups
  apply foldlM_inside
  intro c hc
  obtain ⟨hopen, hclose, hcomma, hspace⟩ := isPlain_iff.mp (h c hc)
  refine ⟨hopen, hclose, fun _ => ?_⟩
  by_contra hsep
  rw [Bool.not_eq_false] at hsep
  rw [isSpace_of_isSeparator hsep hcomma] at hspace
  cases hspace

theorem foldlM_bracket {inner : String} (h : ∀ c ∈ inner.toList, c ≠ '[' ∧ c ≠ ']') {depth : Int}
    (hdepth : 0 ≤ depth) (value : String) (group : List Char) (groups : List String) :
    ("[" ++ inner ++ "]").toList.foldlM (scanChar value) ⟨depth, group, groups⟩ =
      .ok ⟨depth, group ++ ("[" ++ inner ++ "]").toList, groups⟩ := by
  have hlist : ("[" ++ inner ++ "]").toList = '[' :: (inner.toList ++ [']']) := by simp
  have hopen : scanChar value ⟨depth, group, groups⟩ '[' =
      .ok ⟨depth + 1, group ++ ['['], groups⟩ := rfl
  have hclose : ∀ taken, scanChar value ⟨depth + 1, taken, groups⟩ ']' =
      .ok ⟨depth, taken ++ [']'], groups⟩ := by
    intro taken
    have hback : depth + 1 - 1 = depth := by omega
    rw [scanChar, if_neg (by decide), if_pos rfl]
    dsimp only
    rw [hback, if_neg (by omega), Scan.add]
  rw [hlist, List.foldlM_cons, hopen, ok_bind, List.foldlM_append,
    foldlM_inside (fun c hc => ⟨(h c hc).1, (h c hc).2, by omega⟩), ok_bind,
    List.foldlM_cons, hclose]
  simp

theorem taken_bracket {inner : String} (h : ∀ c ∈ inner.toList, c ≠ '[' ∧ c ≠ ']') :
    Taken ("[" ++ inner ++ "]") :=
  foldlM_bracket h le_rfl

theorem optionsText_char {options : List BracketOption} {c : Char}
    (hc : c ∈ (optionsText options).toList) :
    isPlain c = true ∨ c = ',' := by
  induction options with
  | nil => simp [optionsText] at hc
  | cons o options ih =>
    cases options with
    | nil =>
      left
      exact o.isPlain_of_mem (by simpa [optionsText] using hc)
    | cons o' options =>
      rw [optionsText, List.map_cons, List.map_cons, String.intercalate_cons_cons,
        ← List.map_cons] at hc
      simp only [String.toList_append, List.mem_append] at hc
      obtain (hc | hc) | hc := hc
      · exact .inl (o.isPlain_of_mem hc)
      · exact .inr (by simpa using hc)
      · exact ih hc

theorem optionsText_bracket {options : List BracketOption} {c : Char}
    (hc : c ∈ (optionsText options).toList) : c ≠ '[' ∧ c ≠ ']' := by
  obtain h | rfl := optionsText_char hc
  · exact ⟨(isPlain_iff.mp h).1, (isPlain_iff.mp h).2.1⟩
  · decide

theorem Piece.taken (p : Piece) : Taken p.text := by
  cases p with
  | literal l => exact taken_of_plain (fun c hc => l.isPlain_of_mem hc)
  | bracket first rest => exact taken_bracket (fun c hc => optionsText_bracket hc)

theorem Piece.isSpace_of_mem (p : Piece) {c : Char} (hc : c ∈ p.text.toList) : isSpace c = false := by
  cases p with
  | literal l => exact (isPlain_iff.mp (l.isPlain_of_mem hc)).2.2.2
  | bracket first rest =>
    simp only [Piece.text, String.toList_append, List.mem_append] at hc
    obtain (hc | hc) | hc := hc
    · obtain rfl : c = '[' := by simpa using hc
      decide
    · obtain h | rfl := optionsText_char hc
      · exact (isPlain_iff.mp h).2.2.2
      · decide
    · obtain rfl : c = ']' := by simpa using hc
      decide

theorem Piece.text_ne_empty (p : Piece) : p.text ≠ "" := by
  cases p with
  | literal l => exact l.nonempty
  | bracket first rest => simp [Piece.text, String.append_eq_empty_iff]

theorem piecesText_taken (ps : List Piece) : Taken (piecesText ps) := by
  induction ps with
  | nil => exact taken_empty
  | cons p ps ih => exact p.taken.append ih

theorem piecesText_isSpace (ps : List Piece) :
    ∀ c ∈ (piecesText ps).toList, isSpace c = false := by
  induction ps with
  | nil => simp [piecesText]
  | cons p ps ih =>
    intro c hc
    rw [piecesText, String.toList_append, List.mem_append] at hc
    exact hc.elim p.isSpace_of_mem (ih c)

theorem Group.text_ne_empty (g : Group) : g.text ≠ "" := by
  rw [Group.text, piecesText, ne_eq, String.append_eq_empty_iff]
  exact fun h => g.first.text_ne_empty h.1

theorem endGroup_text {text : String} (hne : text ≠ "")
    (hspace : ∀ c ∈ text.toList, isSpace c = false) (groups : List String) :
    Scan.endGroup ⟨0, text.toList, groups⟩ = ⟨0, [], groups ++ [text]⟩ := by
  rw [Scan.endGroup, String.ofList_toList, trimSpace_of_noSpace hspace]
  simp [hne]

theorem endGroup_nil (groups : List String) : Scan.endGroup ⟨0, [], groups⟩ = ⟨0, [], groups⟩ := by
  have htrim : trimSpace (String.ofList []) = "" := rfl
  rw [Scan.endGroup]
  simp [htrim]

theorem scanChar_separator {c : Char} (h : isSeparator c = true) (value : String)
    (group : List Char) (groups : List String) :
    scanChar value ⟨0, group, groups⟩ c = .ok (Scan.endGroup ⟨0, group, groups⟩) := by
  simp only [isSeparator, Bool.or_eq_true, beq_iff_eq] at h
  obtain (rfl | rfl) | rfl := h <;> rfl

theorem foldlM_separators {value : String} {l : List Char} (h : l.all isSeparator = true)
    (groups : List String) :
    l.foldlM (scanChar value) ⟨0, [], groups⟩ = .ok ⟨0, [], groups⟩ := by
  induction l with
  | nil => rfl
  | cons c l ih =>
    rw [List.all_cons, Bool.and_eq_true] at h
    rw [List.foldlM_cons, scanChar_separator h.1, ok_bind, endGroup_nil]
    exact ih h.2

theorem foldlM_groups (value : String) {items : List (Group × String)}
    (hsep : ∀ p ∈ items, p.2.toList.all isSeparator = true)
    (hapart : ∀ p ∈ items.dropLast, p.2 ≠ "") (groups : List String) :
    ∃ s, (groupsText items).toList.foldlM (scanChar value) ⟨0, [], groups⟩ = .ok s ∧ s.depth = 0 ∧
      s.endGroup.groups = groups ++ items.map (fun p => p.1.text) := by
  induction items generalizing groups with
  | nil => exact ⟨⟨0, [], groups⟩, rfl, rfl, by rw [endGroup_nil, List.map_nil, List.append_nil]⟩
  | cons p items ih =>
    obtain ⟨g, separators⟩ := p
    rw [List.forall_mem_cons] at hsep
    have hend := endGroup_text g.text_ne_empty (piecesText_isSpace _) groups
    have htaken : g.text.toList.foldlM (scanChar value) ⟨0, [], groups⟩ =
        .ok ⟨0, g.text.toList, groups⟩ :=
      piecesText_taken _ value [] groups
    simp only [groupsText, String.toList_append, List.foldlM_append, htaken, ok_bind]
    cases hs : separators.toList with
    | nil =>
      -- only the last group can stand without a separator
      obtain rfl : items = [] := by
        cases items with
        | nil => rfl
        | cons q items =>
          refine absurd ?_ (hapart (g, separators) (by simp))
          simpa using hs
      exact ⟨⟨0, g.text.toList, groups⟩, rfl, rfl, by rw [hend]; rfl⟩
    | cons c l =>
      have hall : isSeparator c = true ∧ l.all isSeparator = true := by
        simpa [hs] using hsep.1
      have hnext := ih hsep.2 (fun p hp => hapart p (by cases items <;> simp_all)) (groups ++ [g.text])
      rw [List.foldlM_cons, scanChar_separator hall.1, ok_bind, hend, foldlM_separators hall.2, ok_bind]
      simpa using hnext

theorem splitHostlist_text (h : WellFormed) :
    splitHostlist h.text = .ok (h.groups.map (fun p => p.1.text)) := by
  obtain ⟨s, hfold, hdepth, hgroups⟩ := foldlM_groups h.text h.separators.2 h.apart []
  have hscan : h.text.toList.foldlM (scanChar h.text) ⟨0, [], []⟩ = .ok s := by
    rw [WellFormed.text, String.toList_append, List.foldlM_append,
      foldlM_separators h.separators.1, ok_bind]
    exact hfold
  rw [splitHostlist, hscan, ok_bind]
  simp [refuse, hdepth, hgroups]

end Splitting

end HeteroCluster.HostlistGrammar
