import HeteroCluster.DecimalText
import HeteroCluster.LetterCase
import Mathlib.Algebra.GroupWithZero.Nat
import Mathlib.Algebra.Ring.Int.Defs
import Mathlib.Data.List.Induction
import Mathlib.Data.List.TakeDrop
import Mathlib.Data.List.TakeWhile

namespace HeteroCluster.GoStrings

open DecimalText LetterCase

/-- A Go map from strings to strings. A key is looked up at its first entry,
and an absent key reads as the empty string. -/
abbrev StringMap := List (String × String)

def get (m : StringMap) (key : String) : String := (m.lookup key).getD ""

def delete (m : StringMap) (key : String) : StringMap := m.filter (fun p => p.1 != key)

def set (m : StringMap) (key value : String) : StringMap := (key, value) :: delete m key

theorem get_set (m : StringMap) (key value : String) : get (set m key value) key = value := by
  simp [get, set]

theorem lookup_delete_of_ne (m : StringMap) {key other : String} (h : other ≠ key) :
    (delete m key).lookup other = m.lookup other := by
  induction m with
  | nil => rfl
  | cons p m ih =>
    obtain ⟨k, v⟩ := p
    by_cases hk : k = key
    · have ho : (other == k) = false := by simpa [hk] using h
      have he : delete ((k, v) :: m) key = delete m key := by simp [delete, hk]
      rw [he, ih, List.lookup_cons, ho]
    · have he : delete ((k, v) :: m) key = (k, v) :: delete m key := by simp [delete, hk]
      rw [he, List.lookup_cons, List.lookup_cons, ih]

theorem get_delete_of_ne (m : StringMap) {key other : String} (h : other ≠ key) :
    get (delete m key) other = get m other := by
  rw [get, lookup_delete_of_ne m h, get]

theorem get_set_of_ne (m : StringMap) {key other : String} (value : String) (h : other ≠ key) :
    get (set m key value) other = get m other := by
  have ho : (other == key) = false := by simpa using h
  rw [get, set, List.lookup_cons, ho, lookup_delete_of_ne m h, get]

def equal (a b : StringMap) : Bool :=
  a.all (fun p => b.lookup p.1 == a.lookup p.1) && b.all (fun p => a.lookup p.1 == b.lookup p.1)

/-- `strings.Cut` at a single character. -/
def cut (s : String) (sep : Char) : String × String × Bool :=
  match s.toList.dropWhile (fun c => c != sep) with
  | [] => (s, "", false)
  | _ :: after => (String.ofList (s.toList.takeWhile (fun c => c != sep)), String.ofList after, true)

theorem cut_of_mem (s : String) (sep : Char) (h : sep ∈ s.toList) :
    ∃ before after, cut s sep = (before, after, true) ∧
      before ++ String.singleton sep ++ after = s := by
  have hsplit := List.takeWhile_append_dropWhile (p := fun c => c != sep) (l := s.toList)
  have hhead := List.head?_dropWhile_not (fun c => c != sep) s.toList
  cases hd : s.toList.dropWhile (fun c => c != sep) with
  | nil =>
    rw [List.dropWhile_eq_nil_iff] at hd
    simpa using hd sep h
  | cons c after =>
    rw [hd] at hsplit hhead
    have hc : c = sep := by simpa using hhead
    subst hc
    refine ⟨_, _, by simp only [cut, hd]; rfl, ?_⟩
    apply String.toList_injective
    simpa using hsplit

theorem cut_append (before after : String) (sep : Char) (h : sep ∉ before.toList) :
    cut (before ++ String.singleton sep ++ after) sep = (before, after, true) := by
  have hkeep : ∀ c ∈ before.toList, (c != sep) = true := by
    intro c hc
    rw [bne_iff_ne]
    intro he
    exact h (he ▸ hc)
  have hlist : (before ++ String.singleton sep ++ after).toList =
      before.toList ++ sep :: after.toList := by simp
  unfold cut
  rw [hlist, List.dropWhile_append_of_pos hkeep, List.takeWhile_append_of_pos hkeep,
    List.dropWhile_cons_of_neg (by simp), List.takeWhile_cons_of_neg (by simp)]
  simp

theorem cut_spec {s before after : String} {sep : Char} (h : cut s sep = (before, after, true)) :
    s = before ++ String.singleton sep ++ after ∧ sep ∉ before.toList := by
  by_cases hmem : sep ∈ s.toList
  · obtain ⟨before', after', hcut, hs⟩ := cut_of_mem s sep hmem
    obtain ⟨rfl, rfl, -⟩ : before' = before ∧ after' = after ∧ true = true := by
      simpa using hcut.symm.trans h
    refine ⟨hs.symm, ?_⟩
    intro hb
    unfold cut at hcut
    split at hcut
    · cases hcut
    · obtain ⟨rfl, -⟩ := Prod.mk.inj hcut
      rw [String.toList_ofList] at hb
      simpa using List.mem_takeWhile_imp hb
  · unfold cut at h
    rw [List.dropWhile_eq_nil_iff.mpr] at h
    · cases h
    · intro c hc
      rw [bne_iff_ne]
      rintro rfl
      exact hmem hc

theorem cut_of_notMem {s : String} {sep : Char} (h : sep ∉ s.toList) : cut s sep = (s, "", false) := by
  unfold cut
  rw [List.dropWhile_eq_nil_iff.mpr]
  intro c hc
  rw [bne_iff_ne]
  rintro rfl
  exact h hc

theorem append_cons_inj {sep : Char} {a a' b b' : List Char} (ha : sep ∉ a) (ha' : sep ∉ a')
    (h : a ++ sep :: b = a' ++ sep :: b') : a = a' ∧ b = b' := by
  induction a generalizing a' with
  | nil =>
    cases a' with
    | nil => simpa using h
    | cons c a' =>
      obtain ⟨rfl, -⟩ := List.cons_eq_cons.mp h
      exact absurd (List.mem_cons_self) ha'
  | cons c a ih =>
    cases a' with
    | nil =>
      obtain ⟨rfl, -⟩ := List.cons_eq_cons.mp h
      exact absurd (List.mem_cons_self) ha
    | cons c' a' =>
      obtain ⟨rfl, hrest⟩ := List.cons_eq_cons.mp h
      obtain ⟨rfl, hb⟩ := ih (fun hm => ha (List.mem_cons_of_mem c hm))
        (fun hm => ha' (List.mem_cons_of_mem c hm)) hrest
      exact ⟨rfl, hb⟩

/-- Simple case folding, as far as an ASCII text can be its result: the long s
and the Kelvin sign fold to ASCII letters as well. -/
def fold (c : Char) : Char :=
  if c = 'ſ' then 's' else if c = 'K' then 'k' else c.toLower

def equalFold (s t : String) : Bool := s.toList.map fold == t.toList.map fold

/-- A Go map with string keys, in the order in which a loop ranges over it. -/
structure GoMap (α : Type) where
  entries : List (String × α)
  distinct : (entries.map Prod.fst).Nodup

def GoMap.len {α : Type} (m : GoMap α) : Nat := m.entries.length

def GoMap.get? {α : Type} (m : GoMap α) (key : String) : Option α := m.entries.lookup key

theorem length_le_utf8ByteSize (s : String) : s.length ≤ s.utf8ByteSize := by
  obtain ⟨l, rfl⟩ : ∃ l, s = String.ofList l := ⟨s.toList, String.ofList_toList.symm⟩
  induction l with
  | nil => simp
  | cons c l ih =>
    rw [String.ofList_cons, String.utf8ByteSize_append, String.utf8ByteSize_singleton,
      String.length_append, String.length_singleton]
    have hc := c.utf8Size_pos
    omega

/-- A regular expression of one class for the first character and one for at
most `extra` others. -/
def hasForm (first rest : Char → Bool) (extra : Nat) (s : String) : Bool :=
  match s.toList with
  | [] => false
  | c :: cs => first c && cs.all rest && decide (cs.length ≤ extra)

/-- The escapes of `strconv.Quote`, by code point. -/
def escapes : List (Nat × String) :=
  [(34, "\\\""), (92, "\\\\"), (7, "\\a"), (8, "\\b"), (12, "\\f"), (10, "\\n"), (13, "\\r"),
    (9, "\\t"), (11, "\\v")]

def quoteChar (c : Char) : String :=
  match escapes.lookup c.toNat with
  | some escape => escape
  | none =>
    if c.toNat < 32 ∨ c.toNat = 127 then
      "\\x" ++ String.ofList [(c.toNat / 16).digitChar, (c.toNat % 16).digitChar]
    else String.singleton c

/-- `strconv.Quote`, with every character above the control characters taken
as printable. -/
def quote (s : String) : String := "\"" ++ String.join (s.toList.map quoteChar) ++ "\""

def decimal (digits : List Char) : Option Nat :=
  if digits ≠ [] ∧ digits.all Char.isDigit then some (Nat.ofDigitChars 10 digits 0) else none

/-- `strconv.Atoi` on 64-bit machines. -/
def atoi (s : String) : Option Int :=
  match s.toList with
  | '-' :: digits => (decimal digits).bind fun n => if n ≤ 2 ^ 63 then some (-n) else none
  | '+' :: digits => (decimal digits).bind fun n => if n < 2 ^ 63 then some n else none
  | digits => (decimal digits).bind fun n => if n < 2 ^ 63 then some n else none

section Numerals

def unsigned : List Char → List Char
  | '-' :: digits => digits
  | '+' :: digits => digits
  | digits => digits

theorem decimal_eq_some {digits : List Char} {n : Nat} (h : decimal digits = some n) :
    digits.all Char.isDigit = true ∧ Nat.ofDigitChars 10 digits 0 = n := by
  unfold decimal at h
  split at h
  next hd => exact ⟨hd.2, Option.some.inj h⟩
  · cases h

theorem atoi_eq_some {s : String} {v : Int} (h : atoi s = some v) :
    (unsigned s.toList).all Char.isDigit = true ∧
      Nat.ofDigitChars 10 (unsigned s.toList) 0 = v.natAbs := by
  unfold atoi at h
  unfold unsigned
  split at h <;> simp only [Option.bind_eq_some_iff, Option.ite_none_right_eq_some,
    Option.some.injEq] at h <;> obtain ⟨n, hn, -, rfl⟩ := h
  all_goals
    obtain ⟨hd, hv⟩ := decimal_eq_some hn
    simp_all

theorem atoi_range {s : String} {v : Int} (h : atoi s = some v) : -2 ^ 63 ≤ v ∧ v < 2 ^ 63 := by
  unfold atoi at h
  split at h <;> simp only [Option.bind_eq_some_iff, Option.ite_none_right_eq_some,
    Option.some.injEq] at h <;> obtain ⟨n, -, hn, rfl⟩ := h <;> omega

theorem atoi_nonneg {s : String} {v : Int} (h : atoi s = some v) (hs : '-' ∉ s.toList) : 0 ≤ v := by
  unfold atoi at h
  split at h
  next digits hl =>
    rw [hl] at hs
    exact absurd List.mem_cons_self hs
  all_goals
    simp only [Option.bind_eq_some_iff, Option.ite_none_right_eq_some, Option.some.injEq] at h
    obtain ⟨n, -, -, rfl⟩ := h
    exact Int.natCast_nonneg n

theorem atoi_digits {s : String} (hne : s ≠ "") (hs : s.toList.all Char.isDigit = true) :
    atoi s = if Nat.ofDigitChars 10 s.toList 0 < 2 ^ 63 then
      some (Nat.ofDigitChars 10 s.toList 0 : Int) else none := by
  have hne' : s.toList ≠ [] := by simpa using hne
  have hdecimal : decimal s.toList = some (Nat.ofDigitChars 10 s.toList 0) := if_pos ⟨hne', hs⟩
  have hsign : ∀ c ∈ s.toList, c ≠ '-' ∧ c ≠ '+' := by
    intro c hc
    have hdigit := List.all_eq_true.mp hs c hc
    constructor <;> rintro rfl <;> simp at hdigit
  unfold atoi
  split
  next digits hl => exact absurd rfl (hsign '-' (by simp [hl])).1
  next digits hl => exact absurd rfl (hsign '+' (by simp [hl])).2
  · rw [hdecimal]
    rfl

end Numerals

def wrapInt64 (x : Int) : Int := x.bmod (2 ^ 64)

theorem wrapInt64_of_range {x : Int} (hl : -2 ^ 63 ≤ x) (hu : x < 2 ^ 63) : wrapInt64 x = x := by
  unfold wrapInt64
  rw [Int.bmod_eq_of_le (by omega) (by omega)]

theorem wrapInt64_range (x : Int) : -2 ^ 63 ≤ wrapInt64 x ∧ wrapInt64 x < 2 ^ 63 := by
  unfold wrapInt64
  constructor
  · have := Int.le_bmod (x := x) (m := 2 ^ 64) (by decide)
    omega
  · have := Int.bmod_lt (x := x) (m := 2 ^ 64) (by decide)
    omega

/-- `strconv.ParseUint` to base 10 and 64 bits. -/
def parseUint (s : String) : Option UInt64 :=
  (decimal s.toList).bind fun n => if n < 2 ^ 64 then some (UInt64.ofNat n) else none

/-- `strings.CutPrefix`. -/
def cutPrefix (s start : String) : Option String :=
  if start.toList.isPrefixOf s.toList then some (String.ofList (s.toList.drop start.toList.length))
  else none

/-- `strings.CutSuffix`. -/
def cutSuffix (s ending : String) : Option String :=
  if ending.toList.isSuffixOf s.toList then
    some (String.ofList (s.toList.take (s.toList.length - ending.toList.length)))
  else none

theorem cutPrefix_append (start rest : String) : cutPrefix (start ++ rest) start = some rest := by
  have hpre : start.toList.isPrefixOf (start ++ rest).toList = true := by simp
  rw [cutPrefix, if_pos hpre]
  simp

theorem cutPrefix_eq_some {s start rest : String} :
    cutPrefix s start = some rest ↔ s = start ++ rest := by
  constructor
  · intro h
    unfold cutPrefix at h
    split at h
    next hstart =>
      obtain ⟨after, hafter⟩ := List.isPrefixOf_iff_prefix.mp hstart
      have hrest : rest.toList = after := by
        rw [← Option.some.inj h, String.toList_ofList, ← hafter, List.drop_left]
      apply String.toList_injective
      rw [← hafter, String.toList_append, hrest]
    · cases h
  · rintro rfl
    exact cutPrefix_append start rest

theorem cutSuffix_append (rest ending : String) : cutSuffix (rest ++ ending) ending = some rest := by
  have hsuf : ending.toList.isSuffixOf (rest ++ ending).toList = true := by simp
  rw [cutSuffix, if_pos hsuf]
  simp

def hasPrefix (s start : String) : Bool := (cutPrefix s start).isSome

def trimPrefix (s start : String) : String := (cutPrefix s start).getD s

theorem not_of_mem_splitOnP {α : Type} {p : α → Bool} {l w : List α} (h : w ∈ l.splitOnP p) :
    ∀ c ∈ w, p c = false := by
  induction l generalizing w with
  | nil => simp_all
  | cons a l ih =>
    rw [List.splitOnP_cons_eq_if_modifyHead] at h
    split at h
    next ha =>
      obtain rfl | h := List.mem_cons.mp h
      · simp
      · exact ih h
    next ha =>
      cases hl : l.splitOnP p with
      | nil => simp [hl] at h
      | cons v rest =>
        rw [hl, List.modifyHead_cons, List.mem_cons] at h
        rw [hl] at ih
        obtain rfl | h := h
        · intro c hc
          obtain rfl | hc := List.mem_cons.mp hc
          · simpa using ha
          · exact ih List.mem_cons_self c hc
        · exact ih (List.mem_cons_of_mem _ h)

/-- `strings.Split` at a single character. -/
def split (s : String) (sep : Char) : List String := (s.toList.splitOn sep).map String.ofList

theorem notMem_of_mem_split {s w : String} {sep : Char} (h : w ∈ split s sep) : sep ∉ w.toList := by
  obtain ⟨l, hl, rfl⟩ := List.mem_map.mp h
  rw [String.toList_ofList]
  intro hsep
  have := not_of_mem_splitOnP hl sep hsep
  simp at this

theorem split_of_notMem {s : String} {sep : Char} (h : sep ∉ s.toList) : split s sep = [s] := by
  rw [split, List.splitOn_eq_singleton h]
  simp

theorem split_intercalate {words : List String} {sep : Char} (hne : words ≠ [])
    (h : ∀ w ∈ words, sep ∉ w.toList) :
    split ((String.singleton sep).intercalate words) sep = words := by
  rw [split, String.toList_intercalate, String.toList_singleton,
    List.splitOn_intercalate sep (by simpa using h) (by simpa using hne)]
  simp

/-- `strings.LastIndex` of a character of a class, with what stands before and
after it. -/
def cutLast (sep : Char → Bool) (s : String) : Option (String × String) :=
  match s.toList.reverse.dropWhile (fun c => !sep c) with
  | [] => none
  | _ :: before => some (String.ofList before.reverse,
      String.ofList (s.toList.reverse.takeWhile (fun c => !sep c)).reverse)

section Words

variable {α : Type} {p : α → Bool} {sep : α} {words : List (List α)}

theorem intercalate_cons {first : List α} (h : words ≠ []) :
    List.intercalate [sep] (first :: words) = first ++ sep :: List.intercalate [sep] words := by
  cases words with
  | nil => exact absurd rfl h
  | cons second words => simp [List.intercalate]

theorem sublist_intercalate {w : List α} (h : w ∈ words) :
    w.Sublist (List.intercalate [sep] words) := by
  induction words with
  | nil => cases h
  | cons first words ih =>
    by_cases hw : words = []
    · subst hw
      obtain rfl := List.mem_singleton.mp h
      simp [List.intercalate]
    · rw [intercalate_cons hw]
      obtain rfl | h := List.mem_cons.mp h
      · exact List.sublist_append_left _ _
      · exact ((ih h).cons sep).trans (List.sublist_append_right _ _)

theorem sublist_of_mem_split {s w : String} {sep : Char} (h : w ∈ split s sep) :
    w.toList.Sublist s.toList := by
  obtain ⟨l, hl, rfl⟩ := List.mem_map.mp h
  have hjoin : List.intercalate [sep] (s.toList.splitOn sep) = s.toList := List.intercalate_splitOn sep
  rw [String.toList_ofList, ← hjoin]
  exact sublist_intercalate hl

theorem intercalate_modifyHead {a : α} (h : words ≠ []) :
    List.intercalate [sep] (words.modifyHead (List.cons a)) =
      a :: List.intercalate [sep] words := by
  cases words with
  | nil => exact absurd rfl h
  | cons first words =>
    cases words <;> simp [List.intercalate]

theorem intercalate_splitOnP (p : α → Bool) (sep : α) (l : List α) :
    List.intercalate [sep] (l.splitOnP p) = l.map (fun c => if p c then sep else c) := by
  induction l with
  | nil => simp [List.intercalate]
  | cons a l ih =>
    have hne := List.splitOnP_ne_nil p l
    rw [List.splitOnP_cons_eq_if_modifyHead, List.map_cons, ← ih]
    split
    · exact intercalate_cons hne
    · exact intercalate_modifyHead hne

theorem length_intercalate (sep : α) (h : words ≠ []) :
    (List.intercalate [sep] words).length + 1 = (words.map List.length).sum + words.length := by
  induction words with
  | nil => exact absurd rfl h
  | cons first words ih =>
    by_cases hw : words = []
    · subst hw
      simp [List.intercalate]
    · have hlen := ih hw
      rw [intercalate_cons hw]
      simp only [List.length_append, List.length_cons, List.map_cons, List.sum_cons]
      omega

theorem sum_length_filter (words : List (List α)) :
    ((words.filter (fun word => decide (word ≠ []))).map List.length).sum =
      (words.map List.length).sum := by
  induction words with
  | nil => rfl
  | cons first words ih => cases first <;> simp_all

theorem intercalate_filter_iff {first : List α} (hf : first ≠ []) :
    List.intercalate [sep] ((first :: words).filter (fun word => decide (word ≠ []))) =
      List.intercalate [sep] (first :: words) ↔ [] ∉ words := by
  have hfilter : (first :: words).filter (fun word => decide (word ≠ [])) =
      first :: words.filter (fun word => decide (word ≠ [])) :=
    List.filter_cons_of_pos (by simpa using hf)
  constructor
  · intro h hnil
    rw [hfilter] at h
    have hlen := congrArg List.length h
    have hall := length_intercalate sep (List.cons_ne_nil first words)
    have hkept := length_intercalate sep
      (List.cons_ne_nil first (words.filter (fun word => decide (word ≠ []))))
    rw [List.map_cons, List.sum_cons, sum_length_filter] at hkept
    have hlt : (words.filter (fun word => decide (word ≠ []))).length < words.length :=
      List.length_filter_lt_length_iff_exists.mpr ⟨[], hnil, by simp⟩
    simp only [List.length_cons, List.map_cons, List.sum_cons] at hkept hall
    omega
  · intro h
    have hself : words.filter (fun word => decide (word ≠ [])) = words := by
      rw [List.filter_eq_self]
      intro word hw
      exact decide_eq_true (ne_of_mem_of_not_mem hw h)
    rw [hfilter, hself]

end Words

/-- `strings.FieldsFunc`. -/
def fieldsFunc (sep : Char → Bool) (s : String) : List String :=
  ((s.toList.splitOnP sep).filter (fun word => word ≠ [])).map String.ofList

def isPunctuation (c : Char) : Bool := (c < 'a' || 'z' < c) && (c < '0' || '9' < c)

/-- The loop of `strings.ReplaceAll`. The number says how much of a match is
still to be skipped. -/
def replaceFrom (old new : List Char) : Nat → List Char → List Char
  | _, [] => []
  | skip + 1, _ :: rest => replaceFrom old new skip rest
  | 0, c :: rest =>
    if old.isPrefixOf (c :: rest) then new ++ replaceFrom old new (old.length - 1) rest
    else c :: replaceFrom old new 0 rest

def replaceAll (s old new : String) : String :=
  String.ofList (replaceFrom old.toList new.toList 0 s.toList)

theorem replaceFrom_singleton (old new : Char) (l : List Char) :
    replaceFrom [old] [new] 0 l = l.map (fun c => if c == old then new else c) := by
  induction l with
  | nil => rfl
  | cons c l ih =>
    by_cases hc : c = old
    · simp [replaceFrom, hc, ih]
    · simp [replaceFrom, hc, ih, Ne.symm hc]

/-- `strings.ToLower`. -/
def toLower (s : String) : String := String.ofList (s.toList.map lowerChar)

/-- `unicode.IsSpace`. -/
def isSpace (c : Char) : Bool :=
  (9 ≤ c.toNat && c.toNat ≤ 13) || c.toNat == 32 || c.toNat == 0x85 || c.toNat == 0xA0 ||
    c.toNat == 0x1680 || (0x2000 ≤ c.toNat && c.toNat ≤ 0x200A) || c.toNat == 0x2028 ||
    c.toNat == 0x2029 || c.toNat == 0x202F || c.toNat == 0x205F || c.toNat == 0x3000

/-- The characters beyond ASCII among them. -/
def spaceCodes : List Nat :=
  [0x85, 0xA0, 0x1680, 0x2000, 0x2001, 0x2002, 0x2003, 0x2004, 0x2005, 0x2006, 0x2007, 0x2008,
    0x2009, 0x200A, 0x2028, 0x2029, 0x202F, 0x205F, 0x3000]

theorem isSpace_cases {c : Char} (h : isSpace c = true) :
    c.toNat ≤ 32 ∨ c.toNat ∈ spaceCodes := by
  simp [isSpace] at h
  simp only [spaceCodes, List.mem_cons, List.not_mem_nil, or_false]
  omega

def trimSpace (s : String) : String :=
  String.ofList ((s.toList.dropWhile isSpace).reverse.dropWhile isSpace).reverse

section Trim

theorem trimSpace_spec (s : String) : ∃ before after,
    s.toList = before ++ (trimSpace s).toList ++ after ∧ (∀ c ∈ before, isSpace c = true) ∧
      ∀ c ∈ after, isSpace c = true := by
  refine ⟨s.toList.takeWhile isSpace,
    ((s.toList.dropWhile isSpace).reverse.takeWhile isSpace).reverse, ?_, ?_, ?_⟩
  · rw [trimSpace, String.toList_ofList, List.append_assoc, ← List.reverse_append,
      List.takeWhile_append_dropWhile, List.reverse_reverse, List.takeWhile_append_dropWhile]
  · intro c hc
    exact List.mem_takeWhile_imp hc
  · intro c hc
    exact List.mem_takeWhile_imp (List.mem_reverse.mp hc)

theorem trimSpace_of_noSpace {s : String} (h : ∀ c ∈ s.toList, isSpace c = false) :
    trimSpace s = s := by
  obtain ⟨before, after, hs, hbefore, hafter⟩ := trimSpace_spec s
  have hnil : ∀ l : List Char, (∀ c ∈ l, isSpace c = true) → l ⊆ s.toList → l = [] := by
    intro l hl hsub
    apply List.eq_nil_iff_forall_not_mem.mpr
    intro c hc
    exact Bool.false_ne_true ((h c (hsub hc)).symm.trans (hl c hc))
  have hb : before = [] := hnil before hbefore (by rw [hs]; simp)
  have ha : after = [] := hnil after hafter (by rw [hs]; simp)
  rw [hb, ha, List.nil_append, List.append_nil] at hs
  exact (String.toList_injective hs).symm

variable {old new : List Char}

theorem replaceFrom_append_left (new : List Char) {before l : List Char}
    (h : ∀ c ∈ before, c ∉ old) (hne : old ≠ []) :
    replaceFrom old new 0 (before ++ l) = before ++ replaceFrom old new 0 l := by
  induction before with
  | nil => rfl
  | cons c before ih =>
    have hc : ¬ (old.isPrefixOf (c :: (before ++ l)) = true) := by
      intro hp
      obtain ⟨t, ht⟩ := List.isPrefixOf_iff_prefix.mp hp
      cases old with
      | nil => exact hne rfl
      | cons o old =>
        obtain ⟨rfl, -⟩ := List.cons.inj ht
        exact h o List.mem_cons_self List.mem_cons_self
    rw [List.cons_append, replaceFrom, if_neg hc,
      ih (fun d hd => h d (List.mem_cons_of_mem c hd)), List.cons_append]

theorem isPrefixOf_append {l after : List Char} (h : ∀ c ∈ after, c ∉ old) :
    old.isPrefixOf (l ++ after) = old.isPrefixOf l := by
  rw [Bool.eq_iff_iff, List.isPrefixOf_iff_prefix, List.isPrefixOf_iff_prefix]
  constructor
  · intro hp
    by_cases hl : old.length ≤ l.length
    · exact List.prefix_of_prefix_length_le hp (List.prefix_append l after) hl
    · obtain ⟨t, rfl⟩ := List.prefix_of_prefix_length_le (List.prefix_append l after) hp (by omega)
      rw [List.prefix_append_right_inj] at hp
      cases t with
      | nil => simp at hl
      | cons c t => exact absurd (by simp) (h c (hp.subset List.mem_cons_self))
  · intro hp
    exact hp.trans (List.prefix_append l after)

theorem replaceFrom_append_right {l after : List Char} (h : ∀ c ∈ after, c ∉ old) (hne : old ≠ [])
    (skip : Nat) (hs : skip ≤ l.length) :
    replaceFrom old new skip (l ++ after) = replaceFrom old new skip l ++ after := by
  induction l generalizing skip with
  | nil =>
    obtain rfl : skip = 0 := Nat.le_zero.mp hs
    simpa [replaceFrom] using replaceFrom_append_left new (l := []) h hne
  | cons c l ih =>
    cases skip with
    | succ skip => exact ih skip (Nat.le_of_succ_le_succ hs)
    | zero =>
      rw [List.cons_append, replaceFrom, replaceFrom, ← List.cons_append, isPrefixOf_append h]
      split
      next hp =>
        have hlen := (List.isPrefixOf_iff_prefix.mp hp).length_le
        rw [ih (old.length - 1) (by simp at hlen; omega), List.append_assoc]
      next => rw [ih 0 (Nat.zero_le _), List.cons_append]

theorem filter_splitOnP_append_left {sep : Char → Bool} {before l : List Char}
    (h : ∀ c ∈ before, sep c = true) :
    ((before ++ l).splitOnP sep).filter (fun word => word ≠ []) =
      (l.splitOnP sep).filter (fun word => word ≠ []) := by
  induction before with
  | nil => rfl
  | cons c before ih =>
    rw [List.cons_append, List.splitOnP_cons_eq_if_modifyHead, if_pos (h c List.mem_cons_self),
      List.filter_cons_of_neg (by simp), ih (fun d hd => h d (List.mem_cons_of_mem c hd))]

theorem fieldsFunc_append {sep : Char → Bool} {before l after : List Char}
    (hb : ∀ c ∈ before, sep c = true) (ha : ∀ c ∈ after, sep c = true) :
    fieldsFunc sep (String.ofList (before ++ l ++ after)) = fieldsFunc sep (String.ofList l) := by
  have hright : ((l ++ after).splitOnP sep).filter (fun word => word ≠ []) =
      (l.splitOnP sep).filter (fun word => word ≠ []) := by
    cases after with
    | nil => rw [List.append_nil]
    | cons c after =>
      have hrest := filter_splitOnP_append_left (l := []) (fun d hd => ha d (List.mem_cons_of_mem c hd))
      rw [List.append_nil] at hrest
      rw [List.splitOnP_append_cons _ _ (ha c List.mem_cons_self), List.filter_append, hrest]
      simp
  rw [fieldsFunc, fieldsFunc, String.toList_ofList, String.toList_ofList, List.append_assoc,
    filter_splitOnP_append_left hb, hright]

theorem capitalRows_not_space : ∀ row ∈ capitalRows, ∀ code ∈ spaceCodes, row.has code = false := by
  decide +kernel

theorem isSpace_lowerChar {c : Char} (h : isSpace c = true) : lowerChar c = c := by
  obtain hascii | hmem := isSpace_cases h
  · rw [lowerChar_of_lt (by omega), toLower_of_not_capital (by omega)]
  · have hcode : ∀ code ∈ spaceCodes, 128 ≤ code := by decide
    exact lowerChar_of_not_capital (hcode _ hmem)
      (fun row hrow => capitalRows_not_space row hrow _ hmem)

theorem isSpace_punctuation {c : Char} (h : isSpace c = true) : isPunctuation c = true := by
  have hlt : ∀ d : Char, c < d ↔ c.toNat < d.toNat := fun d => UInt32.lt_iff_toNat_lt
  have hgt : ∀ d : Char, d < c ↔ d.toNat < c.toNat := fun d => UInt32.lt_iff_toNat_lt
  simp only [isPunctuation, hlt, hgt, Bool.and_eq_true, Bool.or_eq_true, decide_eq_true_eq]
  simp [isSpace] at h
  simp
  omega

theorem replaceAll_append (new : String) {old : String} {before l after : List Char}
    (hb : ∀ c ∈ before, c ∉ old.toList) (ha : ∀ c ∈ after, c ∉ old.toList) (hne : old.toList ≠ []) :
    (replaceAll (String.ofList (before ++ l ++ after)) old new).toList =
      before ++ (replaceAll (String.ofList l) old new).toList ++ after := by
  simp only [replaceAll, String.toList_ofList]
  rw [List.append_assoc, replaceFrom_append_left _ hb hne,
    replaceFrom_append_right ha hne 0 (Nat.zero_le _), List.append_assoc]

end Trim

/-- The components `path.Clean` keeps, the last one first. -/
def cleanComponents (rooted : Bool) (kept : List (List Char)) : List (List Char) → List (List Char)
  | [] => kept
  | component :: rest =>
    if component = [] ∨ component = ['.'] then cleanComponents rooted kept rest
    else if component = ['.', '.'] then
      match kept with
      | [] => cleanComponents rooted (if rooted then [] else [component]) rest
      | top :: below =>
        if top = ['.', '.'] then cleanComponents rooted (component :: kept) rest
        else cleanComponents rooted below rest
    else cleanComponents rooted (component :: kept) rest

/-- `path.Clean`. -/
def pathClean (s : String) : String :=
  let rooted := s.toList.head? == some '/'
  let body := List.intercalate ['/'] (cleanComponents rooted [] (s.toList.splitOn '/')).reverse
  let path := if rooted then '/' :: body else body
  if path = [] then "." else String.ofList path

end HeteroCluster.GoStrings
