import HeteroCluster.CleanPaths
import Mathlib.Data.List.Infix

namespace HeteroCluster.FilePaths

open GoStrings CleanPaths

def isRooted (path : String) : Bool := path.toList.head? == some '/'

/-- `filepath.Join`: the elements from the first that is not empty, cleaned. -/
def filepathJoin (elements : List String) : String :=
  let given := elements.dropWhile (fun e => e == "")
  if given = [] then "" else pathClean (String.intercalate "/" given)

def elementsOf (path : String) : List (List Char) :=
  (path.toList.splitOn '/').filter (fun w => decide (w ≠ []))

def dropCommon : List (List Char) → List (List Char) → List (List Char) × List (List Char)
  | b :: base, t :: target => if b = t then dropCommon base target else (b :: base, t :: target)
  | base, target => (base, target)

/-- `filepath.Rel`, where volumes have no names: up from what is left of the
base, and down to what is left of the target. -/
def filepathRel (basepath targpath : String) : Option String :=
  let base := pathClean basepath
  let targ := pathClean targpath
  if targ = base then some "."
  else
    let base := if base = "." then "" else base
    if isRooted base ≠ isRooted targ then none
    else
      let left := dropCommon (elementsOf base) (elementsOf targ)
      if left.1.head? = some ['.', '.'] ∧ left.2 ≠ [] then none
      else
        some (String.ofList (List.intercalate ['/'] (left.1.map (fun _ => ['.', '.']) ++ left.2)))

section Splitting

variable {words : List (List Char)}

theorem splitOn_append_cons (a b : List Char) :
    (a ++ '/' :: b).splitOn '/' = a.splitOn '/' ++ b.splitOn '/' :=
  List.splitOnP_append_cons a b (by simp)

theorem splitOn_intercalate_eq (h : words ≠ []) :
    (List.intercalate ['/'] words).splitOn '/' = words.flatMap (List.splitOn '/') := by
  induction words with
  | nil => exact absurd rfl h
  | cons a words ih =>
    cases words with
    | nil => simp [List.intercalate]
    | cons b words =>
      rw [intercalate_cons (List.cons_ne_nil b words), splitOn_append_cons,
        ih (List.cons_ne_nil b words)]
      rfl

end Splitting

section Rooted

variable {s t root : String} {rest : List String}

theorem toList_of_isRooted (h : isRooted s = true) : ∃ tail, s.toList = '/' :: tail :=
  List.head?_eq_some_iff.mp (eq_of_beq h)

theorem toList_pathClean (h : isRooted s = true) :
    (pathClean s).toList = '/' :: List.intercalate ['/'] (resolve s) := by
  have hroot : (s.toList.head? == some '/') = true := h
  simp [pathClean, hroot, resolve]

theorem isRooted_pathClean (h : isRooted s = true) : isRooted (pathClean s) = true := by
  rw [isRooted, toList_pathClean h]
  rfl

theorem splitOn_pathClean (h : isRooted s = true) :
    (pathClean s).toList.splitOn '/' = [] :: (if resolve s = [] then [[]] else resolve s) := by
  have hsplit := splitOn_append_cons [] (List.intercalate ['/'] (resolve s))
  rw [List.nil_append] at hsplit
  rw [toList_pathClean h, hsplit]
  split
  next hnil =>
    rw [hnil]
    rfl
  next hne =>
    rw [List.splitOn_intercalate '/' (fun w hw => (plain_of_mem_resolve hw).2) hne]
    rfl

theorem elementsOf_pathClean (h : isRooted s = true) : elementsOf (pathClean s) = resolve s := by
  have hall : (resolve s).filter (fun w => decide (w ≠ [])) = resolve s := by
    rw [List.filter_eq_self]
    intro w hw
    exact decide_eq_true (plain_of_mem_resolve hw).1.some
  rw [elementsOf, splitOn_pathClean h]
  split
  next hnil => simp [hnil]
  · simpa using hall

theorem resolve_pathClean (h : isRooted s = true) : resolve (pathClean s) = resolve s := by
  have hall : (resolve s).filter isKept = resolve s := by
    rw [List.filter_eq_self]
    intro w hw
    obtain ⟨hplain, -⟩ := plain_of_mem_resolve hw
    exact decide_eq_true ⟨hplain.some, hplain.dot⟩
  rw [resolve, splitOn_pathClean h, cleanComponents_of_forall_ne]
  · split
    next hnil => simp [hnil, isKept]
    · simpa [isKept] using hall
  · intro w hw
    rw [List.mem_cons] at hw
    obtain rfl | hw := hw
    · simp
    · split at hw
      · simp [List.mem_singleton.mp hw]
      · exact (plain_of_mem_resolve hw).1.parent

theorem filepathJoin_of_isRooted (h : isRooted root = true) (rest : List String) :
    filepathJoin (root :: rest) = pathClean (String.intercalate "/" (root :: rest)) ∧
      isRooted (String.intercalate "/" (root :: rest)) = true := by
  obtain ⟨tail, htail⟩ := toList_of_isRooted h
  have hne : root ≠ "" := by
    rintro rfl
    cases htail
  constructor
  · rw [filepathJoin, List.dropWhile_cons_of_neg (by simpa using hne), if_neg (by simp)]
  · rw [isRooted, String.toList_intercalate, List.map_cons, htail]
    cases rest with
    | nil => simp [List.intercalate]
    | cons e rest => simp [List.intercalate]

theorem isRooted_filepathJoin (h : isRooted root = true) (rest : List String) :
    isRooted (filepathJoin (root :: rest)) = true := by
  obtain ⟨hjoin, hrooted⟩ := filepathJoin_of_isRooted h rest
  rw [hjoin]
  exact isRooted_pathClean hrooted

theorem resolve_filepathJoin (h : isRooted root = true)
    (hrest : ∀ e ∈ rest, ['.', '.'] ∉ e.toList.splitOn '/') :
    resolve (filepathJoin (root :: rest)) =
      resolve root ++ (rest.flatMap (fun e => e.toList.splitOn '/')).filter isKept := by
  obtain ⟨hjoin, hrooted⟩ := filepathJoin_of_isRooted h rest
  have hsplit : (String.intercalate "/" (root :: rest)).toList.splitOn '/' =
      root.toList.splitOn '/' ++ rest.flatMap (fun e => e.toList.splitOn '/') := by
    rw [String.toList_intercalate]
    change (List.intercalate ['/'] _).splitOn '/' = _
    rw [splitOn_intercalate_eq (by simp), List.map_cons, List.flatMap_cons, List.flatMap_map]
  have hdown : ∀ w ∈ rest.flatMap (fun e => e.toList.splitOn '/'), w ≠ ['.', '.'] := by
    rintro w hw rfl
    obtain ⟨e, he, hw⟩ := List.mem_flatMap.mp hw
    exact hrest e he hw
  rw [hjoin, resolve_pathClean hrooted, resolve, hsplit, cleanComponents_append,
    cleanComponents_of_forall_ne hdown, List.reverse_append, List.reverse_reverse]
  rfl

theorem dropCommon_append (base rest : List (List Char)) :
    dropCommon base (base ++ rest) = ([], rest) := by
  induction base with
  | nil => cases rest <;> rfl
  | cons b base ih => simpa [dropCommon] using ih

theorem filepathRel_below (hs : isRooted s = true) (ht : isRooted t = true)
    {below : List (List Char)} (hbelow : resolve t = resolve s ++ below) (hne : below ≠ []) :
    filepathRel s t = some (String.ofList (List.intercalate ['/'] below)) := by
  have hdiff : pathClean t ≠ pathClean s := by
    intro heq
    have hsame := congrArg elementsOf heq
    rw [elementsOf_pathClean ht, elementsOf_pathClean hs, hbelow] at hsame
    exact hne (by simpa using hsame)
  have hdot : pathClean s ≠ "." := by
    intro heq
    have hroot := isRooted_pathClean hs
    rw [heq] at hroot
    cases hroot
  simp only [filepathRel, if_neg hdiff, if_neg hdot, isRooted_pathClean hs, isRooted_pathClean ht,
    elementsOf_pathClean hs, elementsOf_pathClean ht, hbelow, dropCommon_append]
  simp

end Rooted

/-- `strings.Contains`. -/
def contains (s substr : String) : Bool := decide (substr.toList <:+: s.toList)

section Enclosed

variable {ws words : List (List Char)} {before after : List Char}

def enclosed (words : List (List Char)) : List Char := '/' :: words.flatMap (fun w => w ++ ['/'])

theorem enclosed_eq (h : words ≠ []) :
    enclosed words = '/' :: (List.intercalate ['/'] words ++ ['/']) := by
  induction words with
  | nil => exact absurd rfl h
  | cons w words ih =>
    cases words with
    | nil => simp [enclosed, List.intercalate]
    | cons v words =>
      have hrest := ih (List.cons_ne_nil v words)
      rw [enclosed, List.cons.injEq] at hrest
      rw [enclosed, List.flatMap_cons, hrest.2, intercalate_cons (List.cons_ne_nil v words)]
      simp

theorem enclosed_eq_flatMap (words : List (List Char)) :
    enclosed words = words.flatMap (fun w => '/' :: w) ++ ['/'] := by
  induction words with
  | nil => rfl
  | cons w words ih =>
    rw [enclosed] at ih ⊢
    simp only [List.flatMap_cons, List.append_assoc, List.cons_append, ← ih, List.nil_append]

theorem flatMap_prefix (hws : ∀ w ∈ ws, '/' ∉ w) (hwords : ∀ w ∈ words, '/' ∉ w)
    (h : ws.flatMap (fun w => w ++ ['/']) ++ after = words.flatMap (fun w => w ++ ['/'])) :
    ws <+: words := by
  induction ws generalizing words with
  | nil => exact List.nil_prefix
  | cons w ws ih =>
    cases words with
    | nil => simp at h
    | cons v words =>
      rw [List.forall_mem_cons] at hws hwords
      simp only [List.flatMap_cons, List.append_assoc, List.cons_append, List.nil_append] at h
      obtain ⟨rfl, hrest⟩ := append_cons_inj hws.1 hwords.1 h
      exact (List.prefix_cons_inj w).mpr (ih hws.2 hwords.2 hrest)

theorem enclosed_split (hwords : ∀ w ∈ words, '/' ∉ w)
    (h : before ++ '/' :: after = enclosed words) :
    ∃ front back, words = front ++ back ∧ after = back.flatMap (fun w => w ++ ['/']) := by
  induction words generalizing before with
  | nil =>
    have hlen := congrArg List.length h
    simp only [enclosed, List.flatMap_nil, List.length_append, List.length_cons,
      List.length_nil] at hlen
    exact ⟨[], [], rfl, List.eq_nil_of_length_eq_zero (by omega)⟩
  | cons w words ih =>
    rw [List.forall_mem_cons] at hwords
    cases before with
    | nil => exact ⟨[], w :: words, rfl, (List.cons.inj h).2⟩
    | cons c before =>
      have hrest := (List.cons.inj h).2
      simp only [List.flatMap_cons, List.append_assoc, List.cons_append, List.nil_append] at hrest
      obtain ⟨more, rfl, hmore⟩ | ⟨more, rfl, hmore⟩ := List.append_eq_append_iff.mp hrest
      · cases more with
        | nil => exact ⟨[_], words, rfl, by simpa using hmore⟩
        | cons d more =>
          rw [List.cons_append, List.cons.injEq] at hmore
          rw [← hmore.1] at hwords
          simp at hwords
      · obtain ⟨front, back, rfl, hafter⟩ := ih hwords.2 hmore.symm
        exact ⟨w :: front, back, rfl, hafter⟩

theorem enclosed_infix_iff (hws : ∀ w ∈ ws, '/' ∉ w) (hwords : ∀ w ∈ words, '/' ∉ w) :
    enclosed ws <:+: enclosed words ↔ ws <:+: words := by
  constructor
  · rintro ⟨before, after, h⟩
    rw [List.append_assoc, enclosed, List.cons_append] at h
    obtain ⟨front, back, rfl, hback⟩ := enclosed_split hwords h
    obtain ⟨rest, rfl⟩ :=
      flatMap_prefix hws (fun w hw => hwords w (List.mem_append_right _ hw)) hback
    exact ⟨front, rest, by simp⟩
  · rintro ⟨front, back, rfl⟩
    have hfront := enclosed_eq_flatMap front
    rw [enclosed] at hfront
    refine ⟨front.flatMap (fun w => '/' :: w), back.flatMap (fun w => w ++ ['/']), ?_⟩
    rw [enclosed, enclosed, List.flatMap_append, List.flatMap_append, ← List.cons_append,
      ← List.cons_append, hfront]
    simp

theorem contains_pair_iff (hne : words ≠ []) (hwords : ∀ w ∈ words, '/' ∉ w) {a b : String}
    (ha : '/' ∉ a.toList) (hb : '/' ∉ b.toList) :
    contains ("/" ++ String.ofList (List.intercalate ['/'] words) ++ "/")
      ("/" ++ a ++ "/" ++ b ++ "/") = true ↔ [a.toList, b.toList] <:+: words := by
  rw [contains, decide_eq_true_eq, ← enclosed_infix_iff (by simp [ha, hb]) hwords, enclosed_eq hne]
  simp [enclosed]

end Enclosed

end HeteroCluster.FilePaths
