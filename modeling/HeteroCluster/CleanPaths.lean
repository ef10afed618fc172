import HeteroCluster.GoStrings

namespace HeteroCluster.CleanPaths

open GoStrings

variable {rooted : Bool} {kept l : List (List Char)}

/-- A component is skipped, or takes the last one off, or is kept; a parent
component is kept over nothing but parent components. -/
theorem cleanComponents_cons (rooted : Bool) (kept l : List (List Char)) (a : List Char) :
    ∃ kept', cleanComponents rooted kept (a :: l) = cleanComponents rooted kept' l ∧
      (kept' = kept ∨ kept' = kept.tail ∨ kept' = a :: kept ∧ (a ≠ [] ∧ a ≠ ['.']) ∧
        (a = ['.', '.'] → kept = [] ∨ kept.head? = some ['.', '.'])) := by
  rw [cleanComponents.eq_def]
  dsimp only
  split
  · exact ⟨kept, rfl, .inl rfl⟩
  next hskip =>
    have hkeep := not_or.mp hskip
    split
    next ha =>
      split
      · refine ⟨_, rfl, ?_⟩
        cases rooted
        · simp [ha]
        · simp
      · split
        next htop => exact ⟨_, rfl, .inr (.inr ⟨rfl, hkeep, fun _ => .inr (by simp [htop])⟩)⟩
        · exact ⟨_, rfl, .inr (.inl rfl)⟩
    next ha => exact ⟨_, rfl, .inr (.inr ⟨rfl, hkeep, fun h => absurd h ha⟩)⟩

theorem mem_of_mem_cleanComponents {w : List Char} (h : w ∈ cleanComponents rooted kept l) :
    w ∈ kept ∨ w ∈ l := by
  induction l generalizing kept with
  | nil => exact .inl h
  | cons a l ih =>
    obtain ⟨kept', heq, hkept⟩ := cleanComponents_cons rooted kept l a
    rw [heq] at h
    obtain h | h := ih h
    · obtain rfl | rfl | ⟨rfl, -⟩ := hkept
      · exact .inl h
      · exact .inl (List.mem_of_mem_tail h)
      · obtain rfl | h := List.mem_cons.mp h
        · exact .inr List.mem_cons_self
        · exact .inl h
    · exact .inr (List.mem_cons_of_mem a h)

theorem cleanComponents_bottom (hk : ['.', '.'] ∈ kept → kept.getLast? = some ['.', '.'])
    (h : ['.', '.'] ∈ cleanComponents rooted kept l) :
    (cleanComponents rooted kept l).getLast? = some ['.', '.'] := by
  induction l generalizing kept with
  | nil => exact hk h
  | cons a l ih =>
    obtain ⟨kept', heq, hkept⟩ := cleanComponents_cons rooted kept l a
    rw [heq] at h ⊢
    refine ih ?_ h
    intro hm
    obtain rfl | rfl | ⟨rfl, -, ha⟩ := hkept
    · exact hk hm
    · rw [List.getLast?_tail, if_neg, hk (List.mem_of_mem_tail hm)]
      intro hlen
      have hnil : kept.tail = [] := by
        rw [List.eq_nil_iff_length_eq_zero, List.length_tail]
        omega
      rw [hnil] at hm
      cases hm
    · cases kept with
      | nil => simpa [eq_comm] using hm
      | cons top below =>
        rw [List.getLast?_cons_cons]
        apply hk
        obtain hm | hm := List.mem_cons.mp hm
        · have htop := ha hm.symm
          simp_all
        · exact hm

structure Plain (w : List Char) : Prop where
  some : w ≠ []
  dot : w ≠ ['.']
  parent : w ≠ ['.', '.']

theorem cleanComponents_append (rooted : Bool) (kept l l' : List (List Char)) :
    cleanComponents rooted kept (l ++ l') =
      cleanComponents rooted (cleanComponents rooted kept l) l' := by
  induction l generalizing kept with
  | nil => rfl
  | cons a l ih =>
    rw [List.cons_append, cleanComponents.eq_def, cleanComponents.eq_def rooted kept (a :: l)]
    dsimp only
    repeat' split
    all_goals exact ih _

def isKept (w : List Char) : Bool := decide (w ≠ [] ∧ w ≠ ['.'])

theorem cleanComponents_of_forall_ne (hl : ∀ w ∈ l, w ≠ ['.', '.']) :
    cleanComponents rooted kept l = (l.filter isKept).reverse ++ kept := by
  induction l generalizing kept with
  | nil => rfl
  | cons a l ih =>
    have hrest := fun w hw => hl w (List.mem_cons_of_mem a hw)
    rw [cleanComponents.eq_def]
    dsimp only
    split
    next hskip =>
      rw [ih hrest, List.filter_cons_of_neg]
      simpa [isKept, or_iff_not_imp_left] using hskip
    next hkeep =>
      rw [if_neg (hl a List.mem_cons_self), ih hrest, List.filter_cons_of_pos]
      · simp
      · simpa [isKept] using hkeep

theorem cleanComponents_plain (hl : ∀ w ∈ l, Plain w) :
    cleanComponents rooted kept l = l.reverse ++ kept := by
  rw [cleanComponents_of_forall_ne (fun w hw => (hl w hw).parent), List.filter_eq_self.mpr]
  intro w hw
  exact decide_eq_true ⟨(hl w hw).some, (hl w hw).dot⟩

theorem ne_of_mem_cleanComponents {w : List Char} (hk : ∀ w ∈ kept, w ≠ [] ∧ w ≠ ['.'])
    (h : w ∈ cleanComponents rooted kept l) : w ≠ [] ∧ w ≠ ['.'] := by
  induction l generalizing kept with
  | nil => exact hk w h
  | cons a l ih =>
    obtain ⟨kept', heq, hkept⟩ := cleanComponents_cons rooted kept l a
    rw [heq] at h
    refine ih ?_ h
    obtain rfl | rfl | ⟨rfl, ha, -⟩ := hkept
    · exact hk
    · exact fun w hw => hk w (List.mem_of_mem_tail hw)
    · simpa using ⟨ha, hk⟩

variable {s : String}

theorem splitOn_of_clean (hs : pathClean s = s) (hslash : s.toList.head? ≠ some '/')
    (hdot : s ≠ ".") :
    s.toList.splitOn '/' = (cleanComponents false [] (s.toList.splitOn '/')).reverse := by
  have hroot : (s.toList.head? == some '/') = false := by simpa using hslash
  simp only [pathClean, hroot, Bool.false_eq_true, if_false] at hs
  set kept := cleanComponents false [] (s.toList.splitOn '/') with hkept
  split at hs
  · exact absurd hs.symm hdot
  next hne =>
    have hs' : s.toList = List.intercalate ['/'] kept.reverse := by rw [← hs]; simp
    have hslashes : ∀ w ∈ kept.reverse, '/' ∉ w := by
      intro w hw hc
      obtain hw | hw := mem_of_mem_cleanComponents (List.mem_reverse.mp hw)
      · cases hw
      · simpa using not_of_mem_splitOnP hw '/' hc
    have hsome : kept.reverse ≠ [] := by
      intro hnil
      simp [hnil] at hne
    rw [hs', List.splitOn_intercalate '/' hslashes hsome]

theorem parent_first_of_clean (hs : pathClean s = s) (hslash : s.toList.head? ≠ some '/')
    (hm : ['.', '.'] ∈ s.toList.splitOn '/') :
    s = ".." ∨ "../".toList.isPrefixOf s.toList = true := by
  have hdot : s ≠ "." := by
    rintro rfl
    exact absurd hm (by decide)
  have hsplit := splitOn_of_clean hs hslash hdot
  rw [hsplit, List.mem_reverse] at hm
  have hlast := cleanComponents_bottom (by simp) hm
  rw [← List.head?_reverse, ← hsplit] at hlast
  obtain ⟨rest, hrest⟩ := List.head?_eq_some_iff.mp hlast
  have hjoin : List.intercalate ['/'] (s.toList.splitOn '/') = s.toList :=
    List.intercalate_splitOn '/'
  rw [hrest] at hjoin
  cases rest with
  | nil =>
    left
    apply String.toList_injective
    rw [← hjoin]
    decide
  | cons w rest =>
    right
    rw [← hjoin, List.intercalate_cons_cons]
    rfl

/-- A clean relative path that does not start with a dot stays below its root. -/
theorem not_parent_of_clean (hs : pathClean s = s) (hslash : s.toList.head? ≠ some '/')
    (hdot : s.toList.head? ≠ some '.') : ['.', '.'] ∉ s.toList.splitOn '/' := by
  intro hm
  obtain rfl | hstart := parent_first_of_clean hs hslash hm
  · exact hdot (by decide)
  · obtain ⟨rest, hrest⟩ := List.isPrefixOf_iff_prefix.mp hstart
    rw [← hrest] at hdot
    exact hdot rfl

/-- The components of a clean relative path, but for the path of the directory
itself and those that leave it, name what they lead through. -/
theorem plain_of_clean (hs : pathClean s = s) (hslash : s.toList.head? ≠ some '/') (hdot : s ≠ ".")
    (hparent : s ≠ "..") (hup : "../".toList.isPrefixOf s.toList = false) :
    ∀ w ∈ s.toList.splitOn '/', Plain w := by
  intro w hw
  have hne : w ≠ ['.', '.'] := by
    rintro rfl
    obtain rfl | h := parent_first_of_clean hs hslash hw
    · exact hparent rfl
    · rw [hup] at h
      cases h
  rw [splitOn_of_clean hs hslash hdot, List.mem_reverse] at hw
  obtain ⟨hsome, hnodot⟩ := ne_of_mem_cleanComponents (by simp) hw
  exact ⟨hsome, hnodot, hne⟩

/-- Where a path leads, from the root of a tree: the names on the way. -/
def resolve (path : String) : List (List Char) :=
  (cleanComponents true [] (path.toList.splitOn '/')).reverse

theorem not_parent_of_rooted (hk : ['.', '.'] ∉ kept) :
    ['.', '.'] ∉ cleanComponents true kept l := by
  induction l generalizing kept with
  | nil => exact hk
  | cons a l ih =>
    rw [cleanComponents.eq_def]
    dsimp only
    split
    · exact ih hk
    · split
      · cases kept with
        | nil => exact ih (by simp)
        | cons top below =>
          dsimp only
          split
          next htop => simp [htop] at hk
          · exact ih (fun hm => hk (List.mem_cons_of_mem top hm))
      next ha =>
        apply ih
        rw [List.mem_cons, not_or]
        exact ⟨Ne.symm ha, hk⟩

theorem plain_of_mem_resolve {path : String} {w : List Char} (h : w ∈ resolve path) :
    Plain w ∧ '/' ∉ w := by
  rw [resolve, List.mem_reverse] at h
  obtain ⟨hsome, hdot⟩ := ne_of_mem_cleanComponents (by simp) h
  refine ⟨⟨hsome, hdot, ?_⟩, ?_⟩
  · rintro rfl
    exact not_parent_of_rooted (by simp) h
  · intro hc
    obtain h | h := mem_of_mem_cleanComponents h
    · cases h
    · simpa using not_of_mem_splitOnP h '/' hc

end HeteroCluster.CleanPaths
