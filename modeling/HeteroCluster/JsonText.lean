import HeteroCluster.GoStrings

namespace HeteroCluster.JsonText

open GoStrings

/-- The escapes of two characters in a JSON string, by code point. -/
def shortEscapes : List (Nat × Char) :=
  [(34, '"'), (92, '\\'), (8, 'b'), (12, 'f'), (10, 'n'), (13, 'r'), (9, 't')]

def hex4 (n : Nat) : List Char :=
  [(n / 4096).digitChar, (n / 256 % 16).digitChar, (n / 16 % 16).digitChar, (n % 16).digitChar]

/-- The characters that are written by their code point: control characters,
those of HTML and two line ends. -/
def isCoded (c : Char) : Bool := c.toNat < 32 || [38, 60, 62, 0x2028, 0x2029].contains c.toNat

def escapeChar (c : Char) : List Char :=
  match shortEscapes.lookup c.toNat with
  | some e => ['\\', e]
  | none => if isCoded c then '\\' :: 'u' :: hex4 c.toNat else [c]

/-- A string as `json.Marshal` writes it. -/
def jsonString (s : String) : String :=
  "\"" ++ String.ofList (s.toList.flatMap escapeChar) ++ "\""

/-- A slice that was never appended to is nil. -/
def jsonSlice (items : List String) : String :=
  if items = [] then "null" else "[" ++ String.intercalate "," items ++ "]"

def jsonObject (fields : List (String × String)) : String :=
  "\x7b" ++ String.intercalate "," (fields.map (fun f => jsonString f.1 ++ ":" ++ f.2)) ++ "\x7d"

/-- A field with `omitempty`. -/
def omitEmpty {α : Type} [DecidableEq α] (zero : α) (name : String) (value : α)
    (text : α → String) : List (String × String) :=
  if value = zero then [] else [(name, text value)]

section Injective

variable {c d : Char} {x y : List Char}

theorem shortEscapes_inj : ∀ p ∈ shortEscapes, ∀ q ∈ shortEscapes, p.2 = q.2 → p.1 = q.1 := by
  decide

theorem shortEscapes_ne : ∀ p ∈ shortEscapes, p.2 ≠ 'u' := by decide

theorem mem_of_lookup {n : Nat} {e : Char} (h : shortEscapes.lookup n = some e) :
    (n, e) ∈ shortEscapes := by
  obtain ⟨before, after, heq, -⟩ := List.lookup_eq_some_iff.mp h
  rw [heq]
  exact List.mem_append_right before List.mem_cons_self

theorem digitChar_inj {n m : Nat} (hn : n < 16) (hm : m < 16) (h : n.digitChar = m.digitChar) :
    n = m := by
  have hall : ∀ n < 16, ∀ m < 16, n.digitChar = m.digitChar → n = m := by decide
  exact hall n hn m hm h

theorem hex4_inj {n m : Nat} (hn : n < 65536) (hm : m < 65536) (h : hex4 n = hex4 m) : n = m := by
  simp only [hex4, List.cons.injEq, and_true] at h
  obtain ⟨h3, h2, h1, h0⟩ := h
  have h3 := digitChar_inj (by omega) (by omega) h3
  have h2 := digitChar_inj (by omega) (by omega) h2
  have h1 := digitChar_inj (by omega) (by omega) h1
  have h0 := digitChar_inj (by omega) (by omega) h0
  omega

theorem isCoded_lt (h : isCoded c = true) : c.toNat < 65536 := by
  simp only [isCoded, Bool.or_eq_true, decide_eq_true_eq, List.contains_iff_mem] at h
  obtain h | h := h
  · omega
  · simp at h
    omega

inductive Written (c : Char) : List Char → Prop
  | short {e : Char} (h : (c.toNat, e) ∈ shortEscapes) : Written c ['\\', e]
  | coded (h : c.toNat < 65536) : Written c ('\\' :: 'u' :: hex4 c.toNat)
  | plain (h : c ≠ '\\') : Written c [c]

theorem escapeChar_written (c : Char) : Written c (escapeChar c) := by
  unfold escapeChar
  split
  next e he => exact .short (mem_of_lookup he)
  next hnone =>
    split
    next hc => exact .coded (isCoded_lt hc)
    · refine .plain ?_
      rintro rfl
      exact absurd hnone (by decide)

theorem escapeChar_append_inj (h : escapeChar c ++ x = escapeChar d ++ y) : c = d ∧ x = y := by
  have hc := escapeChar_written c
  have hd := escapeChar_written d
  generalize escapeChar c = u at h hc
  generalize escapeChar d = v at h hd
  cases hc with
  | short hc =>
    cases hd with
    | short hd =>
      simp only [List.cons_append, List.nil_append, List.cons.injEq, true_and] at h
      exact ⟨Char.toNat_inj.mp (shortEscapes_inj _ hc _ hd h.1), h.2⟩
    | coded hd =>
      simp only [List.cons_append, List.nil_append, List.cons.injEq, true_and] at h
      exact absurd h.1 (shortEscapes_ne _ hc)
    | plain hd =>
      simp only [List.cons_append, List.nil_append, List.cons.injEq] at h
      exact absurd h.1.symm hd
  | coded hc =>
    cases hd with
    | short hd =>
      simp only [List.cons_append, List.nil_append, List.cons.injEq, true_and] at h
      exact absurd h.1.symm (shortEscapes_ne _ hd)
    | coded hd =>
      simp only [List.cons_append, List.cons.injEq, true_and] at h
      obtain ⟨hhex, hrest⟩ := List.append_inj h rfl
      exact ⟨Char.toNat_inj.mp (hex4_inj hc hd hhex), hrest⟩
    | plain hd =>
      simp only [List.cons_append, List.nil_append, List.cons.injEq] at h
      exact absurd h.1.symm hd
  | plain hc =>
    cases hd with
    | short hd =>
      simp only [List.cons_append, List.nil_append, List.cons.injEq] at h
      exact absurd h.1 hc
    | coded hd =>
      simp only [List.cons_append, List.nil_append, List.cons.injEq] at h
      exact absurd h.1 hc
    | plain hd => simpa using h

theorem head?_escapeChar_ne (c : Char) (x : List Char) : (escapeChar c ++ x).head? ≠ some '"' := by
  unfold escapeChar
  split
  · simp
  next hnone =>
    split
    · simp
    · intro h
      obtain rfl : c = '"' := by simpa using h
      exact absurd hnone (by decide)

theorem escape_append_inj {l m : List Char}
    (h : l.flatMap escapeChar ++ '"' :: x = m.flatMap escapeChar ++ '"' :: y) : l = m ∧ x = y := by
  induction l generalizing m with
  | nil =>
    cases m with
    | nil => simpa using h
    | cons d m =>
      rw [List.flatMap_cons, List.append_assoc] at h
      exact absurd (congrArg List.head? h).symm (head?_escapeChar_ne d _)
  | cons c l ih =>
    cases m with
    | nil =>
      rw [List.flatMap_cons, List.append_assoc] at h
      exact absurd (congrArg List.head? h) (head?_escapeChar_ne c _)
    | cons d m =>
      rw [List.flatMap_cons, List.flatMap_cons, List.append_assoc, List.append_assoc] at h
      obtain ⟨rfl, hrest⟩ := escapeChar_append_inj h
      obtain ⟨rfl, hxy⟩ := ih hrest
      exact ⟨rfl, hxy⟩

theorem jsonString_append_inj {s t : String}
    (h : (jsonString s).toList ++ x = (jsonString t).toList ++ y) : s = t ∧ x = y := by
  simp only [jsonString, String.toList_append, String.toList_ofList, List.append_assoc] at h
  obtain ⟨hlist, hxy⟩ := escape_append_inj (List.append_cancel_left h)
  exact ⟨String.toList_inj.mp hlist, hxy⟩

theorem jsonString_injective : Function.Injective jsonString := by
  intro s t h
  have htext : (jsonString s).toList ++ [] = (jsonString t).toList ++ [] := by rw [h]
  exact (jsonString_append_inj htext).1

theorem intercalate_cancel (sep : Char) {v w : List Char} {before after : List (List Char)}
    (h : [sep].intercalate (before ++ v :: after) = [sep].intercalate (before ++ w :: after)) :
    v = w := by
  induction before with
  | nil =>
    cases after with
    | nil => simpa [List.intercalate] using h
    | cons a after =>
      rw [List.nil_append, List.nil_append, intercalate_cons (List.cons_ne_nil a after),
        intercalate_cons (List.cons_ne_nil a after)] at h
      exact List.append_cancel_right h
  | cons a before ih =>
    have hne : ∀ x : List Char, before ++ x :: after ≠ [] := by simp
    rw [List.cons_append, List.cons_append, intercalate_cons (hne v), intercalate_cons (hne w)] at h
    exact ih (List.cons.inj (List.append_cancel_left h)).2

/-- Two objects that differ in one field at most agree in it if their texts do. -/
theorem jsonObject_field_inj (before : List (String × String)) {after : List (String × String)}
    {name v w : String}
    (h : jsonObject (before ++ (name, v) :: after) = jsonObject (before ++ (name, w) :: after)) :
    v = w := by
  rw [← String.toList_inj] at h
  simp only [jsonObject, String.toList_append, String.toList_intercalate, List.map_append,
    List.map_cons] at h
  have hfield := intercalate_cancel ',' (List.append_cancel_left (List.append_cancel_right h))
  exact String.toList_inj.mp (List.append_cancel_left hfield)

end Injective

theorem jsonSlice_ne_jsonObject (items : List String) (fields : List (String × String)) :
    jsonSlice items ≠ jsonObject fields := by
  intro h
  have hhead := congrArg (fun s => s.toList.head?) h
  unfold jsonSlice jsonObject at hhead
  split at hhead <;> simp at hhead

end HeteroCluster.JsonText
