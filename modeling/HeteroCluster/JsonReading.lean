import HeteroCluster.JsonText
import Mathlib

namespace HeteroCluster.JsonReading

open GoStrings DecimalText JsonText

/-- Nothing more, or a character that may stand after a value. -/
def Stops (x : List Char) : Prop := ∀ c ∈ x.head?, c = ',' ∨ c = ']' ∨ c = '\x7d'

inductive Value : String → Prop
  | text (s : String) : Value (jsonString s)
  | number (n : Int) : Value (toString n)
  | slice {items : List String} (h : ∀ i ∈ items, Value i) : Value (jsonSlice items)
  | object {fields : List (String × String)} (h : ∀ f ∈ fields, Value f.2) :
    Value (jsonObject fields)

/-- The text of the value shows where it ends. -/
def Readable (v : String) : Prop :=
  ∀ w x y, Value w → Stops x → Stops y → v.toList ++ x = w.toList ++ y → v = w ∧ x = y

variable {x y : List Char} {close : Char}

section Join

variable {us vs : List (List Char)}

theorem stops_join (hclose : close = ']' ∨ close = '\x7d') (us : List (List Char)) (x : List Char) :
    Stops (us.flatMap (fun u => ',' :: u) ++ close :: x) := by
  intro c hc
  cases us with
  | nil =>
    obtain rfl : close = c := by simpa using hc
    exact .inr hclose
  | cons u us =>
    obtain rfl : ',' = c := by simpa using hc
    exact .inl rfl

theorem joined_inj (hclose : close = ']' ∨ close = '\x7d')
    (hread : ∀ u ∈ us, ∀ v ∈ vs, ∀ x y, Stops x → Stops y → u ++ x = v ++ y → u = v ∧ x = y)
    (h : us.flatMap (fun u => ',' :: u) ++ close :: x =
      vs.flatMap (fun v => ',' :: v) ++ close :: y) : us = vs ∧ x = y := by
  have hne : close ≠ ',' := by
    rintro rfl
    obtain h | h := hclose <;> cases h
  induction us generalizing vs with
  | nil =>
    cases vs with
    | nil => simpa using h
    | cons v vs =>
      simp only [List.flatMap_nil, List.flatMap_cons, List.nil_append, List.cons_append,
        List.cons.injEq] at h
      exact absurd h.1 hne
  | cons u us ih =>
    cases vs with
    | nil =>
      simp only [List.flatMap_nil, List.flatMap_cons, List.nil_append, List.cons_append,
        List.cons.injEq] at h
      exact absurd h.1.symm hne
    | cons v vs =>
      simp only [List.flatMap_cons, List.cons_append, List.append_assoc, List.cons.injEq,
        true_and] at h
      obtain ⟨rfl, hrest⟩ := hread u List.mem_cons_self v List.mem_cons_self _ _
        (stops_join hclose us x) (stops_join hclose vs y) h
      have hread' := fun u hu v hv =>
        hread u (List.mem_cons_of_mem _ hu) v (List.mem_cons_of_mem _ hv)
      obtain ⟨rfl, hxy⟩ := ih hread' hrest
      exact ⟨rfl, hxy⟩

theorem intercalate_cons_append (u : List Char) (us : List (List Char)) (x : List Char) :
    [','].intercalate (u :: us) ++ x = u ++ (us.flatMap (fun u => ',' :: u) ++ x) := by
  induction us generalizing u with
  | nil => simp [List.intercalate]
  | cons v us ih =>
    rw [intercalate_cons (List.cons_ne_nil v us), List.append_assoc, List.cons_append, ih]
    simp

theorem intercalate_inj (hclose : close = ']' ∨ close = '\x7d')
    (hread : ∀ u ∈ us, ∀ v ∈ vs, ∀ x y, Stops x → Stops y → u ++ x = v ++ y → u = v ∧ x = y)
    (hus : ∀ u ∈ us, ¬ Stops u) (hvs : ∀ v ∈ vs, ¬ Stops v)
    (h : [','].intercalate us ++ close :: x = [','].intercalate vs ++ close :: y) :
    us = vs ∧ x = y := by
  have hfirst : ∀ {u z z' : List Char}, ¬ Stops u → close :: z ≠ u ++ z' := by
    intro u z z' hu heq
    apply hu
    intro c hc
    obtain ⟨t, rfl⟩ := List.head?_eq_some_iff.mp hc
    rw [List.cons_append, List.cons.injEq] at heq
    rw [← heq.1]
    exact .inr hclose
  cases us with
  | nil =>
    cases vs with
    | nil => simpa [List.intercalate] using h
    | cons v vs =>
      rw [intercalate_cons_append] at h
      exact absurd h (hfirst (hvs v List.mem_cons_self))
  | cons u us =>
    cases vs with
    | nil =>
      rw [intercalate_cons_append] at h
      exact absurd h.symm (hfirst (hus u List.mem_cons_self))
    | cons v vs =>
      rw [intercalate_cons_append, intercalate_cons_append] at h
      obtain ⟨rfl, hrest⟩ := hread u List.mem_cons_self v List.mem_cons_self _ _
        (stops_join hclose us x) (stops_join hclose vs y) h
      have hread' := fun u hu v hv =>
        hread u (List.mem_cons_of_mem _ hu) v (List.mem_cons_of_mem _ hv)
      obtain ⟨rfl, hxy⟩ := joined_inj hclose hread' hrest
      exact ⟨rfl, hxy⟩

end Join

section Numbers

theorem toString_injective : Function.Injective (toString : Int → String) := by
  intro n m h
  exact Int.repr_inj.mp h

def numeric (c : Char) : Bool := c.isDigit || c == '-'

theorem numeric_of_mem {n : Int} {c : Char} (hc : c ∈ (toString n).toList) : numeric c = true := by
  obtain rfl | hd := of_mem_toString hc
  · rfl
  · rw [numeric, hd, Bool.true_or]

theorem takeWhile_number (n : Int) (hx : Stops x) :
    ((toString n).toList ++ x).takeWhile numeric = (toString n).toList := by
  have hrest : x.takeWhile numeric = [] := by
    cases x with
    | nil => rfl
    | cons c x =>
      obtain rfl | rfl | rfl := hx c rfl <;> rfl
  rw [List.takeWhile_append_of_pos (fun c hc => numeric_of_mem hc), hrest, List.append_nil]

theorem number_append_inj {n m : Int} (hx : Stops x) (hy : Stops y)
    (h : (toString n).toList ++ x = (toString m).toList ++ y) : n = m ∧ x = y := by
  have hprinted := congrArg (List.takeWhile numeric) h
  rw [takeWhile_number n hx, takeWhile_number m hy] at hprinted
  rw [hprinted] at h
  exact ⟨toString_injective (String.toList_inj.mp hprinted), List.append_cancel_left h⟩

theorem exists_numeric (n : Int) : ∃ c t, (toString n).toList = c :: t ∧ numeric c = true := by
  obtain ⟨c, t, ht⟩ := List.exists_cons_of_ne_nil (toString_ne_nil n)
  refine ⟨c, t, ht, numeric_of_mem (n := n) ?_⟩
  rw [ht]
  exact List.mem_cons_self

end Numbers

def kind (v : List Char) : Nat :=
  match v.head? with
  | some '"' => 0
  | some '\x7b' => 1
  | some '[' => 2
  | some 'n' => 2
  | _ => 3

theorem kind_text (s : String) (x : List Char) : kind ((jsonString s).toList ++ x) = 0 := by
  simp [jsonString, kind]

theorem kind_object (fields : List (String × String)) (x : List Char) :
    kind ((jsonObject fields).toList ++ x) = 1 := by
  simp [jsonObject, kind]

theorem kind_slice (items : List String) (x : List Char) :
    kind ((jsonSlice items).toList ++ x) = 2 := by
  unfold jsonSlice
  split <;> simp [kind]

theorem kind_number (n : Int) (x : List Char) : kind ((toString n).toList ++ x) = 3 := by
  obtain ⟨c, t, ht, hc⟩ := exists_numeric n
  have hne : ∀ d, numeric d = false → some c ≠ some d := by
    rintro d hd heq
    rw [← Option.some.inj heq, hc] at hd
    cases hd
  rw [ht, List.cons_append, kind, List.head?_cons]
  split
  next h => exact absurd h (hne _ rfl)
  next h => exact absurd h (hne _ rfl)
  next h => exact absurd h (hne _ rfl)
  next h => exact absurd h (hne _ rfl)
  · rfl

theorem Value.not_stops {v : String} (h : Value v) : ¬ Stops v.toList := by
  intro hstops
  cases h with
  | text s => simpa [jsonString] using hstops '"' (by simp [jsonString])
  | number n =>
    obtain ⟨c, t, ht, hc⟩ := exists_numeric n
    obtain rfl | rfl | rfl := hstops c (by rw [ht]; rfl) <;> cases hc
  | @slice items h =>
    by_cases hnil : items = []
    · simpa [jsonSlice, hnil] using hstops 'n' (by simp [jsonSlice, hnil])
    · simpa [jsonSlice, hnil] using hstops '[' (by simp [jsonSlice, hnil])
  | object _ => simpa [jsonObject] using hstops '\x7b' (by simp [jsonObject])

section Containers

theorem toList_jsonSlice {items : List String} (h : items ≠ []) (x : List Char) :
    (jsonSlice items).toList ++ x =
      '[' :: ([','].intercalate (items.map String.toList) ++ ']' :: x) := by
  simp [jsonSlice, h, String.toList_intercalate]

def fieldText (f : String × String) : List Char := (jsonString f.1).toList ++ ':' :: f.2.toList

theorem fieldText_injective : Function.Injective fieldText := by
  rintro ⟨name, v⟩ ⟨name', w⟩ h
  obtain ⟨rfl, hrest⟩ := jsonString_append_inj h
  obtain rfl := String.toList_inj.mp (List.cons.inj hrest).2
  rfl

theorem toList_jsonObject (fields : List (String × String)) (x : List Char) :
    (jsonObject fields).toList ++ x =
      '\x7b' :: ([','].intercalate (fields.map fieldText) ++ '\x7d' :: x) := by
  have hmap : fields.map (String.toList ∘ fun f => jsonString f.1 ++ ":" ++ f.2) =
      fields.map fieldText := by
    apply List.map_congr_left
    intro f _
    simp [fieldText]
  simp [jsonObject, String.toList_intercalate, hmap]

theorem not_stops_fieldText (f : String × String) : ¬ Stops (fieldText f) := by
  intro h
  simpa [fieldText, jsonString] using h '"' (by simp [fieldText, jsonString])

theorem jsonSlice_append_inj {items items' : List String} (h : ∀ i ∈ items, Readable i)
    (hv : ∀ i ∈ items, Value i) (hv' : ∀ i ∈ items', Value i)
    (heq : (jsonSlice items).toList ++ x = (jsonSlice items').toList ++ y) :
    items = items' ∧ x = y := by
  have hread : ∀ u ∈ items.map String.toList, ∀ v ∈ items'.map String.toList, ∀ x y, Stops x →
      Stops y → u ++ x = v ++ y → u = v ∧ x = y := by
    intro u hu v hv x y hx hy huv
    obtain ⟨i, hi, rfl⟩ := List.mem_map.mp hu
    obtain ⟨j, hj, rfl⟩ := List.mem_map.mp hv
    obtain ⟨rfl, hxy⟩ := h i hi j x y (hv' j hj) hx hy huv
    exact ⟨rfl, hxy⟩
  have hstops : ∀ {l : List String}, (∀ i ∈ l, Value i) → ∀ u ∈ l.map String.toList, ¬ Stops u := by
    intro l hl u hu
    obtain ⟨i, hi, rfl⟩ := List.mem_map.mp hu
    exact (hl i hi).not_stops
  by_cases hnil : items = []
  · by_cases hnil' : items' = []
    · subst hnil hnil'
      exact ⟨rfl, List.append_cancel_left heq⟩
    · rw [toList_jsonSlice hnil'] at heq
      simp [hnil, jsonSlice] at heq
  · by_cases hnil' : items' = []
    · rw [toList_jsonSlice hnil] at heq
      simp [hnil', jsonSlice] at heq
    · rw [toList_jsonSlice hnil, toList_jsonSlice hnil', List.cons.injEq] at heq
      obtain ⟨hitems, hxy⟩ := intercalate_inj (.inl rfl) hread (hstops hv) (hstops hv') heq.2
      exact ⟨List.map_injective_iff.mpr (fun _ _ => String.toList_inj.mp) hitems, hxy⟩

theorem jsonObject_append_inj {fields fields' : List (String × String)}
    (h : ∀ f ∈ fields, Readable f.2) (hv' : ∀ f ∈ fields', Value f.2)
    (heq : (jsonObject fields).toList ++ x = (jsonObject fields').toList ++ y) :
    fields = fields' ∧ x = y := by
  rw [toList_jsonObject, toList_jsonObject, List.cons.injEq] at heq
  have hread : ∀ u ∈ fields.map fieldText, ∀ v ∈ fields'.map fieldText, ∀ x y, Stops x → Stops y →
      u ++ x = v ++ y → u = v ∧ x = y := by
    intro u hu v hv x y hx hy huv
    obtain ⟨f, hf, rfl⟩ := List.mem_map.mp hu
    obtain ⟨g, hg, rfl⟩ := List.mem_map.mp hv
    simp only [fieldText, List.append_assoc, List.cons_append] at huv ⊢
    obtain ⟨hname, hrest⟩ := jsonString_append_inj huv
    obtain ⟨hvalue, hxy⟩ := h f hf g.2 x y (hv' g hg) hx hy (List.cons.inj hrest).2
    rw [hname, hvalue]
    exact ⟨rfl, hxy⟩
  have hstops : ∀ l : List (String × String), ∀ u ∈ l.map fieldText, ¬ Stops u := by
    intro l u hu
    obtain ⟨f, -, rfl⟩ := List.mem_map.mp hu
    exact not_stops_fieldText f
  obtain ⟨hfields, hxy⟩ := intercalate_inj (.inr rfl) hread (hstops _) (hstops _) heq.2
  exact ⟨List.map_injective_iff.mpr fieldText_injective hfields, hxy⟩

end Containers

theorem Value.readable {v : String} (hv : Value v) : Readable v := by
  induction hv with
  | text s =>
    intro w x y hw hx hy h
    cases hw with
    | text t =>
      obtain ⟨rfl, hxy⟩ := jsonString_append_inj h
      exact ⟨rfl, hxy⟩
    | number _ | slice _ | object _ =>
      have hkind := congrArg kind h
      simp [kind_text, kind_number, kind_slice, kind_object, -Int.toString_eq_repr] at hkind
  | number n =>
    intro w x y hw hx hy h
    cases hw with
    | number m =>
      obtain ⟨rfl, hxy⟩ := number_append_inj hx hy h
      exact ⟨rfl, hxy⟩
    | text _ | slice _ | object _ =>
      have hkind := congrArg kind h
      simp [kind_text, kind_number, kind_slice, kind_object, -Int.toString_eq_repr] at hkind
  | slice hitems ih =>
    intro w x y hw hx hy h
    cases hw with
    | slice hitems' =>
      obtain ⟨rfl, hxy⟩ := jsonSlice_append_inj ih hitems hitems' h
      exact ⟨rfl, hxy⟩
    | text _ | number _ | object _ =>
      have hkind := congrArg kind h
      simp [kind_text, kind_number, kind_slice, kind_object, -Int.toString_eq_repr] at hkind
  | object _ ih =>
    intro w x y hw hx hy h
    cases hw with
    | object hfields' =>
      obtain ⟨rfl, hxy⟩ := jsonObject_append_inj ih hfields' h
      exact ⟨rfl, hxy⟩
    | text _ | number _ | slice _ =>
      have hkind := congrArg kind h
      simp [kind_text, kind_number, kind_slice, kind_object, -Int.toString_eq_repr] at hkind

theorem jsonSlice_inj {items items' : List String} (hv : ∀ i ∈ items, Value i)
    (hv' : ∀ i ∈ items', Value i) (h : jsonSlice items = jsonSlice items') : items = items' :=
  (jsonSlice_append_inj (fun i hi => (hv i hi).readable) hv hv'
    (congrArg (fun u => u.toList ++ []) h)).1

theorem jsonObject_inj {fields fields' : List (String × String)} (hv : ∀ f ∈ fields, Value f.2)
    (hv' : ∀ f ∈ fields', Value f.2) (h : jsonObject fields = jsonObject fields') :
    fields = fields' :=
  (jsonObject_append_inj (fun f hf => (hv f hf).readable) hv'
    (congrArg (fun u => u.toList ++ []) h)).1

theorem jsonSlice_map_injective {α : Type} {text : α → String} (hv : ∀ a, Value (text a))
    (hinj : Function.Injective text) :
    Function.Injective (fun l : List α => jsonSlice (l.map text)) := by
  have hitems : ∀ l : List α, ∀ i ∈ l.map text, Value i := by
    intro l i hi
    obtain ⟨a, -, rfl⟩ := List.mem_map.mp hi
    exact hv a
  intro l l' h
  exact List.map_injective_iff.mpr hinj (jsonSlice_inj (hitems l) (hitems l') h)

theorem Value.slice_map {α : Type} {text : α → String} (hv : ∀ a, Value (text a)) (l : List α) :
    Value (jsonSlice (l.map text)) := by
  refine .slice ?_
  intro i hi
  obtain ⟨a, -, rfl⟩ := List.mem_map.mp hi
  exact hv a

section OmitEmpty

variable {α : Type} [DecidableEq α] {zero v w : α} {name : String} {text : α → String}

theorem value_omitEmpty (h : Value (text v)) : ∀ f ∈ omitEmpty zero name v text, Value f.2 := by
  intro f hf
  unfold omitEmpty at hf
  split at hf
  · cases hf
  · rw [List.mem_singleton.mp hf]
    exact h

/-- A field that may be left out is still read, if no later field has its name. -/
theorem omitEmpty_append_inj (htext : Function.Injective text) {rest rest' : List (String × String)}
    (hrest : ∀ f ∈ rest, f.1 ≠ name) (hrest' : ∀ f ∈ rest', f.1 ≠ name)
    (h : omitEmpty zero name v text ++ rest = omitEmpty zero name w text ++ rest') :
    v = w ∧ rest = rest' := by
  by_cases hv : v = zero
  · by_cases hw : w = zero
    · rw [hv, hw] at h ⊢
      exact ⟨rfl, List.append_cancel_left h⟩
    · simp only [omitEmpty, if_pos hv, if_neg hw, List.nil_append, List.cons_append] at h
      exact absurd rfl (hrest (name, text w) (by simp [h]))
  · by_cases hw : w = zero
    · simp only [omitEmpty, if_neg hv, if_pos hw, List.nil_append, List.cons_append] at h
      exact absurd rfl (hrest' (name, text v) (by simp [← h]))
    · simp only [omitEmpty, if_neg hv, if_neg hw, List.cons_append, List.nil_append,
        List.cons.injEq, Prod.mk.injEq, true_and] at h
      exact ⟨htext h.1, h.2⟩

theorem omitEmpty_inj (htext : Function.Injective text)
    (h : omitEmpty zero name v text = omitEmpty zero name w text) : v = w := by
  have happend : omitEmpty zero name v text ++ [] = omitEmpty zero name w text ++ [] := by rw [h]
  exact (omitEmpty_append_inj htext (by simp) (by simp) happend).1

end OmitEmpty

end HeteroCluster.JsonReading
