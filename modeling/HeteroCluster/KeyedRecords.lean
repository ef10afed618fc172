import Mathlib.Data.List.AList

namespace HeteroCluster.KeyedRecords

variable {κ α : Type} [DecidableEq κ]

abbrev Records (κ α : Type) := AList (fun _ : κ => α)

section Lookup

variable {m : Records κ α} {k : κ} {a : α}

def values (m : Records κ α) : List α := m.entries.map Sigma.snd

theorem mem_values : a ∈ values m ↔ ∃ k, m.lookup k = some a := by
  rw [values, List.mem_map]
  constructor
  · rintro ⟨⟨k, b⟩, hb, rfl⟩
    exact ⟨k, AList.mem_lookup_iff.mpr hb⟩
  · rintro ⟨k, hk⟩
    exact ⟨⟨k, a⟩, AList.mem_lookup_iff.mp hk, rfl⟩

omit [DecidableEq κ] in
theorem length_keys (m : Records κ α) : m.keys.length = m.entries.length := by
  simp [AList.keys, List.keys]

theorem mem_keys_iff : k ∈ m.keys ↔ (m.lookup k).isSome := by
  rw [AList.lookup_isSome, AList.mem_keys]

/-- `maps.Equal`. -/
def mapsEqual [DecidableEq α] (m n : Records κ α) : Bool :=
  m.entries.length == n.entries.length && m.entries.all (fun e => n.lookup e.1 == some e.2)

theorem mapsEqual_iff [DecidableEq α] {m n : Records κ α} :
    mapsEqual m n = true ↔ ∀ k, m.lookup k = n.lookup k := by
  have hentries : (m.entries.all (fun e => n.lookup e.1 == some e.2)) = true ↔
      ∀ k a, m.lookup k = some a → n.lookup k = some a := by
    rw [List.all_eq_true]
    constructor
    · intro h k a hk
      simpa using h ⟨k, a⟩ (AList.mem_lookup_iff.mp hk)
    · rintro h ⟨k, a⟩ he
      simpa using h k a (AList.mem_lookup_iff.mpr he)
  rw [mapsEqual, Bool.and_eq_true, hentries, beq_iff_eq, ← length_keys, ← length_keys]
  constructor
  · rintro ⟨hlen, hsub⟩ k
    have hkeys : m.keys ⊆ n.keys := by
      intro k hk
      rw [mem_keys_iff] at hk ⊢
      obtain ⟨a, ha⟩ := Option.isSome_iff_exists.mp hk
      simp [hsub k a ha]
    have hperm : m.keys.Perm n.keys :=
      (List.subperm_of_subset m.keys_nodup hkeys).perm_of_length_le (Nat.le_of_eq hlen.symm)
    cases hm : m.lookup k with
    | some a => exact (hsub k a hm).symm
    | none =>
      have hk : k ∉ n.keys := by
        rw [← hperm.mem_iff, mem_keys_iff, hm]
        simp
      rw [mem_keys_iff, Option.not_isSome_iff_eq_none] at hk
      exact hk.symm
  · intro h
    have hperm : m.keys.Perm n.keys := by
      rw [List.perm_ext_iff_of_nodup m.keys_nodup n.keys_nodup]
      intro k
      rw [mem_keys_iff, mem_keys_iff, h k]
    refine ⟨hperm.length_eq, ?_⟩
    intro k a hk
    rw [← h k, hk]

end Lookup

section Store

variable (key : α → κ)

def store (m : Records κ α) (a : α) : Records κ α := m.insert (key a) a

/-- A loop that files records under their keys. A later one takes the place of
an earlier one with the same key. -/
def storeAll (l : List α) (m : Records κ α) : Records κ α := l.foldl (store key) m

variable {key} {m : Records κ α} {l : List α} {k : κ} {a : α}

theorem storeAll_cons (a : α) (l : List α) (m : Records κ α) :
    storeAll key (a :: l) m = storeAll key l (store key m a) := rfl

theorem storeAll_append (l l' : List α) (m : Records κ α) :
    storeAll key (l ++ l') m = storeAll key l' (storeAll key l m) := List.foldl_append

theorem lookup_storeAll_of_ne (h : ∀ b ∈ l, key b ≠ k) :
    (storeAll key l m).lookup k = m.lookup k := by
  induction l generalizing m with
  | nil => rfl
  | cons b l ih =>
    rw [storeAll_cons, ih (fun c hc => h c (List.mem_cons_of_mem b hc)), store,
      AList.lookup_insert_ne (h b List.mem_cons_self).symm]

theorem of_lookup_storeAll (h : (storeAll key l m).lookup k = some a) :
    a ∈ l ∧ key a = k ∨ m.lookup k = some a := by
  induction l generalizing m with
  | nil => exact Or.inr h
  | cons b l ih =>
    obtain ⟨ha, hk⟩ | hm := ih h
    · exact Or.inl ⟨List.mem_cons_of_mem b ha, hk⟩
    · by_cases hk : k = key b
      · rw [hk, store, AList.lookup_insert] at hm
        obtain rfl := Option.some.inj hm
        exact Or.inl ⟨List.mem_cons_self, hk.symm⟩
      · rw [store, AList.lookup_insert_ne hk] at hm
        exact Or.inr hm

/-- Under the key of a record that was stored stands one of the stored ones. -/
theorem exists_lookup_storeAll (key : α → κ) (m : Records κ α) (ha : a ∈ l) :
    ∃ b ∈ l, key b = key a ∧ (storeAll key l m).lookup (key a) = some b := by
  induction l generalizing m a with
  | nil => cases ha
  | cons c l ih =>
    by_cases hl : ∃ b ∈ l, key b = key a
    · obtain ⟨b, hb, hk⟩ := hl
      obtain ⟨b', hb', hk', hlook⟩ := ih (store key m c) hb
      rw [hk] at hk' hlook
      exact ⟨b', List.mem_cons_of_mem c hb', hk', hlook⟩
    · have hc : c = a := by
        obtain h | h := List.mem_cons.mp ha
        · exact h.symm
        · exact absurd ⟨a, h, rfl⟩ hl
      refine ⟨c, List.mem_cons_self, by rw [hc], ?_⟩
      rw [storeAll_cons, lookup_storeAll_of_ne (fun b hb hk => hl ⟨b, hb, hk⟩), store, hc,
        AList.lookup_insert]

theorem lookup_storeAll_of_mem (ha : a ∈ l) (h : ∀ b ∈ l, key b = key a → b = a) :
    (storeAll key l m).lookup (key a) = some a := by
  induction l generalizing m with
  | nil => cases ha
  | cons b l ih =>
    have hl : ∀ c ∈ l, key c = key a → c = a := fun c hc => h c (List.mem_cons_of_mem b hc)
    by_cases hmem : a ∈ l
    · exact ih hmem hl
    · obtain rfl := (List.mem_cons.mp ha).resolve_right hmem
      rw [storeAll_cons, lookup_storeAll_of_ne, store, AList.lookup_insert]
      intro c hc heq
      exact hmem (hl c hc heq ▸ hc)

theorem lookup_storeAll_iff (h : ∀ a ∈ l, ∀ b ∈ l, key b = key a → b = a) :
    (storeAll key l ∅).lookup k = some a ↔ a ∈ l ∧ key a = k := by
  constructor
  · intro hl
    obtain hl | hl := of_lookup_storeAll hl
    · exact hl
    · simp at hl
  · rintro ⟨ha, rfl⟩
    exact lookup_storeAll_of_mem ha (h a ha)

def Filed (key : α → κ) (m : Records κ α) : Prop := ∀ k a, m.lookup k = some a → key a = k

theorem Filed.storeAll (h : Filed key m) (l : List α) : Filed key (storeAll key l m) := by
  intro k a hl
  obtain ⟨-, hk⟩ | hm := of_lookup_storeAll hl
  · exact hk
  · exact h k a hm

theorem Filed.lookup (h : Filed key m) (ha : a ∈ values m) : m.lookup (key a) = some a := by
  obtain ⟨k, hk⟩ := mem_values.mp ha
  rwa [h k a hk]

theorem Filed.nodup (h : Filed key m) : ((values m).map key).Nodup := by
  have hkeys : (values m).map key = m.keys := by
    rw [values, List.map_map, AList.keys, List.keys]
    apply List.map_congr_left
    rintro ⟨k, a⟩ he
    exact h k a (AList.mem_lookup_iff.mpr he)
  rw [hkeys]
  exact m.keys_nodup

theorem Filed.countP_le (h : Filed key m) {p : α → Bool} {keys : List κ}
    (hk : ∀ a ∈ values m, p a = true → key a ∈ keys) : (values m).countP p ≤ keys.length := by
  rw [List.countP_eq_length_filter, ← List.length_map (f := key)]
  have hnodup : (((values m).filter p).map key).Nodup :=
    h.nodup.sublist (List.filter_sublist.map key)
  apply (List.subperm_of_subset hnodup _).length_le
  intro k hmem
  obtain ⟨a, ha, rfl⟩ := List.mem_map.mp hmem
  rw [List.mem_filter] at ha
  exact hk a ha.1 ha.2

end Store

section Index

variable {ι : Type} [DecidableEq ι] {key : α → ι} {table : Records κ α} {index : Records ι κ}
  {k l : κ} {a b : α}

/-- The index says under which key the record with a property stands, of which
there is at most one. -/
def Indexed (key : α → ι) (table : Records κ α) (index : Records ι κ) : Prop :=
  ∀ i k, index.lookup i = some k ↔ ∃ a, table.lookup k = some a ∧ key a = i

theorem indexed_empty : Indexed key (∅ : Records κ α) (∅ : Records ι κ) := by
  simp [Indexed]

theorem Indexed.unique (h : Indexed key table index) (hk : table.lookup k = some a)
    (hl : table.lookup l = some b) (hkey : key b = key a) : k = l := by
  have hk' := (h (key a) k).mpr ⟨a, hk, rfl⟩
  have hl' := (h (key a) l).mpr ⟨b, hl, hkey⟩
  exact Option.some.inj (hk'.symm.trans hl')

theorem Indexed.insert (h : Indexed key table index) (hk : table.lookup k = none)
    (hi : index.lookup (key a) = none) :
    Indexed key (table.insert k a) (index.insert (key a) k) := by
  intro i l
  by_cases hl : l = k
  · subst hl
    by_cases hia : i = key a
    · subst hia
      simp
    · have hold : index.lookup i ≠ some l := by
        rw [ne_eq, h, hk]
        simp
      simp [AList.lookup_insert_ne hia, hold, Ne.symm hia]
  · rw [AList.lookup_insert_ne hl, ← h]
    by_cases hia : i = key a
    · subst hia
      rw [AList.lookup_insert, hi]
      simpa using Ne.symm hl
    · rw [AList.lookup_insert_ne hia]

theorem Indexed.erase (h : Indexed key table index) (hk : table.lookup k = some a) :
    Indexed key (table.erase k) (index.erase (key a)) := by
  have hka := (h (key a) k).mpr ⟨a, hk, rfl⟩
  intro i l
  by_cases hl : l = k
  · subst hl
    by_cases hia : i = key a
    · subst hia
      simp
    · have hold : index.lookup i ≠ some l := by
        rw [ne_eq, h, hk]
        simpa using Ne.symm hia
      simp [AList.lookup_erase_ne hia, hold]
  · rw [AList.lookup_erase_ne hl, ← h]
    by_cases hia : i = key a
    · subst hia
      rw [AList.lookup_erase, hka]
      simpa using Ne.symm hl
    · rw [AList.lookup_erase_ne hia]

end Index

end HeteroCluster.KeyedRecords
