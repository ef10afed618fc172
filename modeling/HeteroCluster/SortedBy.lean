import Mathlib.Data.List.Nodup
import Mathlib.Data.List.Sort

namespace HeteroCluster.SortedBy

variable {α β : Type} [LinearOrder β] {f : α → β} {l l' : List α} {a : α} {n : Nat}

section Sorting

variable [DecidableRel fun a b => f a ≤ f b]

theorem pairwise_le_insertionSort (l : List α) :
    (l.insertionSort (fun a b => f a ≤ f b)).Pairwise (fun a b => f a ≤ f b) := by
  have htotal : Std.Total (fun a b => f a ≤ f b) := ⟨fun a b => le_total (f a) (f b)⟩
  have htrans : IsTrans α (fun a b => f a ≤ f b) := ⟨fun _ _ _ hab hbc => le_trans hab hbc⟩
  exact List.pairwise_insertionSort _ l

theorem pairwise_lt_insertionSort (hn : (l.map f).Nodup) :
    (l.insertionSort (fun a b => f a ≤ f b)).Pairwise (fun a b => f a < f b) := by
  have hle := pairwise_le_insertionSort (f := f) l
  have hperm := (List.perm_insertionSort (fun a b => f a ≤ f b) l).map f
  have hne := List.pairwise_map.mp (hperm.nodup_iff.mpr hn)
  exact (hle.and hne).imp (fun h => lt_of_le_of_ne h.1 h.2)

end Sorting

theorem eq_of_pairwise_lt (h : l.Pairwise (fun a b => f a < f b))
    (h' : l'.Pairwise (fun a b => f a < f b)) (hmem : ∀ a, a ∈ l ↔ a ∈ l') : l = l' := by
  have hne : ∀ {a b : α}, f a < f b → a ≠ b := by
    rintro a b hlt rfl
    exact lt_irrefl _ hlt
  have hperm : l.Perm l' := (List.perm_ext_iff_of_nodup (h.imp hne) (h'.imp hne)).mpr hmem
  refine hperm.eq_of_pairwise ?_ h h'
  intro a b _ _ hab hba
  exact absurd hba hab.asymm

/-- In a sorted list the members after the first ones are those with enough
members below them. -/
theorem mem_drop_iff (h : l.Pairwise (fun a b => f a < f b)) :
    a ∈ l.drop n ↔ a ∈ l ∧ n ≤ l.countP (fun b => decide (f b < f a)) := by
  induction l generalizing n with
  | nil => simp
  | cons b l ih =>
    obtain ⟨hb, hl⟩ := List.pairwise_cons.mp h
    cases n with
    | zero => simp
    | succ n =>
      rw [List.drop_succ_cons, ih hl, List.mem_cons]
      constructor
      · rintro ⟨ha, hn⟩
        refine ⟨.inr ha, ?_⟩
        rw [List.countP_cons_of_pos (by simpa using hb a ha)]
        omega
      · rintro ⟨rfl | ha, hn⟩
        · -- the first member has none below it
          have hnone : (a :: l).countP (fun b => decide (f b < f a)) = 0 := by
            rw [List.countP_eq_zero]
            simpa using fun b hmem => (hb b hmem).le
          omega
        · rw [List.countP_cons_of_pos (by simpa using hb a ha)] at hn
          exact ⟨ha, by omega⟩

theorem getElem?_countP (h : l.Pairwise (fun a b => f a < f b)) (ha : a ∈ l) :
    l[l.countP (fun b => decide (f b < f a))]? = some a := by
  induction l with
  | nil => cases ha
  | cons b l ih =>
    obtain ⟨hb, hl⟩ := List.pairwise_cons.mp h
    obtain rfl | ha := List.mem_cons.mp ha
    · have hnone : (a :: l).countP (fun b => decide (f b < f a)) = 0 := by
        rw [List.countP_eq_zero]
        simpa using fun b hmem => (hb b hmem).le
      rw [hnone]
      rfl
    · rw [List.countP_cons_of_pos (by simpa using hb a ha), List.getElem?_cons_succ]
      exact ih hl ha

end HeteroCluster.SortedBy
