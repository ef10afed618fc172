import HeteroCluster.FailFast
import Mathlib.Algebra.BigOperators.Group.List.Basic
import Mathlib.Algebra.Order.Monoid.Prod
import Mathlib.Data.List.Nodup

namespace HeteroCluster.FreshTables

open FailFast

variable {ε α β κ M : Type} {f : β → α → Except ε β} {keys : α → List κ} {used : β → List κ}
  {l : List α} {s s' : β}

/-- A loop that enters the keys of what it meets in a table, and refuses a key
that it has met. -/
structure Enters (f : β → α → Except ε β) (keys : α → List κ) (used : β → List κ) : Prop where
  fresh : ∀ {s a s'}, f s a = .ok s' → (keys a).Nodup ∧ ∀ k ∈ keys a, k ∉ used s
  enter : ∀ {s a s'}, f s a = .ok s' → ∀ k, k ∈ used s' ↔ k ∈ keys a ∨ k ∈ used s

/-- The keys of a whole run are distinct, and not among those of its start. -/
theorem Enters.run (h : Enters f keys used) (hrun : l.foldlM f s = .ok s') :
    (l.flatMap keys).Nodup ∧ (∀ k ∈ l.flatMap keys, k ∉ used s) ∧
      ∀ k, k ∈ used s' ↔ k ∈ l.flatMap keys ∨ k ∈ used s := by
  induction l generalizing s with
  | nil =>
    obtain rfl := pure_eq_ok.mp hrun
    simp
  | cons a l ih =>
    rw [List.foldlM_cons, bind_eq_ok] at hrun
    obtain ⟨t, hstep, hrest⟩ := hrun
    obtain ⟨hnodup, hnew⟩ := h.fresh hstep
    obtain ⟨hnodup', hnew', hused⟩ := ih hrest
    rw [List.flatMap_cons]
    refine ⟨?_, ?_, ?_⟩
    · rw [List.nodup_append]
      refine ⟨hnodup, hnodup', ?_⟩
      rintro k hk _ hk' rfl
      exact hnew' k hk' ((h.enter hstep k).mpr (.inl hk))
    · intro k hk
      obtain hk | hk := List.mem_append.mp hk
      · exact hnew k hk
      · intro hs
        exact hnew' k hk ((h.enter hstep k).mpr (.inr hs))
    · intro k
      rw [hused, h.enter hstep, List.mem_append, or_left_comm, or_assoc]

variable [AddCommMonoid M] [PartialOrder M] [CanonicallyOrderedAdd M]
  {alone : α → Prop} {weight : α → M} {load : β → M} {cap : M}

/-- A loop that refuses nothing else but what fails by itself, and a load above
the cap. -/
structure Decides (f : β → α → Except ε β) (alone : α → Prop) (keys : α → List κ)
    (used : β → List κ) (weight : α → M) (load : β → M) (cap : M) : Prop extends
    Enters f keys used where
  carry : ∀ {s a s'}, f s a = .ok s' → load s' = load s + weight a
  accepts : ∀ s a, (∃ s', f s a = .ok s') ↔ alone a ∧ (keys a).Nodup ∧ (∀ k ∈ keys a, k ∉ used s) ∧
    load s + weight a ≤ cap

omit [PartialOrder M] [CanonicallyOrderedAdd M] in
theorem foldlM_load (hload : ∀ {s a s'}, f s a = .ok s' → load s' = load s + weight a)
    (hrun : l.foldlM f s = .ok s') : load s' = load s + (l.map weight).sum := by
  induction l generalizing s with
  | nil =>
    obtain rfl := pure_eq_ok.mp hrun
    simp
  | cons a l ih =>
    rw [List.foldlM_cons, bind_eq_ok] at hrun
    obtain ⟨t, hstep, hrest⟩ := hrun
    rw [ih hrest, hload hstep, List.map_cons, List.sum_cons, add_assoc]

theorem Decides.run_iff (h : Decides f alone keys used weight load cap) (l : List α) (s : β)
    (hs : load s ≤ cap) : (∃ s', l.foldlM f s = .ok s') ↔
      (∀ a ∈ l, alone a) ∧ (l.flatMap keys).Nodup ∧ (∀ k ∈ l.flatMap keys, k ∉ used s) ∧
        load s + (l.map weight).sum ≤ cap := by
  constructor
  · rintro ⟨s', hrun⟩
    obtain ⟨hnodup, hnew, -⟩ := h.toEnters.run hrun
    refine ⟨?_, hnodup, hnew, ?_⟩
    · intro a ha
      obtain ⟨t, t', hstep⟩ := foldlM_mem hrun ha
      exact ((h.accepts t a).mp ⟨t', hstep⟩).1
    · -- the load of the last state, which passed the check of the last step
      rw [← foldlM_load (fun hstep => h.carry hstep) hrun]
      apply foldlM_invariant (fun _ s => load s ≤ cap) hrun hs
      intro _ a t t' _ _ hstep
      rw [h.carry hstep]
      exact ((h.accepts t a).mp ⟨t', hstep⟩).2.2.2
  · rintro ⟨halone, hnodup, hnew, hcap⟩
    induction l generalizing s with
    | nil => exact ⟨s, rfl⟩
    | cons a l ih =>
      rw [List.flatMap_cons] at hnodup hnew
      obtain ⟨hnodup, hnodup', hapart⟩ := List.nodup_append.mp hnodup
      rw [List.map_cons, List.sum_cons, ← add_assoc] at hcap
      have hfirst : load s + weight a ≤ cap := le_trans le_self_add hcap
      obtain ⟨t, hstep⟩ := (h.accepts s a).mpr ⟨halone a List.mem_cons_self, hnodup,
        fun k hk => hnew k (List.mem_append_left _ hk), hfirst⟩
      have hnew' : ∀ k ∈ l.flatMap keys, k ∉ used t := by
        intro k hk hused
        obtain hka | hs' := (h.enter hstep k).mp hused
        · exact hapart k hka k hk rfl
        · exact hnew k (List.mem_append_right _ hk) hs'
      obtain ⟨s', hrest⟩ := ih t (by rwa [h.carry hstep])
        (fun b hb => halone b (List.mem_cons_of_mem a hb)) hnodup' hnew' (by rwa [h.carry hstep])
      exact ⟨s', by rw [List.foldlM_cons, bind_eq_ok]; exact ⟨t, hstep, hrest⟩⟩

/-- A loop over more, from a state with more in its tables, goes as it does from
the smaller state, if what it meets is not in the rest. -/
theorem foldlM_extend {grow : β → β} {apart : α → Prop}
    (h : ∀ s a s', f (grow s) a = .ok s' ↔ apart a ∧ ∃ t, f s a = .ok t ∧ grow t = s')
    (l : List α) (s s' : β) : l.foldlM f (grow s) = .ok s' ↔
      (∀ a ∈ l, apart a) ∧ ∃ t, l.foldlM f s = .ok t ∧ grow t = s' := by
  induction l generalizing s with
  | nil => simp
  | cons a l ih =>
    simp only [List.foldlM_cons, bind_eq_ok, List.forall_mem_cons]
    constructor
    · rintro ⟨t, hstep, hrest⟩
      obtain ⟨ha, u, hu, rfl⟩ := (h s a t).mp hstep
      obtain ⟨hall, v, hv, rfl⟩ := (ih u).mp hrest
      exact ⟨⟨ha, hall⟩, v, ⟨u, hu, hv⟩, rfl⟩
    · rintro ⟨⟨ha, hall⟩, v, ⟨u, hu, hv⟩, rfl⟩
      exact ⟨grow u, (h s a _).mpr ⟨ha, u, hu, rfl⟩, (ih u).mpr ⟨hall, v, hv, rfl⟩⟩

end HeteroCluster.FreshTables
