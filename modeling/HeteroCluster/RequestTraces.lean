import Mathlib.Data.List.Induction

namespace HeteroCluster.RequestTraces

variable {α : Type}

section Open

variable {ask answer : α → Prop} {t : List α} {a : α}

def StillOpen (ask answer : α → Prop) (t : List α) : Prop :=
  ∃ before a after, t = before ++ a :: after ∧ ask a ∧ ∀ x ∈ after, ¬ answer x

theorem not_stillOpen_nil : ¬ StillOpen ask answer [] := by
  rintro ⟨before, a, after, h, -⟩
  simp at h

theorem stillOpen_snoc :
    StillOpen ask answer (t ++ [a]) ↔ ask a ∨ StillOpen ask answer t ∧ ¬ answer a := by
  constructor
  · rintro ⟨before, b, after, ht, hb, hafter⟩
    cases after using List.reverseRecOn with
    | nil =>
      obtain ⟨-, rfl⟩ := List.append_inj' ht rfl |>.imp id List.singleton_inj.mp
      exact .inl hb
    | append_singleton after c =>
      rw [← List.cons_append, ← List.append_assoc] at ht
      obtain ⟨rfl, hc⟩ := List.append_inj' ht rfl
      obtain rfl := List.singleton_inj.mp hc
      rw [List.forall_mem_append] at hafter
      exact .inr ⟨⟨before, b, after, rfl, hb, hafter.1⟩, hafter.2 a List.mem_cons_self⟩
  · rintro (ha | ⟨⟨before, b, after, rfl, hb, hafter⟩, ha⟩)
    · exact ⟨t, a, [], rfl, ha, by simp⟩
    · refine ⟨before, b, after ++ [a], by simp, hb, ?_⟩
      rw [List.forall_mem_append]
      exact ⟨hafter, by simpa using ha⟩

end Open

section Unanswered

variable {ask answer p : α → Bool} {t : List α} {a : α}

def unanswered (ask answer : α → Bool) (t : List α) : Bool :=
  t.foldl (fun waiting a => ask a || waiting && !answer a) false

theorem unanswered_snoc (t : List α) (a : α) :
    unanswered ask answer (t ++ [a]) = (ask a || unanswered ask answer t && !answer a) := by
  simp [unanswered]

theorem unanswered_iff_stillOpen :
    unanswered ask answer t = true ↔ StillOpen (ask · = true) (answer · = true) t := by
  induction t using List.reverseRecOn with
  | nil => exact iff_of_false Bool.false_ne_true not_stillOpen_nil
  | append_singleton t a ih =>
    rw [unanswered_snoc, Bool.or_eq_true, Bool.and_eq_true, ih, Bool.not_eq_true', stillOpen_snoc,
      Bool.not_eq_true]

theorem unanswered_iff : unanswered ask answer t = true ↔
    ∃ before a after, t = before ++ a :: after ∧ ask a = true ∧ ∀ x ∈ after, answer x = false := by
  simp only [unanswered_iff_stillOpen, StillOpen, Bool.not_eq_true]

/-- A trace is determined by what stands before and after the last of a kind. -/
theorem last_unique {before before' after after' : List α} {x x' : α}
    (h : before ++ x :: after = before' ++ x' :: after') (hx : p x = true) (hx' : p x' = true)
    (hafter : ∀ y ∈ after, p y = false) (hafter' : ∀ y ∈ after', p y = false) :
    before = before' ∧ after = after' := by
  obtain ⟨common, rfl, hrest⟩ | ⟨common, rfl, hrest⟩ := List.append_eq_append_iff.mp h
  · cases common with
    | nil =>
      obtain ⟨-, rfl⟩ := List.cons.inj hrest
      exact ⟨(List.append_nil _).symm, rfl⟩
    | cons y common =>
      obtain ⟨rfl, rfl⟩ := List.cons.inj hrest
      exact absurd ((hafter x' (by simp)).symm.trans hx') (by decide)
  · cases common with
    | nil =>
      obtain ⟨-, rfl⟩ := List.cons.inj hrest
      exact ⟨List.append_nil _, rfl⟩
    | cons y common =>
      obtain ⟨rfl, rfl⟩ := List.cons.inj hrest
      exact absurd ((hafter' x (by simp)).symm.trans hx) (by decide)

end Unanswered

end HeteroCluster.RequestTraces
