import Mathlib.Data.List.AList

namespace HeteroCluster.ExclusiveTable

variable {ι κ α β δ : Type}

/-- A table whose entries are all valid, and in which no resource is held
under two keys. -/
structure Exclusive (valid : κ → α → Prop) (holds : α → List δ) (table : κ → Option α) :
    Prop where
  valid : ∀ k a, table k = some a → valid k a
  apart : ∀ i j a b x, table i = some a → table j = some b → x ∈ holds a → x ∈ holds b → i = j

variable {valid : κ → α → Prop} {holds : α → List δ} {table : κ → Option α}

theorem exclusive_empty : Exclusive valid holds (fun _ => none) :=
  ⟨by simp, by simp⟩

section Update

variable [DecidableEq κ]

theorem Exclusive.release (h : Exclusive valid holds table) (k : κ) :
    Exclusive valid holds (Function.update table k none) := by
  have hold : ∀ j a, Function.update table k none j = some a → table j = some a := by
    intro j a hj
    by_cases hk : j = k
    · rw [hk, Function.update_self] at hj
      cases hj
    · rwa [Function.update_of_ne hk] at hj
  constructor
  · intro j a hj
    exact h.valid j a (hold j a hj)
  · intro i j a b x hi hj
    exact h.apart i j a b x (hold i a hi) (hold j b hj)

theorem Exclusive.hold (h : Exclusive valid holds table) {k : κ} {a : α} (hv : valid k a)
    (hfree : ∀ j b x, j ≠ k → table j = some b → x ∈ holds a → x ∉ holds b) :
    Exclusive valid holds (Function.update table k (some a)) := by
  have hcases : ∀ j b, Function.update table k (some a) j = some b →
      j = k ∧ b = a ∨ j ≠ k ∧ table j = some b := by
    intro j b hj
    by_cases hk : j = k
    · rw [hk, Function.update_self] at hj
      exact Or.inl ⟨hk, (Option.some.inj hj).symm⟩
    · rw [Function.update_of_ne hk] at hj
      exact Or.inr ⟨hk, hj⟩
  constructor
  · intro j b hj
    obtain ⟨rfl, rfl⟩ | ⟨-, hj⟩ := hcases j b hj
    · exact hv
    · exact h.valid j b hj
  · intro i j b c x hi hj hb hc
    obtain ⟨hik, rfl⟩ | ⟨hik, hti⟩ := hcases i b hi
    · obtain ⟨hjk, -⟩ | ⟨hjk, htj⟩ := hcases j c hj
      · rw [hik, hjk]
      · exact absurd hc (hfree j c x hjk htj hb)
    · obtain ⟨-, rfl⟩ | ⟨-, htj⟩ := hcases j c hj
      · exact absurd hb (hfree i b x hik hti hc)
      · exact h.apart i j b c x hti htj hb hc

end Update

section View

variable [DecidableEq ι] [DecidableEq κ]

/-- The table an association list stands for, when keys are written under
their names and entries in an encoding. -/
def view (name : ι → κ) (decode : α → Option β) (s : AList (fun _ : κ => α)) : ι → Option β :=
  fun i => (s.lookup (name i)).bind decode

variable {name : ι → κ} {decode : α → Option β} {s : AList (fun _ : κ => α)}

theorem view_insert (hn : Function.Injective name) (i : ι) (a : α) :
    view name decode (s.insert (name i) a) = Function.update (view name decode s) i (decode a) := by
  funext j
  by_cases hj : j = i
  · rw [hj, Function.update_self, view, AList.lookup_insert, Option.bind_some]
  · have hne : name j ≠ name i := fun he => hj (hn he)
    rw [Function.update_of_ne hj, view, AList.lookup_insert_ne hne, view]

theorem view_erase (hn : Function.Injective name) (i : ι) :
    view name decode (s.erase (name i)) = Function.update (view name decode s) i none := by
  funext j
  by_cases hj : j = i
  · rw [hj, Function.update_self, view, AList.lookup_erase, Option.bind_none]
  · have hne : name j ≠ name i := fun he => hj (hn he)
    rw [Function.update_of_ne hj, view, AList.lookup_erase_ne hne, view]

end View

end HeteroCluster.ExclusiveTable
