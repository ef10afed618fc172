import Mathlib.Algebra.BigOperators.Group.List.Basic
import Mathlib.Algebra.Order.Ring.Int
import Mathlib.Order.Bounds.Basic

namespace HeteroCluster.RunningTotals

section Maxima

variable {σ α β : Type} (step : σ → α → σ)

/-- If each step raises a measure by what it meets, a bound below the measure
comes from the start or from something met on the way. -/
theorem le_foldl_iff [LE β] (measure : σ → β) {raise : α → β → Prop}
    (h : ∀ s a x, x ≤ measure (step s a) ↔ x ≤ measure s ∨ raise a x) (l : List α) (s : σ) (x : β) :
    x ≤ measure (l.foldl step s) ↔ x ≤ measure s ∨ ∃ a ∈ l, raise a x := by
  induction l generalizing s with
  | nil => simp
  | cons a l ih => rw [List.foldl_cons, ih, h, List.exists_mem_cons_iff, or_assoc]

theorem foldl_keeps (part : σ → β) (h : ∀ s a, part (step s a) = part s) (l : List α) (s : σ) :
    part (l.foldl step s) = part s := by
  induction l generalizing s with
  | nil => rfl
  | cons a l ih => rw [List.foldl_cons, ih, h]

end Maxima

section Sums

/-- Reducing a sum early makes no difference once it is reduced at the end. -/
structure Wrapping (w : Int → Int) : Prop where
  absorb : ∀ x y, w (w x + y) = w (x + y)

variable {α : Type} {w : Int → Int} (f : α → Int)

theorem wrapping_id : Wrapping id := ⟨fun _ _ => rfl⟩

theorem wrapping_bmod (n : Nat) : Wrapping (fun x => x.bmod n) := ⟨fun _ _ => Int.bmod_add_bmod⟩

theorem Wrapping.comm (hw : Wrapping w) (x y z : Int) : w (w (x + y) + z) = w (w (x + z) + y) := by
  rw [hw.absorb, hw.absorb, Int.add_right_comm]

theorem Wrapping.foldl (hw : Wrapping w) (start : Int) (l : List α) :
    l.foldl (fun total a => w (total + f a)) (w start) = w (start + (l.map f).sum) := by
  induction l generalizing start with
  | nil => simp
  | cons a l ih =>
    rw [List.foldl_cons, hw.absorb, ih, List.map_cons, List.sum_cons, Int.add_assoc]

end Sums

section Quotients

variable {a n : Int}

theorem lt_ceil (hn : 0 < n) : ((a + n - 1) / n - 1) * n < a := by
  have hle := Int.ediv_mul_le (a + n - 1) hn.ne'
  rw [Int.sub_mul, Int.one_mul]
  omega

theorem le_ceil (hn : 0 < n) : a ≤ (a + n - 1) / n * n := by
  have hlt := Int.lt_ediv_add_one_mul_self (a + n - 1) hn
  rw [Int.add_mul, Int.one_mul] at hlt
  omega

theorem isLeast_ceil (hn : 0 < n) : IsLeast {k | a ≤ k * n} ((a + n - 1) / n) := by
  refine ⟨le_ceil hn, fun k hk => ?_⟩
  have hlt : ((a + n - 1) / n - 1) * n < k * n := lt_of_lt_of_le (lt_ceil hn) hk
  have := lt_of_mul_lt_mul_right hlt hn.le
  omega

end Quotients

end HeteroCluster.RunningTotals
