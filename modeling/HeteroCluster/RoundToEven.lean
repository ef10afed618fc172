import Mathlib.Algebra.Order.Round
import Mathlib.Tactic.Linarith
import Mathlib.Tactic.FieldSimp
import Mathlib.Tactic.Ring

namespace HeteroCluster.RoundToEven

variable {K : Type*} [Field K] [LinearOrder K] [FloorRing K]

/-- The nearest integer, and of two equally near ones the even one. -/
def roundEven (x : K) : ℤ :=
  if Int.fract x < 1 - Int.fract x then ⌊x⌋
  else if 1 - Int.fract x < Int.fract x then ⌊x⌋ + 1
  else if ⌊x⌋ % 2 = 0 then ⌊x⌋ else ⌊x⌋ + 1

/-- The three ways a number is rounded: down, up, or to the even neighbour of
a midpoint. -/
theorem roundEven_cases (x : K) :
    (Int.fract x < 1 - Int.fract x ∧ roundEven x = ⌊x⌋) ∨
    (1 - Int.fract x < Int.fract x ∧ roundEven x = ⌊x⌋ + 1) ∨
    (Int.fract x = 1 - Int.fract x ∧ roundEven x % 2 = 0 ∧
      (roundEven x = ⌊x⌋ ∨ roundEven x = ⌊x⌋ + 1)) := by
  unfold roundEven
  split_ifs with hl hg he
  · exact .inl ⟨hl, rfl⟩
  · exact .inr (.inl ⟨hg, rfl⟩)
  · exact .inr (.inr ⟨le_antisymm (not_lt.mp hg) (not_lt.mp hl), he, .inl rfl⟩)
  · exact .inr (.inr ⟨le_antisymm (not_lt.mp hg) (not_lt.mp hl), by omega, .inr rfl⟩)

variable [IsStrictOrderedRing K]

theorem abs_roundEven_sub_le (x : K) : |(roundEven x : K) - x| ≤ 1 / 2 := by
  have hf := Int.self_sub_floor x
  have hn := Int.fract_nonneg x
  have hl := Int.fract_lt_one x
  rw [abs_le]
  obtain ⟨h, hr⟩ | ⟨h, hr⟩ | ⟨h, -, hr | hr⟩ := roundEven_cases x <;> rw [hr] <;> push_cast <;>
    constructor <;> linarith

/-- Two integers at most one half away from a number are a unit apart, so a
number nearer than one half to an integer is rounded to it. -/
theorem roundEven_eq {x : K} {n : ℤ} (h : |x - n| < 1 / 2) : roundEven x = n := by
  have hr := abs_le.mp (abs_roundEven_sub_le x)
  have hn := abs_lt.mp h
  have hlt : (roundEven x : K) < (n + 1 : ℤ) := by
    push_cast
    linarith
  have hgt : (n - 1 : ℤ) < (roundEven x : K) := by
    push_cast
    linarith
  have := Int.cast_lt.mp hlt
  have := Int.cast_lt.mp hgt
  omega

theorem roundEven_intCast (n : ℤ) : roundEven (n : K) = n := by
  apply roundEven_eq
  simp

theorem roundEven_add_even (x : K) {n : ℤ} (hn : n % 2 = 0) :
    roundEven (x + n) = roundEven x + n := by
  unfold roundEven
  rw [Int.fract_add_intCast, Int.floor_add_intCast]
  have he : (⌊x⌋ + n) % 2 = ⌊x⌋ % 2 := by omega
  rw [he]
  split_ifs <;> omega

theorem roundEven_mono {x y : K} (h : x ≤ y) : roundEven x ≤ roundEven y := by
  by_contra hlt
  -- Rounding can only cross over where both sit at one midpoint, which has one rounding.
  have hx := abs_le.mp (abs_roundEven_sub_le x)
  have hy := abs_le.mp (abs_roundEven_sub_le y)
  have hstep : (roundEven y : K) + 1 ≤ roundEven x := by
    exact_mod_cast Int.add_one_le_iff.mpr (not_le.mp hlt)
  have hxy : x = y := by linarith
  rw [hxy] at hlt
  exact hlt (le_refl _)

theorem le_roundEven {x : K} {n : ℤ} (h : (n : K) ≤ x) : n ≤ roundEven x := by
  rw [← roundEven_intCast (K := K) n]
  exact roundEven_mono h

theorem roundEven_le {x : K} {n : ℤ} (h : x ≤ n) : roundEven x ≤ n := by
  rw [← roundEven_intCast (K := K) n]
  exact roundEven_mono h

theorem roundEven_nearest (x : K) (n : ℤ) : |(roundEven x : K) - x| ≤ |(n : K) - x| := by
  by_cases hn : |x - n| < 1 / 2
  · rw [roundEven_eq hn]
  · rw [abs_sub_comm (n : K) x]
    exact (abs_roundEven_sub_le x).trans (not_lt.mp hn)

theorem even_of_midpoint {x : K} (h : |(roundEven x : K) - x| = 1 / 2) : roundEven x % 2 = 0 := by
  obtain ⟨hf, hr⟩ | ⟨hf, hr⟩ | ⟨-, he, -⟩ := roundEven_cases x
  · rw [hr, abs_sub_comm, Int.self_sub_floor, abs_of_nonneg (Int.fract_nonneg x)] at h
    linarith
  · have hx := Int.self_sub_floor x
    have hl := Int.fract_lt_one x
    rw [hr, abs_of_nonneg (by push_cast; linarith)] at h
    push_cast at h
    linarith
  · exact he

/-- Where an integer is as near as the rounding, the rounding is the even one. -/
theorem roundEven_tie {x : K} {n : ℤ} (hne : n ≠ roundEven x)
    (h : |(n : K) - x| = |(roundEven x : K) - x|) : roundEven x % 2 = 0 := by
  apply even_of_midpoint
  apply le_antisymm (abs_roundEven_sub_le x)
  rw [← h, abs_sub_comm]
  by_contra hlt
  exact hne (roundEven_eq (not_le.mp hlt)).symm

theorem roundEven_eq_of_even {x : K} {n : ℤ} (h : |x - n| = 1 / 2) (hn : n % 2 = 0) :
    roundEven x = n := by
  by_contra hne
  have hge := abs_sub_le (n : K) x (roundEven x)
  have hr := abs_roundEven_sub_le x
  have hone : (1 : K) ≤ |(n : K) - roundEven x| := by
    exact_mod_cast Int.one_le_abs (sub_ne_zero.mpr (Ne.symm hne))
  rw [abs_sub_comm _ x, h, abs_sub_comm x] at hge
  have heven := even_of_midpoint (le_antisymm hr (by linarith))
  -- Both are even and at most one apart.
  have hfar : |(n : K) - roundEven x| < (2 : ℤ) := by
    push_cast
    linarith
  have hlt : |n - roundEven x| < 2 := by exact_mod_cast hfar
  rw [abs_lt] at hlt
  omega

theorem roundEven_neg (x : K) : roundEven (-x) = -roundEven x := by
  have habs : |-x - ((-roundEven x : ℤ) : K)| = |(roundEven x : K) - x| := by
    push_cast
    rw [neg_sub_neg]
  obtain hlt | heq := lt_or_eq_of_le (abs_roundEven_sub_le x)
  · exact roundEven_eq (habs ▸ hlt)
  · have heven := even_of_midpoint heq
    exact roundEven_eq_of_even (habs.trans heq) (by omega)

/-- Rounding by machine words: before the low part is dropped half of its
range is added, less one where the quotient is even. -/
theorem roundEven_div_two_mul (c h : ℕ) (hh : 0 < h) :
    roundEven ((c : K) / (2 * h)) = ((c + (h - 1 + c / (2 * h) % 2)) / (2 * h) : ℕ) := by
  have hH : (0 : K) < h := by exact_mod_cast hh
  have hr : c % (2 * h) < 2 * h := Nat.mod_lt _ (by omega)
  have hc : 2 * h * (c / (2 * h)) + c % (2 * h) = c := Nat.div_add_mod c (2 * h)
  generalize c / (2 * h) = q at hc ⊢
  generalize c % (2 * h) = r at hc hr
  subst hc
  have hx : ((2 * h * q + r : ℕ) : K) / (2 * h) = q + r / (2 * h) := by
    push_cast
    field_simp
  have hn : (2 * h * q + r + (h - 1 + q % 2)) / (2 * h) = q + (r + (h - 1 + q % 2)) / (2 * h) := by
    rw [Nat.add_assoc, Nat.mul_add_div (by omega)]
  rw [hx, hn]
  obtain hlt | heq | hgt := Nat.lt_trichotomy r h
  · have hz : (r + (h - 1 + q % 2)) / (2 * h) = 0 := Nat.div_eq_of_lt (by omega)
    have hrK : (r : K) < h := by exact_mod_cast hlt
    rw [hz]
    apply roundEven_eq
    push_cast
    rw [add_zero, add_sub_cancel_left, abs_of_nonneg (by positivity),
      div_lt_div_iff₀ (by linarith) (by norm_num)]
    linarith
  · subst heq
    have hhalf : (r : K) / (2 * r) = 1 / 2 := by field_simp
    rw [hhalf]
    obtain he | ho := Nat.mod_two_eq_zero_or_one q
    · have hz : (r + (r - 1 + q % 2)) / (2 * r) = 0 := Nat.div_eq_of_lt (by omega)
      rw [hz]
      exact roundEven_eq_of_even (by push_cast; norm_num) (by omega)
    · have hone : (r + (r - 1 + q % 2)) / (2 * r) = 1 :=
        Nat.div_eq_of_lt_le (by omega) (by omega)
      rw [hone]
      exact roundEven_eq_of_even (by push_cast; norm_num) (by omega)
  · have hone : (r + (h - 1 + q % 2)) / (2 * h) = 1 := Nat.div_eq_of_lt_le (by omega) (by omega)
    have hrK : (h : K) < r := by exact_mod_cast hgt
    have hrK' : (r : K) < 2 * h := by exact_mod_cast hr
    have hlow : 1 / 2 < (r : K) / (2 * h) := by
      rw [div_lt_div_iff₀ (by norm_num) (by linarith)]
      linarith
    have hhigh : (r : K) / (2 * h) < 1 := by
      rw [div_lt_one (by linarith)]
      exact hrK'
    rw [hone]
    apply roundEven_eq
    push_cast
    rw [abs_lt]
    constructor <;> linarith

end HeteroCluster.RoundToEven
