import HeteroCluster.RoundToEven
import Mathlib.Algebra.Order.Floor.Semiring
import Mathlib.Data.Nat.Log
import Mathlib.Tactic.Positivity
import Mathlib.Tactic.GCongr

namespace HeteroCluster.FloatCodes

open RoundToEven

/-- The magnitudes of a binary format with `b` fraction bits, in multiples of
the smallest one. The code is the exponent field followed by the fraction, so
that consecutive codes are neighbouring magnitudes. -/
def units (b c : ℕ) : ℕ :=
  if c / 2 ^ b = 0 then c else (2 ^ b + c % 2 ^ b) * 2 ^ (c / 2 ^ b - 1)

/-- A code taken apart: a significand of at most `b + 1` bits and the power of
two it stands for. Below the smallest normal number the power is zero. -/
theorem exists_significand (b c : ℕ) : ∃ k m, c = k * 2 ^ b + m ∧ units b c = m * 2 ^ k ∧
    m < 2 ^ (b + 1) ∧ (k = 0 ∨ 2 ^ b ≤ m) := by
  have hH : 0 < 2 ^ b := Nat.two_pow_pos b
  have hr : c % 2 ^ b < 2 ^ b := Nat.mod_lt c hH
  have hc : 2 ^ b * (c / 2 ^ b) + c % 2 ^ b = c := Nat.div_add_mod c (2 ^ b)
  have hp : 2 ^ (b + 1) = 2 ^ b + 2 ^ b := by rw [pow_succ, Nat.mul_two]
  unfold units
  generalize c / 2 ^ b = q at hc ⊢
  generalize c % 2 ^ b = r at hc hr ⊢
  cases q with
  | zero => exact ⟨0, c, by simp, by simp, by omega, .inl rfl⟩
  | succ k =>
    refine ⟨k, 2 ^ b + r, ?_, by simp, by omega, .inr (by omega)⟩
    rw [← hc, Nat.mul_succ, Nat.mul_comm k]
    omega

theorem units_of_lt {b c : ℕ} (h : c < 2 ^ b) : units b c = c := by
  unfold units
  rw [Nat.div_eq_of_lt h, if_pos rfl]

theorem units_mul_add {b k m : ℕ} (hl : 2 ^ b ≤ m) (hm : m ≤ 2 ^ (b + 1)) :
    units b (k * 2 ^ b + m) = m * 2 ^ k := by
  have hH : 0 < 2 ^ b := Nat.two_pow_pos b
  have hp : 2 ^ (b + 1) = 2 ^ b + 2 ^ b := by rw [pow_succ, Nat.mul_two]
  -- The significand may be one too large: then it is that of the next power.
  have hsplit : ∀ j r, r < 2 ^ b → units b (2 ^ b * (j + 1) + r) = (2 ^ b + r) * 2 ^ j := by
    intro j r hr
    unfold units
    rw [Nat.mul_add_div hH, Nat.div_eq_of_lt hr, Nat.mul_add_mod, Nat.mod_eq_of_lt hr]
    simp
  obtain hlt | rfl := Nat.lt_or_eq_of_le hm
  · have he : k * 2 ^ b + m = 2 ^ b * (k + 1) + (m - 2 ^ b) := by
      rw [Nat.mul_succ, Nat.mul_comm k]
      omega
    rw [he, hsplit k (m - 2 ^ b) (by omega), Nat.add_sub_cancel' hl]
  · have he : k * 2 ^ b + 2 ^ (b + 1) = 2 ^ b * (k + 1 + 1) + 0 := by
      rw [Nat.mul_succ, Nat.mul_succ, Nat.mul_comm k]
      omega
    rw [he, hsplit (k + 1) 0 hH, Nat.add_zero, pow_succ, pow_succ, Nat.mul_assoc, Nat.mul_comm 2]

theorem units_strictMono (b : ℕ) : StrictMono (units b) := by
  apply strictMono_nat_of_lt_succ
  intro c
  obtain ⟨k, m, rfl, hu, hm, hk⟩ := exists_significand b c
  rw [hu, Nat.add_assoc]
  by_cases hl : 2 ^ b ≤ m + 1
  · rw [units_mul_add hl hm]
    exact Nat.mul_lt_mul_of_pos_right (Nat.lt_succ_self m) (Nat.two_pow_pos k)
  · obtain rfl : k = 0 := by omega
    rw [Nat.zero_mul, Nat.zero_add, units_of_lt (by omega)]
    simp

theorem units_lt {b k c : ℕ} (h : c < (k + 1) * 2 ^ b) : units b c < 2 ^ b * 2 ^ k := by
  have hle : 2 ^ b ≤ 2 ^ (b + 1) := Nat.pow_le_pow_right (by decide) (Nat.le_succ b)
  rw [← units_mul_add (Nat.le_refl _) hle, ← Nat.succ_mul]
  exact units_strictMono b h

theorem two_pow_dvd_units {b k c : ℕ} (h : (k + 1) * 2 ^ b ≤ c) : 2 ^ k ∣ units b c := by
  obtain ⟨j, m, rfl, hu, hm, hj⟩ := exists_significand b c
  have hkj : k ≤ j := by
    have hlt : (k + 1) * 2 ^ b < (j + 2) * 2 ^ b := by
      rw [pow_succ] at hm
      linarith [Nat.add_mul j 2 (2 ^ b)]
    have := Nat.lt_of_mul_lt_mul_right hlt
    omega
  rw [hu]
  exact Dvd.dvd.mul_left (Nat.pow_dvd_pow 2 hkj) m

theorem units_widen (b j c : ℕ) : units (b + j) (c * 2 ^ j) = units b c * 2 ^ j := by
  obtain ⟨k, m, rfl, hu, hm, hk⟩ := exists_significand b c
  have hc : (k * 2 ^ b + m) * 2 ^ j = k * 2 ^ (b + j) + m * 2 ^ j := by
    rw [Nat.add_mul, Nat.mul_assoc, pow_add]
  rw [hu, hc, Nat.mul_right_comm]
  by_cases hl : 2 ^ b ≤ m
  · apply units_mul_add
    · rw [pow_add]
      exact Nat.mul_le_mul_right _ hl
    · rw [Nat.add_right_comm, pow_add 2 (b + 1)]
      exact Nat.mul_le_mul_right _ hm.le
  · obtain rfl := hk.resolve_right hl
    rw [Nat.zero_mul, Nat.zero_add, pow_zero, Nat.mul_one]
    apply units_of_lt
    rw [pow_add]
    exact Nat.mul_lt_mul_of_pos_right (not_le.mp hl) (Nat.two_pow_pos j)

section Code

variable {K : Type*} [Field K] [LinearOrder K] [FloorRing K]

/-- How many low bits of a magnitude, given in multiples of the smallest one,
are beyond its precision. -/
def shift (b : ℕ) (y : K) : ℕ := Nat.log 2 ⌊y⌋₊ - b

/-- The code of the nearest magnitude, ties to the even code. The exponent
field is unbounded. -/
def code (b : ℕ) (y : K) : ℕ := shift b y * 2 ^ b + (roundEven (y / 2 ^ shift b y)).toNat

theorem lt_two_pow_log {y : K} (hy : 0 ≤ y) : y < 2 ^ (Nat.log 2 ⌊y⌋₊ + 1) := by
  have hn : ⌊y⌋₊ < 2 ^ (Nat.log 2 ⌊y⌋₊ + 1) := Nat.lt_pow_succ_log_self (by decide) _
  have := (Nat.floor_lt hy).mp hn
  exact_mod_cast this

theorem shift_eq {b k : ℕ} {y : K} (hy : 0 ≤ y) (hl : k = 0 ∨ (2 : K) ^ b * 2 ^ k ≤ y)
    (hu : y < 2 ^ (b + 1) * 2 ^ k) : shift b y = k := by
  rw [← pow_add] at hl hu
  have hub : ⌊y⌋₊ < 2 ^ (b + 1 + k) := by
    rw [Nat.floor_lt hy]
    exact_mod_cast hu
  have hlog : Nat.log 2 ⌊y⌋₊ < b + 1 + k := Nat.log_lt_of_lt_pow' (by omega) hub
  unfold shift
  obtain rfl | hl := hl
  · omega
  · have hlb : 2 ^ (b + k) ≤ ⌊y⌋₊ := by
      rw [Nat.le_floor_iff hy]
      exact_mod_cast hl
    have := Nat.le_log_of_pow_le (by decide) hlb
    omega

variable [IsStrictOrderedRing K]

theorem div_shift_lt (b : ℕ) {y : K} (hy : 0 ≤ y) : y / 2 ^ shift b y < 2 ^ (b + 1) := by
  rw [div_lt_iff₀ (by positivity), ← pow_add]
  apply (lt_two_pow_log hy).trans_le
  apply pow_le_pow_right₀ (by norm_num)
  unfold shift
  omega

theorem le_div_shift {b : ℕ} {y : K} (h : shift b y ≠ 0) : (2 : K) ^ b ≤ y / 2 ^ shift b y := by
  unfold shift at h ⊢
  have hn : ⌊y⌋₊ ≠ 0 := by
    intro hz
    rw [hz] at h
    simp at h
  have hy : 0 ≤ y := by
    by_contra hneg
    exact hn (Nat.floor_of_nonpos (le_of_not_ge hneg))
  have hp : ((2 ^ Nat.log 2 ⌊y⌋₊ : ℕ) : K) ≤ y :=
    (Nat.le_floor_iff hy).mp (Nat.pow_log_le_self 2 hn)
  rw [le_div_iff₀ (by positivity), ← pow_add, Nat.add_sub_cancel' (by omega)]
  exact_mod_cast hp

theorem units_code (b : ℕ) {y : K} (hy : 0 ≤ y) :
    (units b (code b y) : K) = roundEven (y / 2 ^ shift b y) * 2 ^ shift b y := by
  have hnn : 0 ≤ roundEven (y / 2 ^ shift b y) := by
    apply le_roundEven
    push_cast
    positivity
  have hle : roundEven (y / 2 ^ shift b y) ≤ (2 ^ (b + 1) : ℕ) := by
    apply roundEven_le
    push_cast
    exact (div_shift_lt b hy).le
  have hcast : ((roundEven (y / 2 ^ shift b y)).toNat : K) = roundEven (y / 2 ^ shift b y) := by
    exact_mod_cast congrArg (Int.cast : ℤ → K) (Int.toNat_of_nonneg hnn)
  unfold code
  by_cases hl : 2 ^ b ≤ (roundEven (y / 2 ^ shift b y)).toNat
  · rw [units_mul_add hl (by omega)]
    push_cast
    rw [hcast]
  · have hz : shift b y = 0 := by
      by_contra hne
      have : ((2 ^ b : ℕ) : ℤ) ≤ roundEven (y / 2 ^ shift b y) := by
        apply le_roundEven
        push_cast
        exact le_div_shift hne
      omega
    rw [hz, pow_zero, div_one] at hl hcast ⊢
    rw [Nat.zero_mul, Nat.zero_add, mul_one, units_of_lt (not_le.mp hl), hcast]

theorem abs_units_code_sub (b : ℕ) {y : K} (hy : 0 ≤ y) : |(units b (code b y) : K) - y| =
    |(roundEven (y / 2 ^ shift b y) : K) - y / 2 ^ shift b y| * 2 ^ shift b y := by
  have hp : (0 : K) < 2 ^ shift b y := by positivity
  rw [units_code b hy, ← abs_of_pos hp, ← abs_mul, abs_of_pos hp]
  congr 1
  field_simp

/-- Every magnitude of the format is a multiple of the shift of `y` or lies
below the magnitudes that have this shift. -/
theorem units_multiple_or_lt (b c : ℕ) (y : K) :
    (∃ n : ℤ, (units b c : K) = n * 2 ^ shift b y) ∨
      (units b c : K) < 2 ^ b * 2 ^ shift b y ∧ shift b y ≠ 0 := by
  by_cases hc : (shift b y + 1) * 2 ^ b ≤ c ∨ shift b y = 0
  · have hd : 2 ^ shift b y ∣ units b c := by
      obtain hc | hz := hc
      · exact two_pow_dvd_units hc
      · rw [hz]
        exact one_dvd _
    obtain ⟨n, hn⟩ := hd
    left
    refine ⟨n, ?_⟩
    rw [hn]
    push_cast
    ring
  · rw [not_or, not_le] at hc
    have := units_lt hc.1
    exact .inr ⟨by exact_mod_cast this, hc.2⟩

theorem code_nearest_multiple (b : ℕ) {y : K} (hy : 0 ≤ y) (n : ℤ) :
    |(units b (code b y) : K) - y| ≤ |(n : K) * 2 ^ shift b y - y| := by
  have hp : (0 : K) < 2 ^ shift b y := by positivity
  have he : (n : K) * 2 ^ shift b y - y = ((n : K) - y / 2 ^ shift b y) * 2 ^ shift b y := by
    field_simp
  rw [abs_units_code_sub b hy, he, abs_mul, abs_of_pos hp]
  exact mul_le_mul_of_nonneg_right (roundEven_nearest _ n) hp.le

/-- The smallest magnitude that has the shift of `y` is not nearer. -/
theorem code_nearest_low {b : ℕ} {y : K} (h : (2 : K) ^ b * 2 ^ shift b y ≤ y) :
    |(units b (code b y) : K) - y| ≤ y - 2 ^ b * 2 ^ shift b y := by
  have hy : 0 ≤ y := le_trans (by positivity) h
  have hlow := code_nearest_multiple b hy (2 ^ b : ℕ)
  push_cast at hlow
  rwa [abs_of_nonpos (sub_nonpos.mpr h), neg_sub] at hlow

theorem code_nearest_of_lt {b c : ℕ} {y : K} (hs : shift b y ≠ 0)
    (hlt : (units b c : K) < 2 ^ b * 2 ^ shift b y) :
    |(units b (code b y) : K) - y| < |(units b c : K) - y| := by
  have hle := (le_div_iff₀ (by positivity)).mp (le_div_shift hs)
  rw [abs_of_nonpos (by linarith : (units b c : K) - y ≤ 0)]
  linarith [code_nearest_low hle]

theorem code_nearest (b : ℕ) {y : K} (hy : 0 ≤ y) (c : ℕ) :
    |(units b (code b y) : K) - y| ≤ |(units b c : K) - y| := by
  obtain ⟨n, hn⟩ | ⟨hlt, hs⟩ := units_multiple_or_lt b c y
  · rw [hn]
    exact code_nearest_multiple b hy n
  · exact (code_nearest_of_lt hs hlt).le

theorem code_units (b c : ℕ) : code b (units b c : K) = c := by
  have h := code_nearest b (Nat.cast_nonneg (α := K) (units b c)) c
  rw [sub_self, abs_zero] at h
  have he : (units b (code b (units b c : K)) : K) = units b c :=
    sub_eq_zero.mp (abs_eq_zero.mp (le_antisymm h (abs_nonneg _)))
  exact (units_strictMono b).injective (by exact_mod_cast he)

theorem code_mono (b : ℕ) {x y : K} (hx : 0 ≤ x) (h : x ≤ y) : code b x ≤ code b y := by
  by_contra hlt
  have hu : (units b (code b y) : K) < units b (code b x) := by
    exact_mod_cast units_strictMono b (not_le.mp hlt)
  -- Each is at its own side of the midpoint of the two, so the arguments are equal.
  have hmid : x = y := by
    have hnx := code_nearest b hx (code b y)
    have hny := code_nearest b (hx.trans h) (code b x)
    rcases abs_cases ((units b (code b x) : K) - x) with ⟨e₁, _⟩ | ⟨e₁, _⟩ <;>
      rcases abs_cases ((units b (code b y) : K) - x) with ⟨e₂, _⟩ | ⟨e₂, _⟩ <;>
      rcases abs_cases ((units b (code b y) : K) - y) with ⟨e₃, _⟩ | ⟨e₃, _⟩ <;>
      rcases abs_cases ((units b (code b x) : K) - y) with ⟨e₄, _⟩ | ⟨e₄, _⟩ <;>
      linarith
  rw [hmid] at hlt
  exact hlt (le_refl _)

/-- Of two magnitudes that are equally near the one with the even code is taken. -/
theorem code_tie {b : ℕ} (hb : 0 < b) {y : K} (hy : 0 ≤ y) {c : ℕ} (hne : c ≠ code b y)
    (h : |(units b c : K) - y| = |(units b (code b y) : K) - y|) : code b y % 2 = 0 := by
  have hp : (0 : K) < 2 ^ shift b y := by positivity
  have hdiv : |(units b c : K) - y| = |(units b c : K) / 2 ^ shift b y - y / 2 ^ shift b y| *
      2 ^ shift b y := by
    rw [← sub_div, abs_div, abs_of_pos hp, div_mul_cancel₀ _ hp.ne']
  obtain ⟨n, hn⟩ | ⟨hlt, hs⟩ := units_multiple_or_lt b c y
  · have hnn : n ≠ roundEven (y / 2 ^ shift b y) := by
      rintro rfl
      rw [← units_code b hy] at hn
      exact hne ((units_strictMono b).injective (by exact_mod_cast hn))
    rw [abs_units_code_sub b hy, hdiv, hn, mul_div_cancel_right₀ _ hp.ne'] at h
    have htie := roundEven_tie hnn (mul_right_cancel₀ hp.ne' h)
    have heven : 2 ∣ 2 ^ b := dvd_pow_self 2 hb.ne'
    have hm : shift b y * 2 ^ b % 2 = 0 := Nat.mod_eq_zero_of_dvd (Dvd.dvd.mul_left heven _)
    unfold code
    omega
  · exact absurd h (code_nearest_of_lt hs hlt).ne'

/-- A magnitude of at most `b + 1` significant bits is kept. -/
theorem units_code_mul_two_pow {b n : ℕ} (hn : n < 2 ^ (b + 1)) (k : ℕ) :
    units b (code b (n * 2 ^ k : K)) = n * 2 ^ k := by
  have hy : (0 : K) ≤ n * 2 ^ k := by positivity
  have hs : shift b (n * 2 ^ k : K) ≤ k := by
    have hlt : n * 2 ^ k < 2 ^ (b + 1 + k) := by
      rw [pow_add 2 (b + 1) k]
      exact Nat.mul_lt_mul_of_pos_right hn (Nat.two_pow_pos k)
    have hf : ⌊(n * 2 ^ k : K)⌋₊ = n * 2 ^ k := by exact_mod_cast Nat.floor_natCast (n * 2 ^ k)
    have := Nat.log_lt_of_lt_pow' (by omega) hlt
    unfold shift
    rw [hf]
    omega
  have hq : (n * 2 ^ k : K) / 2 ^ shift b (n * 2 ^ k : K) =
      ((n * 2 ^ (k - shift b (n * 2 ^ k : K)) : ℕ) : ℤ) := by
    rw [div_eq_iff (by positivity)]
    push_cast
    rw [mul_assoc, ← pow_add, Nat.sub_add_cancel hs]
  have hu := units_code b hy
  rw [hq, roundEven_intCast, ← hq, div_mul_cancel₀ _ (by positivity)] at hu
  exact_mod_cast hu

theorem abs_units_code_sub_le (b : ℕ) {y : K} (hy : 0 ≤ y) :
    |(units b (code b y) : K) - y| ≤ 2 ^ shift b y / 2 := by
  rw [abs_units_code_sub b hy]
  have := abs_roundEven_sub_le (y / 2 ^ shift b y)
  have hp : (0 : K) < 2 ^ shift b y := by positivity
  nlinarith

theorem abs_units_code_sub_le_of_normal {b : ℕ} {y : K} (hy : (2 : K) ^ b ≤ y) :
    |(units b (code b y) : K) - y| ≤ y / (2 ^ (b + 1) + 1) := by
  have hp : (0 : K) < 2 ^ shift b y := by positivity
  have hb : (0 : K) < 2 ^ b := by positivity
  have hy0 : 0 ≤ y := hb.le.trans hy
  have hle : (2 : K) ^ b * 2 ^ shift b y ≤ y := by
    by_cases hs : shift b y = 0
    · rw [hs, pow_zero, mul_one]
      exact hy
    · exact (le_div_iff₀ hp).mp (le_div_shift hs)
  have hhalf := abs_units_code_sub_le b hy0
  have hlow := code_nearest_low hle
  -- A convex combination of the two bounds.
  rw [le_div_iff₀ (by positivity), pow_succ]
  nlinarith

/-- Between two formats with the same exponents rounding a magnitude is
rounding its code. -/
theorem code_units_narrow {b : ℕ} (hb : 0 < b) (j c : ℕ) :
    (code b (units (b + j) c / 2 ^ j : K) : ℤ) = roundEven ((c : K) / 2 ^ j) := by
  obtain ⟨k, m, rfl, hu, hm, hk⟩ := exists_significand (b + j) c
  have hj : (0 : K) < 2 ^ j := by positivity
  have hmK : (m : K) < 2 ^ (b + 1) * 2 ^ j := by
    rw [← pow_add, Nat.add_right_comm]
    exact_mod_cast hm
  have hy : ((units (b + j) (k * 2 ^ (b + j) + m) : ℕ) : K) / 2 ^ j = m / 2 ^ j * 2 ^ k := by
    rw [hu]
    push_cast
    ring
  have hs : shift b (m / 2 ^ j * 2 ^ k : K) = k := by
    apply shift_eq (by positivity)
    · refine hk.imp_right fun hle => ?_
      apply mul_le_mul_of_nonneg_right _ (by positivity)
      rw [le_div_iff₀ hj, ← pow_add]
      exact_mod_cast hle
    · apply mul_lt_mul_of_pos_right _ (by positivity)
      rwa [div_lt_iff₀ hj]
  have hq : ((k * 2 ^ (b + j) + m : ℕ) : K) / 2 ^ j = m / 2 ^ j + ((k * 2 ^ b : ℕ) : ℤ) := by
    push_cast
    rw [pow_add]
    field_simp
    ring
  have heven : ((k * 2 ^ b : ℕ) : ℤ) % 2 = 0 := by
    have : 2 ∣ k * 2 ^ b := Dvd.dvd.mul_left (dvd_pow_self 2 hb.ne') k
    omega
  have hnn : 0 ≤ roundEven (m / 2 ^ j : K) := by
    apply le_roundEven
    push_cast
    positivity
  rw [hy, hq, roundEven_add_even _ heven]
  unfold code
  rw [hs, mul_div_cancel_right₀ _ (by positivity)]
  omega

end Code

end HeteroCluster.FloatCodes
