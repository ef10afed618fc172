import HeteroCluster.FloatCodes
import Mathlib.Algebra.Order.Field.Power
import Mathlib.Algebra.Order.Group.MinMax
import Mathlib.Data.Rat.Floor

namespace HeteroCluster.FloatNumbers

open RoundToEven FloatCodes

/-- A binary interchange format: its fraction bits, the exponent of its
smallest magnitude and the exponent field of infinity. -/
structure Format where
  fraction : ℕ
  least : ℤ
  top : ℕ

/-- The code of infinity. The codes above it are those of the NaNs. -/
def Format.infinity (f : Format) : ℕ := f.top * 2 ^ f.fraction

structure Number (f : Format) where
  negative : Bool
  code : ℕ
deriving DecidableEq

variable {f g : Format}

namespace Number

def isNaN (a : Number f) : Bool := f.infinity < a.code

def isInf (a : Number f) : Bool := a.code = f.infinity

def magnitude (a : Number f) : ℚ := units f.fraction a.code * 2 ^ f.least

def value (a : Number f) : ℚ := if a.negative then -a.magnitude else a.magnitude

def nan : Number f := ⟨false, f.infinity + 2 ^ (f.fraction - 1)⟩

def inf (negative : Bool) : Number f := ⟨negative, f.infinity⟩

/-- The number of the format nearest to a magnitude, or infinity beyond the
largest one. -/
def ofMagnitude (negative : Bool) (x : ℚ) : Number f :=
  ⟨negative, min (FloatCodes.code f.fraction (x / 2 ^ f.least)) f.infinity⟩

def ofInt (n : ℤ) : Number f := ofMagnitude (n < 0) |n|

def neg (a : Number f) : Number f := ⟨!a.negative, a.code⟩

def add (a b : Number f) : Number f :=
  if a.isNaN || b.isNaN then nan
  else if a.isInf || b.isInf then
    if a.isInf && b.isInf && a.negative != b.negative then nan
    else inf (if a.isInf then a.negative else b.negative)
  else
    let sum := a.value + b.value
    ofMagnitude (if sum = 0 then a.negative && b.negative else sum < 0) |sum|

def sub (a b : Number f) : Number f := a.add b.neg

def mul (a b : Number f) : Number f :=
  if a.isNaN || b.isNaN then nan
  else if a.isInf || b.isInf then
    if a.code = 0 || b.code = 0 then nan else inf (a.negative != b.negative)
  else ofMagnitude (a.negative != b.negative) (a.magnitude * b.magnitude)

def div (a b : Number f) : Number f :=
  if a.isNaN || b.isNaN then nan
  else if a.isInf then if b.isInf then nan else inf (a.negative != b.negative)
  else if b.code = 0 then if a.code = 0 then nan else inf (a.negative != b.negative)
  else if b.isInf then ofMagnitude (a.negative != b.negative) 0
  else ofMagnitude (a.negative != b.negative) (a.magnitude / b.magnitude)

def convert (a : Number f) : Number g :=
  if a.isNaN then nan else if a.isInf then inf a.negative else ofMagnitude a.negative a.magnitude

def roundToEven (a : Number f) : Number f :=
  if a.isNaN || a.isInf then a else ofMagnitude a.negative (roundEven a.magnitude)

/-- The order of the numbers that are not NaN. -/
def key (a : Number f) : ℤ := if a.negative then -a.code else a.code

def maximum (a b : Number f) : Number f :=
  if a.isNaN || b.isNaN then nan else if a.key < b.key then b else a

def minimum (a b : Number f) : Number f :=
  if a.isNaN || b.isNaN then nan else if b.key < a.key then b else a

/-- The integer part, as a conversion to an integer type takes it. -/
def toInt (a : Number f) : ℤ := if a.negative then -⌊a.magnitude⌋ else ⌊a.magnitude⌋

end Number

/-- The magnitude infinity would have if it were one. -/
def Format.limit (f : Format) : ℚ := units f.fraction f.infinity * 2 ^ f.least

theorem Format.limit_eq (f : Format) (h : f.top ≠ 0) :
    f.limit = 2 ^ (f.fraction + (f.top - 1 : ℕ) + f.least) := by
  have hi : f.infinity = (f.top - 1) * 2 ^ f.fraction + 2 ^ f.fraction := by
    unfold Format.infinity
    rw [← Nat.succ_mul, Nat.succ_eq_add_one, Nat.sub_add_cancel (by omega)]
  unfold Format.limit
  rw [hi, units_mul_add (Nat.le_refl _) (Nat.pow_le_pow_right (by decide) (Nat.le_succ _)),
    zpow_add₀ two_ne_zero, zpow_add₀ two_ne_zero, zpow_natCast, zpow_natCast]
  push_cast
  rfl

/-- A rational rounded to the format as if its exponents had no upper bound. -/
def nearest (f : Format) (x : ℚ) : ℚ :=
  if x < 0 then -(units f.fraction (code f.fraction (-x / 2 ^ f.least)) * 2 ^ f.least)
  else units f.fraction (code f.fraction (x / 2 ^ f.least)) * 2 ^ f.least

theorem nearest_of_nonneg {x : ℚ} (hx : 0 ≤ x) :
    nearest f x = units f.fraction (code f.fraction (x / 2 ^ f.least)) * 2 ^ f.least :=
  if_neg (not_lt.mpr hx)

theorem code_zero (b : ℕ) : code b (0 : ℚ) = 0 := by
  have h : units b 0 = 0 := units_of_lt (Nat.two_pow_pos b)
  have := code_units (K := ℚ) b 0
  rwa [h, Nat.cast_zero] at this

theorem nearest_zero : nearest f 0 = 0 := by
  rw [nearest_of_nonneg le_rfl, zero_div, code_zero, units_of_lt (Nat.two_pow_pos _)]
  simp

theorem nearest_neg (x : ℚ) : nearest f (-x) = -nearest f x := by
  obtain hlt | rfl | hgt := lt_trichotomy x 0
  · unfold nearest
    rw [if_neg (by linarith), if_pos hlt, neg_neg]
  · rw [neg_zero, nearest_zero, neg_zero]
  · unfold nearest
    rw [if_pos (by linarith), if_neg (by linarith), neg_neg]

theorem nearest_nonneg {x : ℚ} (hx : 0 ≤ x) : 0 ≤ nearest f x := by
  rw [nearest_of_nonneg hx]
  positivity

theorem nearest_mono {x y : ℚ} (h : x ≤ y) : nearest f x ≤ nearest f y := by
  have hmono : ∀ {x y : ℚ}, 0 ≤ x → x ≤ y → nearest f x ≤ nearest f y := by
    intro x y hx h
    rw [nearest_of_nonneg hx, nearest_of_nonneg (hx.trans h)]
    have hc : code f.fraction (x / 2 ^ f.least) ≤ code f.fraction (y / 2 ^ f.least) :=
      code_mono _ (by positivity) (by gcongr)
    gcongr
    exact (units_strictMono _).monotone hc
  by_cases hx : 0 ≤ x
  · exact hmono hx h
  by_cases hy : 0 ≤ y
  · have hx' : 0 ≤ nearest f (-x) := nearest_nonneg (by linarith)
    rw [nearest_neg] at hx'
    exact (by linarith : nearest f x ≤ 0).trans (nearest_nonneg hy)
  · have hyx := hmono (by linarith : 0 ≤ -y) (neg_le_neg h)
    rw [nearest_neg, nearest_neg] at hyx
    linarith

theorem nearest_mul_two_zpow {m : ℕ} {e : ℤ} (hm : m < 2 ^ (f.fraction + 1)) (he : f.least ≤ e) :
    nearest f (m * 2 ^ e) = m * 2 ^ e := by
  have hdiv : (m * 2 ^ e : ℚ) / 2 ^ f.least = m * 2 ^ (e - f.least).toNat := by
    rw [mul_div_assoc, ← zpow_sub₀ (by norm_num), ← zpow_natCast, Int.toNat_of_nonneg (by omega)]
  rw [nearest_of_nonneg (by positivity), hdiv, units_code_mul_two_pow hm]
  push_cast
  rw [← zpow_natCast, Int.toNat_of_nonneg (by omega), mul_assoc, ← zpow_add₀ (by norm_num),
    sub_add_cancel]

theorem nearest_natCast {n : ℕ} (hn : n < 2 ^ (f.fraction + 1)) (hf : f.least ≤ 0) :
    nearest f n = n := by
  have := nearest_mul_two_zpow hn hf
  rwa [zpow_zero, mul_one] at this

theorem nearest_intCast {n : ℤ} (hn : n.natAbs < 2 ^ (f.fraction + 1)) (hf : f.least ≤ 0) :
    nearest f n = n := by
  cases n with
  | ofNat n => exact nearest_natCast hn hf
  | negSucc n =>
    rw [Int.cast_negSucc, nearest_neg]
    exact congrArg Neg.neg (nearest_natCast hn hf)

theorem abs_nearest_sub_le {x : ℚ} (hx : 2 ^ f.fraction * 2 ^ f.least ≤ |x|) :
    |nearest f x - x| ≤ |x| / (2 ^ (f.fraction + 1) + 1) := by
  have hpos : ∀ {x : ℚ}, 2 ^ f.fraction * 2 ^ f.least ≤ x →
      |nearest f x - x| ≤ x / (2 ^ (f.fraction + 1) + 1) := by
    intro x hx
    have hl : (0 : ℚ) < 2 ^ f.least := by positivity
    have hy : (2 : ℚ) ^ f.fraction ≤ x / 2 ^ f.least := (le_div_iff₀ hl).mpr hx
    have hx0 : 0 ≤ x := (by positivity : (0 : ℚ) ≤ 2 ^ f.fraction * 2 ^ f.least).trans hx
    have h := abs_units_code_sub_le_of_normal hy
    have he : nearest f x - x = (units f.fraction (code f.fraction (x / 2 ^ f.least)) -
        x / 2 ^ f.least) * 2 ^ f.least := by
      rw [nearest_of_nonneg hx0, sub_mul, div_mul_cancel₀ _ hl.ne']
    rw [he, abs_mul, abs_of_pos hl]
    calc _ ≤ x / 2 ^ f.least / (2 ^ (f.fraction + 1) + 1) * 2 ^ f.least :=
          mul_le_mul_of_nonneg_right h hl.le
      _ = x / (2 ^ (f.fraction + 1) + 1) := by field_simp
  by_cases hs : 0 ≤ x
  · rw [abs_of_nonneg hs] at hx ⊢
    exact hpos hx
  · rw [abs_of_neg (not_le.mp hs)] at hx ⊢
    have := hpos hx
    rwa [nearest_neg, neg_sub_neg, abs_sub_comm] at this

theorem abs_nearest_le {x y : ℚ} (h : |x| ≤ y) (hy : nearest f y = y) : |nearest f x| ≤ y := by
  obtain ⟨hl, hu⟩ := abs_le.mp h
  have hlow := nearest_mono (f := f) hl
  have hhigh := nearest_mono (f := f) hu
  rw [nearest_neg, hy] at hlow
  rw [hy] at hhigh
  exact abs_le.mpr ⟨hlow, hhigh⟩

namespace Number

/-- The number is the one of its format that is nearest to a magnitude, and
of two that are equally near it is the one with the even code. -/
structure IsRounding (r : Number f) (x : ℚ) : Prop where
  nearest : ∀ c, |r.magnitude - x| ≤ |(⟨false, c⟩ : Number f).magnitude - x|
  even : ∀ c, c ≠ r.code → |(⟨false, c⟩ : Number f).magnitude - x| = |r.magnitude - x| →
    r.code % 2 = 0

theorem isRounding_code (hf : 0 < f.fraction) (negative : Bool) {x : ℚ} (hx : 0 ≤ x) :
    IsRounding (⟨negative, FloatCodes.code f.fraction (x / 2 ^ f.least)⟩ : Number f) x := by
  have hl : (0 : ℚ) < 2 ^ f.least := by positivity
  have hy : 0 ≤ x / 2 ^ f.least := by positivity
  have he : ∀ (n : Bool) (c : ℕ), |(⟨n, c⟩ : Number f).magnitude - x| =
      |(units f.fraction c : ℚ) - x / 2 ^ f.least| * 2 ^ f.least := by
    intro n c
    unfold magnitude
    rw [← abs_of_pos hl, ← abs_mul, sub_mul, abs_of_pos hl, div_mul_cancel₀ _ hl.ne']
  constructor
  · intro c
    rw [he, he]
    exact mul_le_mul_of_nonneg_right (code_nearest _ hy c) hl.le
  · intro c hc heq
    rw [he, he] at heq
    exact code_tie hf hy hc (mul_right_cancel₀ hl.ne' heq)

theorem magnitude_nonneg (a : Number f) : 0 ≤ a.magnitude := by
  unfold magnitude
  positivity

theorem magnitude_eq_zero {a : Number f} (h : a.code = 0) : a.magnitude = 0 := by
  unfold magnitude
  rw [h, units_of_lt (Nat.two_pow_pos _), Nat.cast_zero, zero_mul]

theorem magnitude_pos {a : Number f} (h : 0 < a.code) : 0 < a.magnitude := by
  have hu := units_strictMono f.fraction h
  rw [units_of_lt (Nat.two_pow_pos _)] at hu
  unfold magnitude
  positivity

theorem abs_value (a : Number f) : |a.value| = a.magnitude := by
  unfold value
  split
  · rw [abs_neg, abs_of_nonneg a.magnitude_nonneg]
  · exact abs_of_nonneg a.magnitude_nonneg

theorem magnitude_lt_limit {a : Number f} (h : a.code < f.infinity) : a.magnitude < f.limit := by
  unfold magnitude Format.limit
  have := units_strictMono f.fraction h
  gcongr

theorem code_lt_infinity {a : Number f} (h : a.magnitude < f.limit) : a.code < f.infinity := by
  by_contra hle
  have := (units_strictMono f.fraction).monotone (not_lt.mp hle)
  apply absurd h (not_lt.mpr _)
  unfold magnitude Format.limit
  gcongr

theorem isNaN_eq_false {a : Number f} (h : a.code ≤ f.infinity) : a.isNaN = false :=
  decide_eq_false (by omega)

theorem isInf_eq_false {a : Number f} (h : a.code < f.infinity) : a.isInf = false :=
  decide_eq_false (by omega)

theorem code_ofMagnitude_le (negative : Bool) (x : ℚ) :
    (ofMagnitude negative x : Number f).code ≤ f.infinity := Nat.min_le_right _ _

theorem magnitude_ofMagnitude (negative : Bool) {x : ℚ} (hx : 0 ≤ x) :
    (ofMagnitude negative x : Number f).magnitude = min (nearest f x) f.limit := by
  have hm := (units_strictMono f.fraction).monotone.map_min
    (a := FloatCodes.code f.fraction (x / 2 ^ f.least)) (b := f.infinity)
  rw [nearest_of_nonneg hx]
  unfold magnitude ofMagnitude Format.limit
  rw [hm, Nat.cast_min, min_mul_of_nonneg _ _ (by positivity)]

def bounded (f : Format) (x : ℚ) : ℚ := max (-f.limit) (min x f.limit)

theorem limit_nonneg (f : Format) : 0 ≤ f.limit := by
  unfold Format.limit
  positivity

theorem bounded_of_abs_le {x : ℚ} (h : |x| ≤ f.limit) : bounded f x = x := by
  obtain ⟨hl, hr⟩ := abs_le.mp h
  unfold bounded
  rw [min_eq_left hr, max_eq_right hl]

theorem le_bounded {x y : ℚ} (h : y ≤ x) (hy : y ≤ f.limit) : y ≤ bounded f x :=
  le_max_of_le_right (le_min h hy)

theorem bounded_le {x y : ℚ} (h : x ≤ y) (hy : -f.limit ≤ y) : bounded f x ≤ y :=
  max_le hy ((min_le_left _ _).trans h)

theorem eq_bounded_of_abs_lt {x : ℚ} (h : |bounded f x| < f.limit) : bounded f x = x := by
  obtain ⟨hl, hr⟩ := abs_lt.mp h
  unfold bounded at *
  obtain hx | hx := le_total x f.limit
  · rw [min_eq_left hx] at hl ⊢
    exact max_eq_right (lt_max_iff.mp hl |>.resolve_left (lt_irrefl _)).le
  · rw [min_eq_right hx] at hr
    exact absurd (le_max_right (-f.limit) f.limit) hr.not_ge

theorem beyond_of_abs_bounded {x : ℚ} (hf : 0 < f.limit) (h : |bounded f x| = f.limit) :
    f.limit ≤ x ∧ bounded f x = f.limit ∨ x ≤ -f.limit ∧ bounded f x = -f.limit := by
  unfold bounded at *
  obtain hx | hx := le_total f.limit x
  · rw [min_eq_right hx, max_eq_right (by linarith)]
    exact .inl ⟨hx, rfl⟩
  obtain hx' | hx' := le_total x (-f.limit)
  · rw [min_eq_left hx, max_eq_left hx']
    exact .inr ⟨hx', rfl⟩
  · rw [min_eq_left hx, max_eq_right hx'] at h ⊢
    obtain hp | hn := abs_choice x
    · exact .inl ⟨by linarith, by linarith⟩
    · exact .inr ⟨by linarith, by linarith⟩

/-- The flag is the sign of the rational, except that zero has either. -/
def SignOf (negative : Bool) (x : ℚ) : Prop := (x < 0 → negative = true) ∧ (0 < x → negative = false)

theorem signOf_value (a : Number f) : SignOf a.negative a.value := by
  have hm := a.magnitude_nonneg
  unfold value
  constructor
  · intro h
    by_contra hn
    rw [if_neg hn] at h
    linarith
  · intro h
    by_contra hn
    rw [if_pos (Bool.eq_true_of_not_eq_false hn)] at h
    linarith

theorem SignOf.mul {m n : Bool} {x y : ℚ} (hx : SignOf m x) (hy : SignOf n y) :
    SignOf (m != n) (x * y) := by
  constructor
  · intro h
    obtain ⟨hx', hy'⟩ | ⟨hx', hy'⟩ := mul_neg_iff.mp h
    · rw [hx.2 hx', hy.1 hy']
      rfl
    · rw [hx.1 hx', hy.2 hy']
      rfl
  · intro h
    obtain ⟨hx', hy'⟩ | ⟨hx', hy'⟩ := mul_pos_iff.mp h
    · rw [hx.2 hx', hy.2 hy']
      rfl
    · rw [hx.1 hx', hy.1 hy']
      rfl

theorem SignOf.inv {n : Bool} {y : ℚ} (hy : SignOf n y) : SignOf n y⁻¹ :=
  ⟨fun h => hy.1 (inv_lt_zero.mp h), fun h => hy.2 (inv_pos.mp h)⟩

theorem signOf_decide (x : ℚ) : SignOf (decide (x < 0)) x :=
  ⟨fun h => decide_eq_true h, fun h => decide_eq_false h.le.not_gt⟩

theorem negative_ofMagnitude (negative : Bool) (x : ℚ) :
    (ofMagnitude negative x : Number f).negative = negative := rfl

theorem value_ofMagnitude {negative : Bool} {x : ℚ} (h : SignOf negative x) :
    (ofMagnitude negative |x| : Number f).value = bounded f (nearest f x) := by
  have hl := limit_nonneg f
  unfold value bounded
  rw [magnitude_ofMagnitude _ (abs_nonneg x), negative_ofMagnitude]
  obtain hlt | rfl | hgt := lt_trichotomy x 0
  · have hx := nearest_nonneg (f := f) (by linarith : 0 ≤ -x)
    rw [nearest_neg] at hx
    rw [h.1 hlt, if_pos rfl, abs_of_neg hlt, nearest_neg,
      min_eq_left (by linarith : nearest f x ≤ f.limit), ← max_neg_neg, neg_neg, max_comm]
  · rw [abs_zero, nearest_zero, min_eq_left hl, neg_zero, ite_self, max_eq_right (by linarith)]
  · have hx := le_min (nearest_nonneg (f := f) hgt.le) hl
    rw [h.2 hgt, if_neg Bool.false_ne_true, abs_of_pos hgt, max_eq_right (by linarith)]

theorem value_neg (a : Number f) : a.neg.value = -a.value := by
  obtain ⟨negative, c⟩ := a
  cases negative
  · rfl
  · exact (neg_neg _).symm

/-- Finite numbers, on which the operations round the exact results. -/
def Finite (a : Number f) : Prop := a.code < f.infinity

section Finite

variable {a b : Number f}

theorem Finite.flags (h : a.Finite) : a.isNaN = false ∧ a.isInf = false :=
  ⟨isNaN_eq_false (Nat.le_of_lt h), isInf_eq_false h⟩

theorem finite_of_abs_value_lt (h : |a.value| < f.limit) : a.Finite :=
  code_lt_infinity (abs_value a ▸ h)

/-- A result that rounds below the limit is finite and is what it rounds to. -/
theorem finite_of_value_eq {y : ℚ} (h : a.value = bounded f y) (hy : |y| < f.limit) :
    a.Finite ∧ a.value = y := by
  rw [bounded_of_abs_le hy.le] at h
  exact ⟨finite_of_abs_value_lt (h ▸ hy), h⟩

theorem value_ofInt (n : ℤ) : (ofInt n : Number f).value = bounded f (nearest f n) := by
  have hs : SignOf (decide (n < 0)) (n : ℚ) := by
    have := signOf_decide (n : ℚ)
    rwa [show decide ((n : ℚ) < 0) = decide (n < 0) from decide_eq_decide.mpr Int.cast_lt_zero]
      at this
  exact value_ofMagnitude hs

theorem value_add (ha : a.Finite) (hb : b.Finite) :
    (a.add b).value = bounded f (nearest f (a.value + b.value)) := by
  unfold add
  rw [ha.flags.1, ha.flags.2, hb.flags.1, hb.flags.2]
  refine value_ofMagnitude ⟨fun h => ?_, fun h => ?_⟩
  · rw [if_neg h.ne]
    exact decide_eq_true h
  · rw [if_neg h.ne']
    exact decide_eq_false h.le.not_gt

theorem value_sub (ha : a.Finite) (hb : b.Finite) :
    (a.sub b).value = bounded f (nearest f (a.value - b.value)) := by
  unfold sub
  rw [value_add ha (show b.neg.Finite from hb), value_neg, sub_eq_add_neg]

theorem value_mul (ha : a.Finite) (hb : b.Finite) :
    (a.mul b).value = bounded f (nearest f (a.value * b.value)) := by
  have h := value_ofMagnitude (f := f) ((signOf_value a).mul (signOf_value b))
  unfold mul
  rw [ha.flags.1, ha.flags.2, hb.flags.1, hb.flags.2]
  rwa [abs_mul, abs_value, abs_value] at h

theorem value_div (ha : a.Finite) (hb : b.Finite) (hz : b.code ≠ 0) :
    (a.div b).value = bounded f (nearest f (a.value / b.value)) := by
  have h := value_ofMagnitude (f := f) ((signOf_value a).mul (signOf_value b).inv)
  unfold div
  rw [ha.flags.1, ha.flags.2, hb.flags.1, hb.flags.2, if_neg hz]
  rwa [← div_eq_mul_inv, abs_div, abs_value, abs_value] at h

theorem value_convert (ha : a.Finite) :
    (a.convert : Number g).value = bounded g (nearest g a.value) := by
  have h := value_ofMagnitude (f := g) (signOf_value a)
  unfold convert
  rw [ha.flags.1, ha.flags.2]
  rwa [abs_value] at h

theorem nearest_value (hp : f.fraction ≤ g.fraction) (hl : g.least ≤ f.least) (a : Number f) :
    nearest g a.value = a.value := by
  obtain ⟨k, m, -, hu, hm, -⟩ := exists_significand f.fraction a.code
  have he : a.magnitude = m * 2 ^ ((k : ℤ) + f.least) := by
    unfold magnitude
    rw [hu, zpow_add₀ two_ne_zero, zpow_natCast]
    push_cast
    ring
  have hn : nearest g a.magnitude = a.magnitude := by
    rw [he]
    apply nearest_mul_two_zpow
    · exact hm.trans_le (Nat.pow_le_pow_right (by decide) (by omega))
    · omega
  unfold value
  split
  · rw [nearest_neg, hn]
  · exact hn

theorem convert_widens (hp : f.fraction ≤ g.fraction) (hl : g.least ≤ f.least)
    (hm : f.limit ≤ g.limit) (ha : a.Finite) :
    (a.convert : Number g).Finite ∧ (a.convert : Number g).value = a.value := by
  have hlt : |a.value| < g.limit := by
    rw [abs_value]
    exact (magnitude_lt_limit ha).trans_le hm
  have hv := value_convert (g := g) ha
  rw [nearest_value hp hl] at hv
  exact finite_of_value_eq hv hlt

theorem value_roundToEven (ha : a.Finite) :
    a.roundToEven.value = bounded f (nearest f (roundEven a.value)) := by
  have hs : SignOf a.negative (roundEven a.value : ℚ) := by
    constructor
    · intro h
      apply (signOf_value a).1
      by_contra hle
      exact absurd (Int.cast_lt_zero.mp h) (le_roundEven (by simpa using hle)).not_gt
    · intro h
      apply (signOf_value a).2
      by_contra hle
      exact absurd (Int.cast_pos.mp h) (roundEven_le (by simpa using hle)).not_gt
  have habs : |(roundEven a.value : ℚ)| = roundEven a.magnitude := by
    have hnn : (0 : ℚ) ≤ roundEven a.magnitude := by
      exact_mod_cast le_roundEven (n := 0) (by simpa using a.magnitude_nonneg)
    unfold value
    split
    · rw [roundEven_neg, Int.cast_neg, abs_neg, abs_of_nonneg hnn]
    · exact abs_of_nonneg hnn
  have h := value_ofMagnitude (f := f) hs
  unfold roundToEven
  rw [ha.flags.1, ha.flags.2]
  rwa [habs] at h

theorem infinite_or_finite (h : a.code ≤ f.infinity) :
    a.Finite ∨ a = inf a.negative ∧ |a.value| = f.limit := by
  obtain hlt | heq := Nat.lt_or_eq_of_le h
  · exact .inl hlt
  · refine .inr ⟨?_, ?_⟩
    · obtain ⟨negative, c⟩ := a
      exact congrArg (Number.mk negative) heq
    · rw [abs_value]
      unfold magnitude Format.limit
      rw [heq]

theorem value_le_of_key_le (h : a.key ≤ b.key) : a.value ≤ b.value := by
  have hle : ∀ {c d : ℕ}, c ≤ d → (units f.fraction c : ℚ) * 2 ^ f.least ≤
      units f.fraction d * 2 ^ f.least := by
    intro c d hcd
    have := (units_strictMono f.fraction).monotone hcd
    gcongr
  have ha := a.magnitude_nonneg
  have hb := b.magnitude_nonneg
  unfold key at h
  unfold value
  split at h <;> split at h <;> simp only [*]
  · exact neg_le_neg (hle (by omega))
  · simpa using (by linarith : -a.magnitude ≤ b.magnitude)
  · have hza := magnitude_eq_zero (a := a) (by omega)
    have hzb := magnitude_eq_zero (a := b) (by omega)
    simp [hza, hzb]
  · simpa [magnitude] using hle (by omega)

theorem value_maximum (ha : a.code ≤ f.infinity) (hb : b.code ≤ f.infinity) :
    (a.maximum b).value = max a.value b.value := by
  unfold maximum
  rw [isNaN_eq_false ha, isNaN_eq_false hb]
  by_cases h : a.key < b.key
  · rw [Bool.or_false, if_neg Bool.false_ne_true, if_pos h, max_eq_right (value_le_of_key_le h.le)]
  · rw [Bool.or_false, if_neg Bool.false_ne_true, if_neg h,
      max_eq_left (value_le_of_key_le (not_lt.mp h))]

theorem value_minimum (ha : a.code ≤ f.infinity) (hb : b.code ≤ f.infinity) :
    (a.minimum b).value = min a.value b.value := by
  unfold minimum
  rw [isNaN_eq_false ha, isNaN_eq_false hb]
  by_cases h : b.key < a.key
  · rw [Bool.or_false, if_neg Bool.false_ne_true, if_pos h, min_eq_right (value_le_of_key_le h.le)]
  · rw [Bool.or_false, if_neg Bool.false_ne_true, if_neg h,
      min_eq_left (value_le_of_key_le (not_lt.mp h))]

theorem toInt_eq {z : ℤ} (h : a.value = z) : a.toInt = z := by
  unfold value at h
  unfold toInt
  split at h
  · have hm : a.magnitude = (-z : ℤ) := by
      push_cast
      linarith
    rw [if_pos ‹_›, hm, Int.floor_intCast, neg_neg]
  · rw [if_neg ‹_›, h, Int.floor_intCast]

end Finite

end Number

end HeteroCluster.FloatNumbers
