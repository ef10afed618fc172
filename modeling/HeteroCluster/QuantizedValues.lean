import HeteroCluster.Quantization

namespace HeteroCluster.QuantizedValues

open RoundToEven FloatNumbers FloatCodes FloatNumbers.Number Quantization

variable {request : Conversion} {value : Binary32} {byte : UInt8}

theorem limit_binary64 : binary64.limit = 2 ^ (1024 : ℤ) := Format.limit_eq binary64 (by decide)

theorem limit_binary32 : binary32.limit = 2 ^ (128 : ℤ) := Format.limit_eq binary32 (by decide)

/-- The scales that a request may have: positive and finite. -/
structure ValidScale (scale : Binary64) : Prop where
  finite : scale.Finite
  positive : 0 < scale.value

theorem ValidScale.code_ne_zero {scale : Binary64} (h : ValidScale scale) : scale.code ≠ 0 := by
  intro hz
  have := abs_pos.mpr h.positive.ne'
  rw [abs_value, magnitude_eq_zero hz] at this
  exact lt_irrefl _ this

theorem value_widened (h : value.Finite) :
    (value.convert : Binary64).Finite ∧ (value.convert : Binary64).value = value.value := by
  apply convert_widens (by decide) (by decide) _ h
  rw [limit_binary32, limit_binary64]
  exact zpow_le_zpow_right₀ (by norm_num) (by norm_num)

theorem thousand_lt_limit : (1024 : ℚ) < binary64.limit := by
  rw [limit_binary64, show (1024 : ℚ) = 2 ^ (10 : ℤ) by norm_num]
  exact zpow_lt_zpow_right₀ (by norm_num) (by norm_num)

theorem nearest_small {n : ℤ} (hl : -2000 ≤ n) (hu : n ≤ 2000) : nearest binary64 n = n := by
  apply nearest_intCast _ (by decide)
  have : n.natAbs ≤ 2000 := by omega
  exact this.trans_lt (by decide)

theorem abs_intCast_le {n b : ℤ} (hl : -b ≤ n) (hu : n ≤ b) : |(n : ℚ)| ≤ b := by
  rw [abs_le]
  exact ⟨by exact_mod_cast hl, by exact_mod_cast hu⟩

theorem ofInt_small {n : ℤ} (hl : -1024 ≤ n) (hu : n ≤ 1024) :
    (ofInt n : Binary64).Finite ∧ (ofInt n : Binary64).value = n := by
  have hlt : |(n : ℚ)| < binary64.limit := (abs_intCast_le hl hu).trans_lt thousand_lt_limit
  have hv := value_ofInt (f := binary64) n
  rw [nearest_small (by omega) (by omega)] at hv
  exact finite_of_value_eq hv hlt

/-- A rational that is the integer `n` where that is within the bound, and
beyond the bound is on the same side. -/
structure StandsFor (x : ℚ) (bound n : ℤ) : Prop where
  exact : -bound ≤ n → n ≤ bound → x = n
  above : bound < n → (bound : ℚ) ≤ x
  below : n < -bound → x ≤ -bound

theorem StandsFor.add {x : ℚ} {bound n z : ℤ} (h : StandsFor x bound n) (hb : 128 ≤ bound)
    (hl : -128 ≤ z) (hu : z ≤ 128) : StandsFor (x + z) (bound - 128) (n + z) := by
  have hlq : (-128 : ℚ) ≤ z := by exact_mod_cast hl
  have huq : (z : ℚ) ≤ 128 := by exact_mod_cast hu
  constructor
  · intro h₁ h₂
    rw [h.exact (by omega) (by omega)]
    push_cast
    rfl
  · intro hgt
    push_cast
    by_cases hn : n ≤ bound
    · rw [h.exact (by omega) hn]
      have : (bound : ℚ) - 128 < n + z := by exact_mod_cast hgt
      linarith
    · have := h.above (not_le.mp hn)
      linarith
  · intro hlt
    push_cast
    by_cases hn : -bound ≤ n
    · rw [h.exact hn (by omega)]
      have : (n : ℚ) + z < -(bound - 128) := by exact_mod_cast hlt
      linarith
    · have := h.below (not_le.mp hn)
      linarith

theorem StandsFor.rounded {x : ℚ} {bound n : ℤ} (h : StandsFor x bound n) (hb : 0 ≤ bound)
    (hb' : bound ≤ 1024) : StandsFor (bounded binary64 (nearest binary64 x)) bound n := by
  have hlim := thousand_lt_limit
  have hbq : (bound : ℚ) ≤ 1024 := by exact_mod_cast hb'
  have hbq' : (0 : ℚ) ≤ bound := by exact_mod_cast hb
  have hnear : nearest binary64 (bound : ℚ) = bound := nearest_small (by omega) (by omega)
  constructor
  · intro hl hu
    rw [h.exact hl hu, nearest_small (by omega) (by omega), bounded_of_abs_le]
    exact (abs_intCast_le hl hu).trans (by linarith)
  · intro hgt
    have := nearest_mono (f := binary64) (h.above hgt)
    exact le_bounded (hnear ▸ this) (by linarith)
  · intro hlt
    have := nearest_mono (f := binary64) (h.below hlt)
    rw [nearest_neg, hnear] at this
    exact bounded_le this (by linarith)

theorem StandsFor.absorb {x : ℚ} {bound n z : ℤ} (h : StandsFor x bound n) (hx : (bound : ℚ) < |x|)
    (hb : 128 ≤ bound) (hl : -128 ≤ z) (hu : z ≤ 128) :
    StandsFor x (bound - 128) (n + z) := by
  have hout : bound < n ∨ n < -bound := by
    by_contra hin
    rw [not_or, not_lt, not_lt] at hin
    rw [h.exact hin.2 hin.1, lt_abs] at hx
    have := hx.imp (by exact_mod_cast id) (fun hx : (bound : ℚ) < -n => by exact_mod_cast hx)
    omega
  obtain hgt | hlt := hout
  · have := h.above hgt
    exact ⟨by omega, fun _ => by push_cast; linarith, by omega⟩
  · have := h.below hlt
    exact ⟨by omega, by omega, fun _ => by push_cast; linarith⟩

theorem roundToEven_standsFor {a : Binary64} {y : ℚ} (ha : a.code ≤ binary64.infinity)
    (hy : a.value = bounded binary64 y) :
    a.roundToEven.code ≤ binary64.infinity ∧
      StandsFor a.roundToEven.value 1024 (roundEven y) := by
  have hlim : (1025 : ℚ) < binary64.limit := by
    rw [limit_binary64]
    exact lt_trans (by norm_num) (zpow_lt_zpow_right₀ (by norm_num) (by norm_num : (11 : ℤ) < 1024))
  obtain hf | ⟨hi, hv⟩ := infinite_or_finite ha
  · have hy' : a.value = y := by
      have hlt := magnitude_lt_limit hf
      rw [← abs_value, hy] at hlt
      rw [hy, eq_bounded_of_abs_lt hlt]
    constructor
    · unfold roundToEven
      rw [hf.flags.1, hf.flags.2]
      exact code_ofMagnitude_le _ _
    · rw [value_roundToEven hf, hy']
      apply StandsFor.rounded _ (by decide) (by decide)
      exact ⟨fun _ _ => rfl, fun h => by exact_mod_cast h.le, fun h => by exact_mod_cast h.le⟩
  · have hs : a.roundToEven = a := by
      have : a.isInf = true := by
        rw [hi]
        exact decide_eq_true rfl
      unfold roundToEven
      rw [this, Bool.or_true, if_pos rfl]
    rw [hs, hy]
    refine ⟨ha, ?_⟩
    rw [hy] at hv
    obtain ⟨hle, he⟩ | ⟨hle, he⟩ := beyond_of_abs_bounded (by linarith) hv
    · have hn : (1025 : ℤ) ≤ roundEven y := le_roundEven (by push_cast; linarith)
      exact ⟨by omega, fun _ => by rw [he]; push_cast; linarith, by omega⟩
    · have hn : roundEven y ≤ (-1025 : ℤ) := roundEven_le (by push_cast; linarith)
      exact ⟨by omega, by omega, fun _ => by rw [he]; push_cast; linarith⟩

theorem add_standsFor {a : Binary64} {bound n z : ℤ} (ha : a.code ≤ binary64.infinity)
    (h : StandsFor a.value bound n) (hb : 128 ≤ bound) (hb' : bound ≤ 1024) (hl : -128 ≤ z)
    (hu : z ≤ 128) : (a.add (ofInt z)).code ≤ binary64.infinity ∧
      StandsFor (a.add (ofInt z)).value (bound - 128) (n + z) := by
  obtain ⟨hzf, hzv⟩ := ofInt_small (n := z) (by omega) (by omega)
  obtain hf | ⟨hi, hv⟩ := infinite_or_finite ha
  · constructor
    · unfold add
      rw [hf.flags.1, hf.flags.2, hzf.flags.1, hzf.flags.2]
      exact code_ofMagnitude_le _ _
    · rw [value_add hf hzf, hzv]
      exact (h.add hb hl hu).rounded (by omega) (by omega)
  · have hs : a.add (ofInt z) = a := by
      have hinf : a.isInf = true := by
        rw [hi]
        exact decide_eq_true rfl
      unfold add
      rw [isNaN_eq_false ha, hinf, hzf.flags.1, hzf.flags.2]
      exact hi.symm
    have hbq : (bound : ℚ) ≤ 1024 := by exact_mod_cast hb'
    rw [hs]
    exact ⟨ha, h.absorb (by linarith [thousand_lt_limit]) hb hl hu⟩

theorem clamp_standsFor {a : Binary64} {bound n : ℤ} (ha : a.code ≤ binary64.infinity)
    (h : StandsFor a.value bound n) (hb : 128 ≤ bound) :
    ((a.maximum (ofInt (-128))).minimum (ofInt 127)).toInt = min (max n (-128)) 127 := by
  obtain ⟨hlf, hlv⟩ := ofInt_small (n := -128) (by omega) (by omega)
  obtain ⟨huf, huv⟩ := ofInt_small (n := 127) (by omega) (by omega)
  have hm : (a.maximum (ofInt (-128))).code ≤ binary64.infinity := by
    unfold maximum
    rw [isNaN_eq_false ha, hlf.flags.1, Bool.or_false, if_neg Bool.false_ne_true]
    split
    · exact Nat.le_of_lt hlf
    · exact ha
  have hbq : (128 : ℚ) ≤ bound := by exact_mod_cast hb
  apply toInt_eq
  rw [value_minimum hm (Nat.le_of_lt huf), value_maximum ha (Nat.le_of_lt hlf), hlv, huv]
  push_cast
  by_cases hu : n ≤ bound
  by_cases hl : -bound ≤ n
  · rw [h.exact hl hu]
  · have hv := h.below (not_le.mp hl)
    have hn : (n : ℚ) < -bound := by exact_mod_cast not_le.mp hl
    rw [max_eq_right (by linarith), max_eq_right (by linarith)]
  · have hv := h.above (not_le.mp hu)
    have hn : (bound : ℚ) < n := by exact_mod_cast not_le.mp hu
    rw [min_eq_right (le_max_of_le_left (by linarith)),
      min_eq_right (le_max_of_le_left (by linarith))]

/-- Quantization in exact arithmetic: one rounded division, the nearest
integer, the zero point, and the ends of the range. -/
theorem quantize_eq (hv : value.Finite) (hs : ValidScale request.scale)
    (hl : -128 ≤ request.zeroPoint) (hu : request.zeroPoint ≤ 127) :
    quantize request value = (Int8.ofInt (min (max (roundEven
      (nearest binary64 (value.value / request.scale.value)) + request.zeroPoint) (-128))
      127)).toUInt8 := by
  obtain ⟨hwf, hwv⟩ := value_widened hv
  have hz := hs.code_ne_zero
  have hd := value_div hwf hs.finite hz
  rw [hwv] at hd
  have hdc : ((value.convert : Binary64).div request.scale).code ≤ binary64.infinity := by
    unfold div
    rw [hwf.flags.1, hwf.flags.2, hs.finite.flags.1, hs.finite.flags.2, if_neg hz]
    exact code_ofMagnitude_le _ _
  obtain ⟨hrc, hr⟩ := roundToEven_standsFor hdc hd
  obtain ⟨hac, ha⟩ := add_standsFor hrc hr (by decide) (by decide) hl (by omega)
  exact congrArg (fun n => (Int8.ofInt n).toUInt8) (clamp_standsFor hac ha (by decide))

end HeteroCluster.QuantizedValues
