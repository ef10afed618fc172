import HeteroCluster.QuantizedValues

namespace HeteroCluster.BFloat16

open RoundToEven FloatNumbers FloatCodes FloatNumbers.Number Quantization QuantizedValues

variable {value : Binary32}

/-- The sign bit of a word whose other bits are the code. -/
def signBit (negative : Bool) (weight : ℕ) : ℕ := if negative then weight else 0

theorem toNat_float32bits (h : value.code < 2 ^ 31) :
    (float32bits value).toNat = value.code + signBit value.negative (2 ^ 31) := by
  have hs : signBit value.negative (2 ^ 31) ≤ 2 ^ 31 := by
    unfold signBit
    split <;> decide
  have hlt : value.code + signBit value.negative (2 ^ 31) < 2 ^ 32 := by omega
  exact UInt32.toNat_ofNat_of_lt' hlt

theorem float32frombits_eq {bits : UInt32} {negative : Bool} {c : ℕ} (hc : c < 2 ^ 31)
    (h : bits.toNat = c + signBit negative (2 ^ 31)) : float32frombits bits = ⟨negative, c⟩ := by
  unfold float32frombits
  rw [h]
  cases negative
  · rw [signBit, if_neg Bool.false_ne_true, Nat.add_zero, Nat.mod_eq_of_lt hc,
      decide_eq_false (by omega)]
  · rw [signBit, if_pos rfl, Nat.add_mod_right, Nat.mod_eq_of_lt hc, decide_eq_true (by omega)]

theorem float32frombits_bits (h : value.code < 2 ^ 31) :
    float32frombits (float32bits value) = value :=
  float32frombits_eq h (toNat_float32bits h)

/-- The code the shortened word holds, without the sign: half of the dropped range is
added first, and one more where the kept part is odd. -/
def shortCode (c : ℕ) : ℕ := (c + (2 ^ 15 - 1 + c / (2 * 2 ^ 15) % 2)) / (2 * 2 ^ 15)

/-- There is no carry into the sign. -/
theorem toNat_float32ToBF16 (h : value.code + 2 ^ 15 < 2 ^ 31) :
    (float32ToBF16 value).toNat = shortCode value.code + signBit value.negative (2 ^ 15) := by
  have hb := toNat_float32bits (show value.code < 2 ^ 31 by omega)
  have hodd : ((float32bits value >>> 16) &&& 1).toNat = value.code / (2 * 2 ^ 15) % 2 := by
    rw [UInt32.toNat_and, UInt32.toNat_shiftRight, hb]
    simp only [UInt32.reduceToNat, Nat.reduceMod, Nat.and_one_is_mod, Nat.shiftRight_eq_div_pow]
    unfold signBit
    split <;> omega
  have hsum : (float32bits value + ((0x7fff : UInt32) + ((float32bits value >>> 16) &&& 1))).toNat =
      value.code + (2 ^ 15 - 1 + value.code / (2 * 2 ^ 15) % 2) +
        signBit value.negative (2 ^ 31) := by
    rw [UInt32.toNat_add, UInt32.toNat_add, hodd, hb]
    simp only [UInt32.reduceToNat]
    have hs : signBit value.negative (2 ^ 31) ≤ 2 ^ 31 := by
      unfold signBit
      split <;> decide
    omega
  unfold float32ToBF16
  rw [UInt32.toNat_toUInt16, UInt32.toNat_shiftRight, hsum]
  simp only [UInt32.reduceToNat, Nat.reduceMod, Nat.shiftRight_eq_div_pow]
  unfold signBit shortCode
  split <;> omega

theorem bf16ToFloat32_eq {bits : UInt16} {negative : Bool} {c : ℕ} (hc : c < 2 ^ 15)
    (h : bits.toNat = c + signBit negative (2 ^ 15)) :
    bf16ToFloat32 bits = ⟨negative, c * 2 ^ 16⟩ := by
  apply float32frombits_eq (by omega)
  rw [UInt32.toNat_shiftLeft, UInt16.toNat_toUInt32, h]
  simp only [UInt32.reduceToNat, Nat.reduceMod, Nat.shiftLeft_eq]
  unfold signBit
  split <;> omega

theorem shortCode_eq (negative : Bool) (c : ℕ) : shortCode c =
    code bfloat16.fraction ((⟨negative, c⟩ : Binary32).magnitude / 2 ^ bfloat16.least) := by
  have hm : (⟨negative, c⟩ : Binary32).magnitude / 2 ^ bfloat16.least =
      (units (7 + 16) c : ℚ) / 2 ^ 16 := by
    change (units 23 c : ℚ) * 2 ^ (-149 : ℤ) / 2 ^ (-133 : ℤ) = _
    rw [mul_div_assoc, ← zpow_sub₀ two_ne_zero, div_eq_mul_inv, ← zpow_natCast, ← zpow_neg]
    rfl
  have hc := code_units_narrow (K := ℚ) (b := 7) (by decide) 16 c
  have hr := roundEven_div_two_mul (K := ℚ) c (2 ^ 15) (by decide)
  have hden : (2 : ℚ) * ((2 ^ 15 : ℕ) : ℚ) = 2 ^ 16 := by norm_num
  rw [hden, ← hc, Int.natCast_inj] at hr
  rw [hm]
  exact hr.symm

theorem shortCode_le {c : ℕ} (h : c ≤ binary32.infinity) : shortCode c ≤ bfloat16.infinity := by
  have h' : c ≤ 255 * 2 ^ 23 := h
  change _ ≤ 255 * 2 ^ 7
  unfold shortCode
  omega

theorem bf16ToFloat32_float32ToBF16 (h : value.code ≤ binary32.infinity) :
    bf16ToFloat32 (float32ToBF16 value) = ⟨value.negative, shortCode value.code * 2 ^ 16⟩ := by
  have h' : value.code ≤ 255 * 2 ^ 23 := h
  have hs : shortCode value.code ≤ 255 * 2 ^ 7 := shortCode_le h
  exact bf16ToFloat32_eq (by omega) (toNat_float32ToBF16 (by omega))

theorem value_bf16 (h : value.code ≤ binary32.infinity) :
    (bf16ToFloat32 (float32ToBF16 value)).value = nearest bfloat16 value.value := by
  have hm : (⟨value.negative, shortCode value.code * 2 ^ 16⟩ : Binary32).magnitude =
      nearest bfloat16 value.magnitude := by
    rw [nearest_of_nonneg value.magnitude_nonneg, ← shortCode_eq value.negative]
    change ((units (7 + 16) _ : ℕ) : ℚ) * 2 ^ (-149 : ℤ) = units 7 _ * 2 ^ (-133 : ℤ)
    rw [units_widen, show (-133 : ℤ) = (16 : ℕ) + (-149 : ℤ) by rfl, zpow_add₀ two_ne_zero,
      zpow_natCast]
    push_cast
    ring
  rw [bf16ToFloat32_float32ToBF16 h]
  unfold Number.value
  split
  · rw [nearest_neg, ← hm]
  · exact hm

/-- Shortening is rounding to the nearest bfloat16, ties to even, with the
numbers beyond the largest one going to infinity. What was a bfloat16 before it
was widened is kept, whatever its bits. -/
theorem float32ToBF16_rounds :
    (∀ bits : UInt16, float32ToBF16 (bf16ToFloat32 bits) = bits) ∧
    ∀ value : Binary32, value.code ≤ binary32.infinity → ∃ r : Number bfloat16,
      (float32ToBF16 value).toNat = r.code + signBit r.negative (2 ^ 15) ∧
      r.negative = value.negative ∧ r.code ≤ bfloat16.infinity ∧ IsRounding r value.magnitude := by
  constructor
  · intro bits
    have hlt := bits.toNat_lt
    have hb : bits.toNat = bits.toNat % 2 ^ 15 + signBit (decide (2 ^ 15 ≤ bits.toNat)) (2 ^ 15) := by
      unfold signBit
      split <;> simp_all <;> omega
    have hv := bf16ToFloat32_eq (Nat.mod_lt _ (by decide)) hb
    apply UInt16.toNat_inj.mp
    rw [hv, toNat_float32ToBF16 (by simp only; omega)]
    simp only [shortCode]
    omega
  · intro value h
    have h' : value.code ≤ 255 * 2 ^ 23 := h
    refine ⟨⟨value.negative, shortCode value.code⟩, toNat_float32ToBF16 (by omega), rfl,
      shortCode_le h, ?_⟩
    rw [shortCode_eq value.negative]
    exact isRounding_code (by decide) _ (magnitude_nonneg value)

end HeteroCluster.BFloat16
