import HeteroCluster.BFloat16

namespace HeteroCluster.QuantizationRoundTrip

open RoundToEven FloatNumbers FloatCodes LittleEndian CheckpointCodec FloatNumbers.Number
open Quantization QuantizedValues BFloat16

variable {request : Conversion} {value : Binary32} {byte : UInt8}

def largest : ℚ := 255 * 2 ^ (120 : ℤ)

def smallest : ℚ := 2 ^ (-126 : ℤ)

theorem largest_lt : largest < 2 ^ (128 : ℤ) := by
  unfold largest
  norm_num

theorem largest_lt_binary64 : largest < binary64.limit := by
  rw [limit_binary64]
  exact largest_lt.trans (zpow_lt_zpow_right₀ (by norm_num) (by norm_num))

/-- The formats that values pass through hold the bounds of the range. -/
structure Holds (f : Format) : Prop where
  keepsLargest : nearest f largest = largest
  keepsSmallest : nearest f smallest = smallest
  normal : 2 ^ f.fraction * 2 ^ f.least ≤ smallest

theorem holds_of {f : Format} (hf : 7 ≤ f.fraction) (hl : f.least + f.fraction ≤ -126) :
    Holds f := by
  have hp : 2 ^ 8 ≤ 2 ^ (f.fraction + 1) := Nat.pow_le_pow_right (by decide) (by omega)
  refine ⟨nearest_mul_two_zpow (m := 255) (by omega) (by omega), ?_, ?_⟩
  · have := nearest_mul_two_zpow (f := f) (m := 1) (e := -126) (by omega) (by omega)
    rwa [Nat.cast_one, one_mul] at this
  · unfold smallest
    rw [← zpow_natCast, ← zpow_add₀ two_ne_zero]
    exact zpow_le_zpow_right₀ (by norm_num) (by omega)

theorem holds_binary64 : Holds binary64 := holds_of (by decide) (by decide)

theorem holds_binary32 : Holds binary32 := holds_of (by decide) (by decide)

theorem holds_bfloat16 : Holds bfloat16 := holds_of (by decide) (by decide)

/-- One rounding of a value in the range: it stays in the range, and moves by
a small part of itself. -/
theorem Holds.rounding {f : Format} (h : Holds f) {x : ℚ} (hl : smallest ≤ |x|)
    (hu : |x| ≤ largest) : smallest ≤ |nearest f x| ∧ |nearest f x| ≤ largest ∧
      |nearest f x - x| ≤ |x| / (2 ^ (f.fraction + 1) + 1) := by
  refine ⟨?_, abs_nearest_le hu h.keepsLargest, abs_nearest_sub_le (h.normal.trans hl)⟩
  obtain hx | hx := le_abs.mp hl
  · have := nearest_mono (f := f) hx
    rw [h.keepsSmallest] at this
    exact this.trans (le_abs_self _)
  · have := nearest_mono (f := f) hx
    rw [h.keepsSmallest, nearest_neg] at this
    exact this.trans (neg_le_abs _)

/-- Scales at which no value of the affine range leaves the normal numbers of
the floating formats. -/
structure RoundTripScale (scale : Binary64) : Prop where
  finite : scale.Finite
  low : smallest ≤ scale.value
  high : scale.value ≤ 2 ^ (120 : ℤ)

theorem RoundTripScale.pos {scale : Binary64} (h : RoundTripScale scale) : 0 < scale.value :=
  lt_of_lt_of_le (by unfold smallest; positivity) h.low

def offset (request : Conversion) (byte : UInt8) : ℤ := byte.toInt8.toInt - request.zeroPoint

section Values

variable (hs : RoundTripScale request.scale) (hl : -128 ≤ request.zeroPoint)
  (hu : request.zeroPoint ≤ 127)

include hl hu

theorem offset_le (byte : UInt8) : -255 ≤ offset request byte ∧ offset request byte ≤ 255 := by
  have h₁ := byte.toInt8.le_toInt
  have h₂ := byte.toInt8.toInt_lt
  unfold offset
  omega

theorem abs_offset_le (byte : UInt8) : |(offset request byte : ℚ)| ≤ 255 := by
  obtain ⟨h₁, h₂⟩ := offset_le hl hu byte
  exact_mod_cast abs_intCast_le h₁ h₂

include hs

theorem abs_exact_le (byte : UInt8) : |(offset request byte : ℚ) * request.scale.value| ≤ largest := by
  rw [abs_mul, abs_of_pos hs.pos]
  exact mul_le_mul (abs_offset_le hl hu byte) hs.high hs.pos.le (by norm_num)

theorem dequantize_value (byte : UInt8) : (dequantize request byte).Finite ∧
    (dequantize request byte).value =
      nearest binary32 (nearest binary64 (offset request byte * request.scale.value)) := by
  obtain ⟨h₁, h₂⟩ := offset_le hl hu byte
  have hb₁ := byte.toInt8.le_toInt
  have hb₂ := byte.toInt8.toInt_lt
  obtain ⟨hqf, hqv⟩ := ofInt_small (n := byte.toInt8.toInt) (by omega) (by omega)
  obtain ⟨hzf, hzv⟩ := ofInt_small (n := request.zeroPoint) (by omega) (by omega)
  have hd := value_sub hqf hzf
  rw [hqv, hzv, ← Int.cast_sub, nearest_small (by omega) (by omega)] at hd
  have hk : |((offset request byte : ℤ) : ℚ)| < binary64.limit :=
    (abs_offset_le hl hu byte).trans_lt (by linarith [thousand_lt_limit])
  obtain ⟨hdf, hdv⟩ := finite_of_value_eq hd hk
  have hx := abs_exact_le hs hl hu byte
  have hy := abs_nearest_le hx holds_binary64.keepsLargest
  have hp := value_mul hdf hs.finite
  rw [hdv] at hp
  obtain ⟨hpf, hpv⟩ := finite_of_value_eq hp (hy.trans_lt largest_lt_binary64)
  have hc := value_convert (g := binary32) hpf
  rw [hpv] at hc
  apply finite_of_value_eq hc
  rw [limit_binary32]
  exact (abs_nearest_le hy holds_binary32.keepsLargest).trans_lt largest_lt

end Values

/-- What reading back the bytes of a number makes of its value. -/
def stored (dtype : String) (x : ℚ) : ℚ := if dtype = "float32" then x else nearest bfloat16 x

/-- Bytes of a number read back, given that it is not too large for the format. -/
theorem decode_encode (dtype : String) (hf : value.Finite) (hv : |value.value| ≤ largest) :
    (decodeElement dtype (encodeElement dtype value)).Finite ∧
      (decodeElement dtype (encodeElement dtype value)).value = stored dtype value.value := by
  have hcode : value.code < 255 * 2 ^ 23 := hf
  unfold decodeElement encodeElement stored
  by_cases hd : dtype = "float32"
  · have hbits := (float32bits value).toNat_lt
    rw [if_pos hd, if_pos hd, if_pos hd, ofBytes_toBytes, Nat.mod_eq_of_lt (by omega),
      UInt32.ofNat_toNat, float32frombits_bits (by omega)]
    exact ⟨hf, rfl⟩
  · have hbits := (float32ToBF16 value).toNat_lt
    rw [if_neg hd, if_neg hd, if_neg hd, ofBytes_toBytes, Nat.mod_eq_of_lt (by omega),
      UInt16.ofNat_toNat]
    have hw := value_bf16 (Nat.le_of_lt hf)
    refine ⟨finite_of_abs_value_lt ?_, hw⟩
    rw [hw, limit_binary32]
    exact (abs_nearest_le hv holds_bfloat16.keepsLargest).trans_lt largest_lt

/-- The offsets that survive the precision of a format: all of them in 32
bits, and half of the range in the eight significant bits of a bfloat16. -/
def Survives (dtype : String) (k : ℤ) : Prop := dtype = "float32" ∨ -128 ≤ k ∧ k ≤ 128

/-- The error of all roundings together is below half of a step. -/
theorem stored_error {dtype : String} {k : ℤ} {s : ℚ} (hk : Survives dtype k) (hk0 : k ≠ 0)
    (hk1 : |(k : ℚ)| ≤ 255) (hs : smallest ≤ s) (hx : |(k : ℚ) * s| ≤ largest) :
    |stored dtype (nearest binary32 (nearest binary64 (k * s))) - k * s| ≤ 499 / 1000 * s := by
  have hpos : 0 < s := lt_of_lt_of_le (by unfold smallest; positivity) hs
  have hone : (1 : ℚ) ≤ |(k : ℚ)| := by exact_mod_cast Int.one_le_abs hk0
  have hlow : smallest ≤ |(k : ℚ) * s| := by
    rw [abs_mul, abs_of_pos hpos]
    nlinarith
  obtain ⟨hl₁, hu₁, he₁⟩ := holds_binary64.rounding hlow hx
  obtain ⟨hl₂, hu₂, he₂⟩ := holds_binary32.rounding hl₁ hu₁
  obtain ⟨-, -, he₃⟩ := holds_bfloat16.rounding hl₂ hu₂
  have habs : |(k : ℚ) * s| = |(k : ℚ)| * s := by rw [abs_mul, abs_of_pos hpos]
  generalize (k : ℚ) * s = x at *
  generalize nearest binary64 x = y at *
  generalize nearest binary32 y = z at *
  norm_num [binary64, binary32] at he₁ he₂
  have hy := abs_sub_abs_le_abs_sub y x
  have hz := abs_sub_abs_le_abs_sub z y
  have hzx := abs_sub_le z y x
  unfold stored
  by_cases hd : dtype = "float32"
  · rw [if_pos hd]
    have hX : |(k : ℚ)| * s ≤ 255 * s := mul_le_mul_of_nonneg_right hk1 hpos.le
    linarith
  · rw [if_neg hd]
    generalize nearest bfloat16 z = w at *
    norm_num [bfloat16] at he₃
    have hk2 : |(k : ℚ)| ≤ 128 := by
      obtain ⟨h₁, h₂⟩ := hk.resolve_left hd
      exact_mod_cast abs_intCast_le h₁ h₂
    have hX : |(k : ℚ)| * s ≤ 128 * s := mul_le_mul_of_nonneg_right hk2 hpos.le
    have hwx := abs_sub_le w z x
    linarith

section Bytes

variable {dtype : String} (hs : RoundTripScale request.scale) (hl : -128 ≤ request.zeroPoint)
  (hu : request.zeroPoint ≤ 127)

include hs hl hu

theorem quotient_near (hk : Survives dtype (offset request byte)) :
    roundEven (nearest binary64 (stored dtype (dequantize request byte).value /
      request.scale.value)) = offset request byte := by
  have hpos := hs.pos
  have hv := (dequantize_value hs hl hu byte).2
  by_cases hk0 : offset request byte = 0
  · have hz : stored dtype 0 = 0 := by
      unfold stored
      split
      · rfl
      · exact nearest_zero
    rw [hk0, Int.cast_zero, zero_mul, nearest_zero, nearest_zero] at hv
    rw [hv, hz, zero_div, nearest_zero, hk0]
    exact roundEven_intCast (K := ℚ) 0
  · have hk1 := abs_offset_le hl hu byte
    have herr := stored_error hk hk0 hk1 hs.low (abs_exact_le hs hl hu byte)
    have hone : (1 : ℚ) ≤ |((offset request byte : ℤ) : ℚ)| := by
      exact_mod_cast Int.one_le_abs hk0
    have hq : |stored dtype (dequantize request byte).value / request.scale.value -
        offset request byte| ≤ 499 / 1000 := by
      rw [div_sub' hpos.ne', abs_div, abs_of_pos hpos, div_le_iff₀ hpos, mul_comm request.scale.value, hv]
      exact herr
    generalize stored dtype (dequantize request byte).value / request.scale.value = q at hq ⊢
    have hq₁ := abs_sub_abs_le_abs_sub q (offset request byte)
    have hq₂ := abs_sub_abs_le_abs_sub ((offset request byte : ℤ) : ℚ) q
    rw [abs_sub_comm] at hq₂
    have hnormal : (2 : ℚ) ^ binary64.fraction * 2 ^ binary64.least ≤ |q| := by
      have : smallest ≤ 1 / 2 := by
        unfold smallest
        norm_num
      have := holds_binary64.normal
      linarith
    have hn := abs_nearest_sub_le hnormal
    have htri := abs_sub_le (nearest binary64 q) q (offset request byte)
    apply roundEven_eq
    generalize nearest binary64 q = n at *
    norm_num [binary64] at hn
    linarith

theorem quantize_decode_encode (hk : Survives dtype (offset request byte)) :
    (decodeElement dtype (encodeElement dtype (dequantize request byte))).Finite ∧
      quantize request (decodeElement dtype (encodeElement dtype (dequantize request byte))) =
        byte := by
  obtain ⟨hf, hv⟩ := dequantize_value hs hl hu byte
  have hle : |(dequantize request byte).value| ≤ largest := by
    rw [hv]
    exact abs_nearest_le (abs_nearest_le (abs_exact_le hs hl hu byte) holds_binary64.keepsLargest)
      holds_binary32.keepsLargest
  obtain ⟨hdf, hdv⟩ := decode_encode dtype hf hle
  refine ⟨hdf, ?_⟩
  have h₁ := byte.toInt8.le_toInt
  have h₂ := byte.toInt8.toInt_lt
  rw [quantize_eq hdf ⟨hs.finite, hs.pos⟩ hl hu, hdv, quotient_near hs hl hu hk, offset,
    Int.sub_add_cancel, max_eq_left (by omega), min_eq_left (by omega), Int8.ofInt_toInt,
    UInt8.toUInt8_toInt8]

end Bytes

end HeteroCluster.QuantizationRoundTrip
