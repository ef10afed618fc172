import HeteroCluster.CommitProtocol
import HeteroCluster.ConversionBlocks

namespace HeteroCluster.ConversionStreams

open FailFast FloatNumbers LittleEndian CheckpointCodec ObjectStore Quantization QuantizedValues
open QuantizationRoundTrip ConversionBlocks

variable {request : Conversion} {codec : Codec} {source : Source} {target : Target}

def bytesOf (dtype : String) : Nat := ((numericSize dtype).getD 0).toNat

structure Valid (request : Conversion) : Prop where
  scale : ValidScale request.scale
  zeroPoint : -128 ≤ request.zeroPoint ∧ request.zeroPoint ≤ 127
  elements : 0 < request.elements.toNat ∧ request.elements.toNat ≤ 2 ^ 40
  pair : (request.sourceDType = "int8" ∧
      (request.targetDType = "float32" ∨ request.targetDType = "bfloat16")) ∨
    (request.targetDType = "int8" ∧
      (request.sourceDType = "float32" ∨ request.sourceDType = "bfloat16"))

theorem validScale_of_key {scale : Binary64} (hn : scale.isNaN = false) (hi : scale.isInf = false)
    (hk : 0 < scale.key) : ValidScale scale := by
  have hfin : scale.Finite := by
    have h₁ : ¬ binary64.infinity < scale.code := of_decide_eq_false hn
    have h₂ : ¬ scale.code = binary64.infinity := of_decide_eq_false hi
    exact Nat.lt_of_le_of_ne (Nat.le_of_not_lt h₁) h₂
  refine ⟨hfin, ?_⟩
  unfold Number.key at hk
  unfold Number.value
  split at hk
  · omega
  · rw [if_neg ‹_›]
    exact Number.magnitude_pos (by omega)

theorem numericSize_int8 : numericSize "int8" = some 1 := by decide

theorem numericSize_float32 : numericSize "float32" = some 4 := by decide

theorem numericSize_bfloat16 : numericSize "bfloat16" = some 2 := by decide

theorem toNat_length {elements size : UInt64} (he : elements.toNat ≤ 2 ^ 40)
    (hs : size.toNat ≤ 4) : (elements * size).toNat = elements.toNat * size.toNat := by
  rw [UInt64.toNat_mul]
  apply Nat.mod_eq_of_lt
  calc elements.toNat * size.toNat ≤ 2 ^ 40 * 4 := Nat.mul_le_mul he hs
    _ < 2 ^ 64 := by decide

theorem numericSize_le {dtype : String} {size : UInt64} (h : numericSize dtype = some size) :
    size.toNat ≤ 4 := by
  unfold numericSize at h
  split_ifs at h <;> cases h <;> decide

theorem validate_eq_ok {lengths : UInt64 × UInt64} (h : request.validate = .ok lengths) :
    Valid request ∧ lengths.1.toNat = request.elements.toNat * bytesOf request.sourceDType ∧
      lengths.2.toNat = request.elements.toNat * bytesOf request.targetDType := by
  unfold Conversion.validate at h
  simp only [bind_eq_ok, exists_unit, refuse_eq_ok, not_or, not_lt] at h
  obtain ⟨⟨hz, hm, hk, hn, hi, hl, hu⟩, h⟩ := h
  unfold bytesOf
  cases hss : numericSize request.sourceDType with
  | none => simp [hss] at h
  | some sourceSize =>
    cases hts : numericSize request.targetDType with
    | none => simp [hss, hts] at h
    | some targetSize =>
      simp only [hss, hts, bind_eq_ok, exists_unit, refuse_eq_ok, not_or,
        pure_eq_ok] at h
      obtain ⟨⟨hp, -, -⟩, rfl⟩ := h
      have hmax : ((1 : UInt64) <<< 40).toNat = 2 ^ 40 := by decide
      have he : request.elements.toNat ≤ 2 ^ 40 :=
        hmax ▸ UInt64.le_iff_toNat_le.mp (UInt64.not_lt.mp hm)
      have hn' : request.scale.isNaN = false := by simpa using hn
      refine ⟨⟨validScale_of_key hn' (by simpa using hi) ?_, ⟨hl, hu⟩, ⟨?_, he⟩,
        or_iff_not_and_not.mpr hp⟩,
        toNat_length he (numericSize_le hss), toNat_length he (numericSize_le hts)⟩
      · by_contra hle
        exact hk ⟨hn', not_lt.mp hle⟩
      · apply Nat.pos_of_ne_zero
        intro h0
        exact hz (UInt64.toNat_inj.mp h0)

theorem ValidScale.key_pos {scale : Binary64} (h : ValidScale scale) : 0 < scale.key := by
  have hsign := (Number.signOf_value scale).2 h.positive
  have hcode := QuantizedValues.ValidScale.code_ne_zero h
  unfold Number.key
  rw [hsign, if_neg Bool.false_ne_true]
  omega

theorem validate_of_valid (h : Valid request) : request.validate =
    .ok (request.elements * (numericSize request.sourceDType).getD 0,
      request.elements * (numericSize request.targetDType).getD 0) := by
  have hz : request.elements ≠ 0 := by
    intro hz
    have := h.elements.1
    rw [hz] at this
    exact absurd this (by decide)
  have hkey := ValidScale.key_pos h.scale
  have hlen : ∀ m : UInt64, 2 ^ 40 ≤ m.toNat → ¬ m < request.elements := by
    intro m hm
    apply UInt64.not_lt.mpr
    apply UInt64.le_iff_toNat_le.mpr
    exact h.elements.2.trans hm
  have hmax := hlen ((1 : UInt64) <<< 40) (by decide)
  have hone := hlen 0xffffffffffffffff (by decide)
  have htwo := hlen 0x7fffffffffffffff (by decide)
  have hfour := hlen 0x3fffffffffffffff (by decide)
  have hflags := h.scale.finite.flags
  have hlow := h.zeroPoint.1.not_gt
  have hhigh := h.zeroPoint.2.not_gt
  unfold Conversion.validate refuse
  obtain ⟨hs, ht | ht⟩ | ⟨ht, hs | hs⟩ := h.pair <;>
    simp [hs, ht, hz, hmax, hkey.not_ge, hflags, hlow, hhigh, numericSize_int8,
      numericSize_float32, numericSize_bfloat16, hone, htwo, hfour, bind, Except.bind, pure, Except.pure]

theorem Valid.floating (h : Valid request) (hq : request.sourceDType = "int8") :
    request.targetDType = "float32" ∨ request.targetDType = "bfloat16" := by
  obtain ⟨-, ht⟩ | ⟨-, hs⟩ := h.pair
  · exact ht
  · rw [hq] at hs
    exact absurd hs (by decide)

theorem Valid.sizeOf (h : Valid request) : ElementSize request (bytesOf request.sourceDType) := by
  unfold ElementSize bytesOf
  obtain ⟨hs, -⟩ | ⟨-, hs | hs⟩ := h.pair <;> rw [hs]
  · rw [numericSize_int8]
    decide
  · rw [numericSize_float32]
    decide
  · rw [numericSize_bfloat16]
    decide

theorem Valid.length_convertElement (h : Valid request) (bytes : Bytes) :
    (convertElement request bytes).length = bytesOf request.targetDType := by
  unfold convertElement bytesOf encodeElement
  obtain ⟨hs, ht | ht⟩ | ⟨ht, hs | hs⟩ := h.pair <;> rw [hs, ht]
  · rw [if_pos rfl, if_pos rfl, length_toBytes, numericSize_float32]
    rfl
  · rw [if_pos rfl, if_neg (by decide), length_toBytes, numericSize_bfloat16]
    rfl
  · rw [if_neg (by decide), numericSize_int8]
    rfl
  · rw [if_neg (by decide), numericSize_int8]
    rfl

theorem Valid.length_convertAll (h : Valid request) (size : Nat) (input : Bytes) (n : Nat) :
    (convertAll request size input n).length = n * bytesOf request.targetDType := by
  unfold convertAll
  rw [List.length_flatMap]
  simp only [h.length_convertElement, List.map_const', List.sum_replicate_nat, List.length_range]

def converted (request : Conversion) (source : Source) (n : Nat) : Bytes :=
  convertAll request (bytesOf request.sourceDType) source.data n

def nextConverted (request : Conversion) (source : Source) (done : Nat) : Bytes :=
  nextBlock request (bytesOf request.sourceDType) source.data request.elements.toNat done

def ConvertibleAt (request : Conversion) (source : Source) (i : Nat) : Prop :=
  Convertible request (elementBytes (bytesOf request.sourceDType) source.data i)

/-- The conversion has ended at the first element that is not finite. -/
def EndsAt (codec : Codec) (request : Conversion) (source : Source) (target : Target)
    (bad : Nat) : Prop :=
  (∀ i < bad, ConvertibleAt request source i) ∧ ¬ ConvertibleAt request source bad ∧
    convert codec request source target =
      (.error ("element " ++ toString (bad % elementsPerBlock) ++ " is not finite"),
        converted request source (bad / elementsPerBlock * elementsPerBlock))

section Convert

variable {lengths : UInt64 × UInt64} {written : Bytes} (hv : request.validate = .ok lengths)
  (codec)

include hv

theorem convert_of_loop {outcome : Except String Unit}
    (h : convertBlocks request (bytesOf request.sourceDType) target request.elements.toNat
      request.elements.toNat source [] = (outcome, written)) :
    convert codec request source target = (outcome.map fun _ =>
      ⟨request.elements, lengths.2, codec.sha256 written⟩, written) := by
  unfold convert
  unfold bytesOf at h
  cases outcome <;> simp only [hv, h] <;> rfl

variable (source target) in
theorem convert_accepted
    (hlen : request.elements.toNat * bytesOf request.sourceDType ≤ source.data.length)
    (ht : ∀ w b, target w b = none) :
    ((∀ i < request.elements.toNat, ConvertibleAt request source i) ∧
      convert codec request source target = (.ok ⟨request.elements, lengths.2,
        codec.sha256 (converted request source request.elements.toNat)⟩,
          converted request source request.elements.toNat)) ∨
    ∃ bad < request.elements.toNat, EndsAt codec request source target bad := by
  obtain ⟨hall, h⟩ | ⟨bad, hlt, hgood, hno, h⟩ := convertBlocks_accepted
    (validate_eq_ok hv).1.sizeOf target source [] (Nat.le_refl request.elements.toNat) hlen ht
  · exact .inl ⟨hall, convert_of_loop codec hv h⟩
  · exact .inr ⟨bad, hlt, hgood, hno, convert_of_loop codec hv h⟩

variable (source target) in
theorem convert_taken : ∃ done,
    Blocks request (bytesOf request.sourceDType) source.data request.elements.toNat done ∧
    Taken target (converted request source done) (nextConverted request source done)
      (convert codec request source target).2 ∧
    ∀ r, (convert codec request source target).1 = .ok r → r = ⟨request.elements, lengths.2,
        codec.sha256 (convert codec request source target).2⟩ ∧
      (convert codec request source target).2 =
        converted request source request.elements.toNat := by
  obtain ⟨done, hb, htaken, hfin⟩ := convertBlocks_taken (validate_eq_ok hv).1.sizeOf
    target source [] (Nat.le_refl request.elements.toNat)
  refine ⟨done, hb, ?_⟩
  generalize hloop : convertBlocks request (bytesOf request.sourceDType) target
    request.elements.toNat request.elements.toNat source [] = outcome at htaken hfin
  obtain ⟨outcome, written⟩ := outcome
  rw [convert_of_loop codec hv hloop]
  refine ⟨htaken, fun r hr => ?_⟩
  cases outcome with
  | error e => cases hr
  | ok u =>
    cases hr
    obtain ⟨rfl, hw⟩ := hfin rfl
    exact ⟨rfl, hw⟩

end Convert

/-- A conversion does to a stream what it does to its elements. Whatever ends
it, the target has taken the conversion of whole blocks from the start of the
input, and where it failed itself perhaps a part of the next one. A result stands
for the whole conversion, with its length and its hash. Given enough input and a
target that takes everything, only an element that is not finite ends it, and it
is counted from the start of its block. -/
theorem convert_spec (codec : Codec) (request : Conversion) (source : Source) (target : Target) :
    (∃ done, Blocks request (bytesOf request.sourceDType) source.data request.elements.toNat done ∧
      Taken target (converted request source done) (nextConverted request source done)
        (convert codec request source target).2) ∧
    (∀ r, (convert codec request source target).1 = .ok r →
      (convert codec request source target).2 =
        converted request source request.elements.toNat ∧
      r.elements = request.elements ∧
      r.byteLength.toNat = (convert codec request source target).2.length ∧
      r.sha256 = codec.sha256 (convert codec request source target).2) ∧
    ((∃ lengths, request.validate = .ok lengths) →
      request.elements.toNat * bytesOf request.sourceDType ≤ source.data.length →
      (∀ w b, target w b = none) →
      ((∀ i < request.elements.toNat, ConvertibleAt request source i) ∧
        ∃ r, (convert codec request source target).1 = .ok r) ∨
      ∃ bad < request.elements.toNat, EndsAt codec request source target bad) := by
  cases hv : request.validate with
  | error e =>
    have he : convert codec request source target = (.error e, []) := by
      unfold convert
      rw [hv]
    rw [he]
    refine ⟨⟨0, Blocks.zero _ _ _ _, .inl rfl⟩, nofun, ?_⟩
    rintro ⟨lengths, h⟩
    cases h
  | ok lengths =>
    obtain ⟨done, hb, htaken, hr⟩ := convert_taken codec source target hv
    refine ⟨⟨done, hb, htaken⟩, ?_, ?_⟩
    · intro r h
      obtain ⟨rfl, hw⟩ := hr r h
      obtain ⟨hvalid, -, hout⟩ := validate_eq_ok hv
      refine ⟨hw, rfl, ?_, rfl⟩
      rw [hw, converted, hvalid.length_convertAll]
      exact hout
    · rintro - hlen ht
      refine (convert_accepted codec source target hv hlen ht).imp_left ?_
      rintro ⟨hall, hc⟩
      exact ⟨hall, _, congrArg Prod.fst hc⟩

def back (request : Conversion) (inputPath outputPath : String) : Conversion :=
  { request with inputPath, outputPath, sourceDType := request.targetDType, targetDType := "int8" }

def takesAll : Target := fun _ _ => none

def encoded (request : Conversion) (data : Bytes) : Bytes :=
  data.flatMap fun byte => convertElement request [byte]

theorem elementBytes_flatMap {α : Type} {g : α → Bytes} {size : Nat} {l : List α} {a : α} {i : Nat}
    (hg : ∀ a, (g a).length = size) (h : l[i]? = some a) :
    elementBytes size (l.flatMap g) i = g a := by
  unfold elementBytes
  induction l generalizing i with
  | nil => simp at h
  | cons b l ih =>
    rw [List.flatMap_cons]
    cases i with
    | zero =>
      obtain rfl : b = a := by simpa using h
      rw [Nat.zero_mul, List.drop_zero, List.take_left' (hg b)]
    | succ i =>
      rw [Nat.succ_mul, Nat.add_comm, ← List.drop_drop, List.drop_left' (hg b)]
      exact ih (by simpa using h)

theorem validate_back {lengths : UInt64 × UInt64} (inputPath outputPath : String)
    (hv : request.validate = .ok lengths) (hq : request.sourceDType = "int8") :
    ∃ lengths', (back request inputPath outputPath).validate = .ok lengths' := by
  obtain ⟨hvalid, -, -⟩ := validate_eq_ok hv
  exact ⟨_, validate_of_valid ⟨hvalid.scale, hvalid.zeroPoint, hvalid.elements,
    .inr ⟨rfl, hvalid.floating hq⟩⟩⟩

section Bytes

variable {lengths : UInt64 × UInt64} {data : Bytes} (inputPath outputPath : String)
  (hv : request.validate = .ok lengths) (hq : request.sourceDType = "int8")
  (hs : RoundTripScale request.scale)

include hv hq hs in
/-- An element of what bytes are converted to is convertible, and gives the
byte it came from. -/
theorem convertElement_back (byte : UInt8)
    (hk : Survives request.targetDType (offset request byte)) :
    Convertible (back request inputPath outputPath) (convertElement request [byte]) ∧
      convertElement (back request inputPath outputPath) (convertElement request [byte]) =
        [byte] := by
  obtain ⟨hvalid, -, -⟩ := validate_eq_ok hv
  obtain ⟨hf, hb⟩ := quantize_decode_encode hs hvalid.zeroPoint.1 hvalid.zeroPoint.2 hk
  have hne : request.targetDType ≠ "int8" := by
    obtain ht | ht := hvalid.floating hq <;>
      · rw [ht]
        decide
  have he : convertElement request [byte] =
      encodeElement request.targetDType (dequantize request byte) := if_pos hq
  rw [he]
  refine ⟨.inr hf, ?_⟩
  unfold convertElement
  rw [if_neg (show (back request inputPath outputPath).sourceDType ≠ "int8" from hne)]
  exact congrArg (fun b => [b]) hb

theorem convertAll_bytes (request : Conversion) (data : Bytes) :
    convertAll request 1 data data.length = encoded request data := by
  induction data with
  | nil => rfl
  | cons byte data ih =>
    have hone : convertAll request 1 (byte :: data) 1 = convertElement request [byte] :=
      List.append_nil _
    rw [List.length_cons, Nat.add_comm, convertAll_add, Nat.one_mul, List.drop_one, List.tail_cons,
      ih, hone, encoded, encoded, List.flatMap_cons]

include hv hq hs in
theorem converted_back (hk : ∀ byte ∈ data, Survives request.targetDType (offset request byte)) :
    (∀ i < data.length, Convertible (back request inputPath outputPath)
      (elementBytes (bytesOf request.targetDType) (encoded request data) i)) ∧
    convertAll (back request inputPath outputPath) (bytesOf request.targetDType)
      (encoded request data) data.length = data := by
  obtain ⟨hvalid, -, -⟩ := validate_eq_ok hv
  have helem : ∀ (i : Nat) (h : i < data.length),
      elementBytes (bytesOf request.targetDType) (encoded request data) i =
        convertElement request [data[i]] := fun i h =>
    elementBytes_flatMap (fun b => hvalid.length_convertElement [b]) (List.getElem?_eq_getElem h)
  have hbyte := fun (i : Nat) (h : i < data.length) =>
    convertElement_back inputPath outputPath hv hq hs data[i] (hk _ (List.getElem_mem h))
  constructor
  · intro i h
    rw [helem i h]
    exact (hbyte i h).1
  · have hmap : convertAll (back request inputPath outputPath) (bytesOf request.targetDType)
        (encoded request data) data.length = (List.range data.length).map fun i => data.getD i 0 := by
      rw [List.map_eq_flatMap]
      apply List.flatMap_congr
      intro i hi
      have h := List.mem_range.mp hi
      rw [helem i h, (hbyte i h).2, List.getD_eq_getElem?_getD, List.getElem?_eq_getElem h,
        Option.getD_some]
    rw [hmap]
    refine List.ext_getElem (by simp) fun i _ h => ?_
    simp [List.getElem?_eq_getElem h]

/-- Bytes converted to floating numbers and back are the same bytes, for the scales
that keep every value normal and, in a bfloat16, for offsets of at most 128 from the
zero point. -/
theorem convert_round_trip (codec : Codec) (hv : request.validate = .ok lengths)
    (hq : request.sourceDType = "int8") (hs : RoundTripScale request.scale)
    (hlen : data.length = request.elements.toNat)
    (hk : ∀ byte ∈ data, Survives request.targetDType (offset request byte)) :
    ∃ out r r', convert codec request ⟨data, none⟩ takesAll = (.ok r, out) ∧
      convert codec (back request inputPath outputPath) ⟨out, none⟩ takesAll = (.ok r', data) ∧
      r.sha256 = codec.sha256 out ∧ r'.sha256 = codec.sha256 data := by
  obtain ⟨hvalid, -, -⟩ := validate_eq_ok hv
  obtain ⟨lengths', hv'⟩ := validate_back inputPath outputPath hv hq
  obtain ⟨hall, hdata⟩ := converted_back inputPath outputPath hv hq hs hk
  have hone : bytesOf request.sourceDType = 1 := by
    rw [hq, bytesOf, numericSize_int8]
    rfl
  have hout : converted request ⟨data, none⟩ request.elements.toNat = encoded request data := by
    rw [converted, hone, ← hlen, convertAll_bytes]
  have hlength : (encoded request data).length =
      request.elements.toNat * bytesOf request.targetDType := by
    rw [← hout, converted, hvalid.length_convertAll]
  have hf := (convert_accepted codec ⟨data, none⟩ takesAll hv
    (by rw [hone, ← hlen, Nat.mul_one]) (fun _ _ => rfl)).resolve_right
      (fun ⟨_, _, _, hno, _⟩ => hno (.inl hq))
  have hb := (convert_accepted codec ⟨encoded request data, none⟩ takesAll hv' hlength.ge
    (fun _ _ => rfl)).resolve_right (fun ⟨bad, hlt, _, hno, _⟩ => hno (hall bad (hlen ▸ hlt)))
  have hdata' : converted (back request inputPath outputPath) ⟨encoded request data, none⟩
      (back request inputPath outputPath).elements.toNat = data := hlen ▸ hdata
  have hf' := hf.2
  have hb' := hb.2
  rw [hout] at hf'
  rw [hdata'] at hb'
  exact ⟨_, _, _, hf', hb', rfl, rfl⟩

end Bytes

def sampleRequest : Conversion := ⟨"in", "out", 3, "int8", "bfloat16", Number.ofInt 1, 3⟩

theorem sampleRequest_valid : Valid sampleRequest := by
  obtain ⟨hf, hv⟩ := ofInt_small (n := 1) (by decide) (by decide)
  refine ⟨⟨hf, ?_⟩, by decide, by decide, .inl ⟨rfl, .inr rfl⟩⟩
  change 0 < (Number.ofInt 1 : Binary64).value
  rw [hv]
  norm_num

theorem convert_round_trip_sample : ∃ out r r',
    convert CommitProtocol.sampleCodec sampleRequest ⟨[0, 131, 127], none⟩ takesAll =
      (.ok r, out) ∧
    convert CommitProtocol.sampleCodec (back sampleRequest "out" "in") ⟨out, none⟩ takesAll =
      (.ok r', [0, 131, 127]) ∧
    r.sha256 = CommitProtocol.sampleCodec.sha256 out ∧
    r'.sha256 = CommitProtocol.sampleCodec.sha256 [0, 131, 127] := by
  obtain ⟨hf, hv⟩ := ofInt_small (n := 1) (by decide) (by decide)
  have hs : RoundTripScale sampleRequest.scale := by
    refine ⟨hf, ?_, ?_⟩
    · change smallest ≤ (Number.ofInt 1 : Binary64).value
      rw [hv, smallest]
      norm_num
    · change (Number.ofInt 1 : Binary64).value ≤ _
      rw [hv]
      norm_num
  apply convert_round_trip "out" "in" CommitProtocol.sampleCodec
    (validate_of_valid sampleRequest_valid) rfl hs rfl
  simp only [List.forall_mem_cons]
  exact ⟨.inr (by decide), .inr (by decide), .inr (by decide), by simp⟩

section Quantize

variable {value value' : Binary32} {lengths : UInt64 × UInt64}

def quantized (request : Conversion) (value : Binary32) : ℤ :=
  (quantize request value).toInt8.toInt

theorem quantized_eq (hv : request.validate = .ok lengths) (hf : value.Finite) :
    quantized request value = min (max (RoundToEven.roundEven
      (nearest binary64 (value.value / request.scale.value)) + request.zeroPoint) (-128)) 127 := by
  obtain ⟨hvalid, -, -⟩ := validate_eq_ok hv
  unfold quantized
  rw [quantize_eq hf hvalid.scale hvalid.zeroPoint.1 hvalid.zeroPoint.2, Int8.toInt8_toUInt8,
    Int8.toInt_ofInt_of_le (by omega) (by omega)]

theorem abs_quotient_error {x : ℚ} (hx : |x| ≤ 255) :
    |nearest binary64 x - x| ≤ 1 / 2 ^ 40 := by
  by_cases hn : (2 : ℚ) ^ binary64.fraction * 2 ^ binary64.least ≤ |x|
  · have h := abs_nearest_sub_le hn
    generalize nearest binary64 x = y at *
    norm_num [binary64] at h ⊢
    linarith
  · have hsmall : |x| ≤ smallest := (not_le.mp hn).le.trans holds_binary64.normal
    have h := abs_nearest_le hsmall holds_binary64.keepsSmallest
    have htri := abs_sub (nearest binary64 x) x
    have hs : smallest ≤ 1 / 2 ^ 41 := by
      unfold smallest
      norm_num
    linarith

/-- Quantization keeps the order, goes to the ends of the range outside of it,
and inside the exact product with the scale is off by half a step and the error of
one division. -/
theorem quantize_nearest (hv : request.validate = .ok lengths) (hf : value.Finite) :
    (∀ value' : Binary32, value'.Finite → value.value ≤ value'.value →
      quantized request value ≤ quantized request value') ∧
    ((127 - request.zeroPoint : ℤ) ≤ value.value / request.scale.value →
      quantized request value = 127) ∧
    (value.value / request.scale.value ≤ (-128 - request.zeroPoint : ℤ) →
      quantized request value = -128) ∧
    ((-128 - request.zeroPoint : ℤ) ≤ value.value / request.scale.value →
      value.value / request.scale.value ≤ (127 - request.zeroPoint : ℤ) →
      |value.value - (quantized request value - request.zeroPoint : ℤ) * request.scale.value| ≤
        (1 / 2 + 1 / 2 ^ 40) * request.scale.value) := by
  obtain ⟨hvalid, -, -⟩ := validate_eq_ok hv
  obtain ⟨hzl, hzu⟩ := hvalid.zeroPoint
  have hpos := hvalid.scale.positive
  have hq := quantized_eq hv hf
  have hmono : ∀ {x y : ℚ}, x ≤ y → RoundToEven.roundEven (nearest binary64 x) ≤
      RoundToEven.roundEven (nearest binary64 y) :=
    fun h => RoundToEven.roundEven_mono (nearest_mono h)
  have hint : ∀ n : ℤ, -2000 ≤ n → n ≤ 2000 →
      RoundToEven.roundEven (nearest binary64 (n : ℚ)) = n := by
    intro n hl hu
    rw [nearest_small hl hu, RoundToEven.roundEven_intCast]
  refine ⟨?_, ?_, ?_, ?_⟩
  · intro value' hf' hle
    have := hmono (div_le_div_of_nonneg_right hle hpos.le)
    rw [hq, quantized_eq hv hf']
    omega
  · intro h
    have := hmono h
    rw [hint _ (by omega) (by omega)] at this
    omega
  · intro h
    have := hmono h
    rw [hint _ (by omega) (by omega)] at this
    omega
  · intro hl hu
    have hnl := hmono hl
    have hnu := hmono hu
    rw [hint _ (by omega) (by omega)] at hnl hnu
    have hn : quantized request value - request.zeroPoint =
        RoundToEven.roundEven (nearest binary64 (value.value / request.scale.value)) := by omega
    have hx : value.value = value.value / request.scale.value * request.scale.value :=
      (div_mul_cancel₀ _ hpos.ne').symm
    rw [hn]
    generalize value.value / request.scale.value = x at *
    have habs : |x| ≤ 255 := by
      have hl' : ((-255 : ℤ) : ℚ) ≤ (-128 - request.zeroPoint : ℤ) := Int.cast_le.mpr (by omega)
      have hu' : ((127 - request.zeroPoint : ℤ) : ℚ) ≤ (255 : ℤ) := Int.cast_le.mpr (by omega)
      rw [abs_le]
      push_cast at hl hu hl' hu'
      constructor <;> linarith
    have he := abs_quotient_error habs
    have hr := RoundToEven.abs_roundEven_sub_le (nearest binary64 x)
    have htri := abs_sub_le x (nearest binary64 x) (RoundToEven.roundEven (nearest binary64 x))
    rw [abs_sub_comm] at he hr
    rw [hx, ← sub_mul, abs_mul, abs_of_pos hpos]
    exact mul_le_mul_of_nonneg_right (by linarith) hpos.le

theorem quantize_nearest_sample :
    |(float32frombits 0x40600000).value -
      (quantized sampleRequest (float32frombits 0x40600000) - 3 : ℤ) *
        (Number.ofInt 1 : Binary64).value| ≤
      (1 / 2 + 1 / 2 ^ 40) * (Number.ofInt 1 : Binary64).value := by
  have hf : (float32frombits 0x40600000).code < binary32.infinity := by decide +kernel
  obtain ⟨-, -, -, h⟩ := quantize_nearest (validate_of_valid sampleRequest_valid) hf
  apply h <;> decide +kernel

end Quantize

end HeteroCluster.ConversionStreams
