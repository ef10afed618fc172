import HeteroCluster.QuantizationRoundTrip

namespace HeteroCluster.ConversionBlocks

open FailFast FloatNumbers CheckpointCodec ObjectStore Quantization QuantizedValues

variable {request : Conversion} {size : Nat} {input data : Bytes} {n c i : Nat}

def convertElement (request : Conversion) (bytes : Bytes) : Bytes :=
  if request.sourceDType = "int8" then
    encodeElement request.targetDType (dequantize request (bytes.getD 0 0))
  else [quantize request (decodeElement request.sourceDType bytes)]

def convertAll (request : Conversion) (size : Nat) (input : Bytes) (n : Nat) : Bytes :=
  (List.range n).flatMap fun index => convertElement request (elementBytes size input index)

def Convertible (request : Conversion) (bytes : Bytes) : Prop :=
  request.sourceDType = "int8" ∨ (decodeElement request.sourceDType bytes).Finite

def ElementSize (request : Conversion) (size : Nat) : Prop :=
  size = if request.sourceDType = "int8" then 1 else if request.sourceDType = "float32" then 4 else 2

theorem elementBytes_drop (size : Nat) (data : Bytes) (c i : Nat) :
    elementBytes size (data.drop (c * size)) i = elementBytes size data (c + i) := by
  unfold elementBytes
  rw [List.drop_drop, Nat.add_mul]

theorem elementBytes_take (size : Nat) (data : Bytes) (h : i < c) :
    elementBytes size (data.take (c * size)) i = elementBytes size data i := by
  have hle : (i + 1) * size ≤ c * size := Nat.mul_le_mul_right size h
  rw [Nat.succ_mul] at hle
  unfold elementBytes
  rw [List.drop_take, List.take_take, Nat.min_eq_left (by omega)]

theorem convertAll_add (request : Conversion) (size : Nat) (data : Bytes) (c n : Nat) :
    convertAll request size data (c + n) =
      convertAll request size data c ++ convertAll request size (data.drop (c * size)) n := by
  unfold convertAll
  rw [List.range_add, List.flatMap_append, List.flatMap_map]
  simp only [elementBytes_drop]

theorem convertible_add {d : Nat} (h : ∀ i < c, Convertible request (elementBytes size data i))
    (h' : ∀ i < d, Convertible request (elementBytes size (data.drop (c * size)) i)) :
    ∀ i < c + d, Convertible request (elementBytes size data i) := by
  intro i hi
  by_cases hlt : i < c
  · exact h i hlt
  · have := h' (i - c) (by omega)
    rwa [elementBytes_drop, Nat.add_sub_cancel' (by omega)] at this

theorem convertAll_take (request : Conversion) (size : Nat) (data : Bytes) (h : n ≤ c) :
    convertAll request size (data.take (c * size)) n = convertAll request size data n := by
  unfold convertAll
  apply List.flatMap_congr
  intro i hi
  rw [elementBytes_take size data ((List.mem_range.mp hi).trans_le h)]

/-- What is finite stays so when it is widened, and what is not does not
become so. -/
theorem widened_flags (value : Binary32) :
    ((value.convert : Binary64).isNaN || (value.convert : Binary64).isInf) = false ↔
      value.Finite := by
  constructor
  · intro h
    obtain hlt | heq | hgt := Nat.lt_trichotomy value.code binary32.infinity
    · exact hlt
    · have hinf : value.isInf = true := decide_eq_true heq
      have hnan : value.isNaN = false := Number.isNaN_eq_false heq.le
      have hflag : (Number.inf value.negative : Binary64).isInf = true := decide_eq_true rfl
      simp [Number.convert, hnan, hinf, hflag] at h
    · have hnan : value.isNaN = true := decide_eq_true hgt
      have hflag : (Number.nan : Binary64).isNaN = true := by decide
      simp [Number.convert, hnan, hflag] at h
  · intro h
    obtain ⟨hf, -⟩ := value_widened h
    rw [hf.flags.1, hf.flags.2]
    rfl

section Block

variable (hs : ElementSize request size)

include hs

theorem quantizeElement_eq (hq : request.sourceDType ≠ "int8") (input : Bytes) (index : Nat) :
    (Convertible request (elementBytes size input index) ∧ quantizeElement request input index =
      .ok (quantize request (decodeElement request.sourceDType (elementBytes size input index)))) ∨
    (¬ Convertible request (elementBytes size input index) ∧ quantizeElement request input index =
      .error ("element " ++ toString index ++ " is not finite")) := by
  unfold ElementSize at hs
  rw [if_neg hq] at hs
  unfold Convertible quantizeElement
  rw [← hs, or_iff_right hq, ← widened_flags]
  simp only
  generalize decodeElement request.sourceDType (elementBytes size input index) = v
  by_cases hb : ((v.convert : Binary64).isNaN || (v.convert : Binary64).isInf) = true
  · exact .inr ⟨ne_of_eq_of_ne hb (by decide), if_pos hb⟩
  · exact .inl ⟨Bool.eq_false_iff.mpr hb, if_neg hb⟩

theorem convertBlock_ok (h : ∀ i < n, Convertible request (elementBytes size input i)) :
    convertBlock request input n = .ok (convertAll request size input n) := by
  unfold convertBlock convertAll convertElement
  by_cases hq : request.sourceDType = "int8"
  · unfold ElementSize at hs
    rw [if_pos hq] at hs
    subst hs
    simp only [if_pos hq, elementBytes, Nat.mul_one]
    refine congrArg Except.ok (List.flatMap_congr fun i _ => ?_)
    have hb : ((input.drop i).take 1).getD 0 0 = input.getD i 0 := by
      simp [List.getD_eq_getElem?_getD]
    rw [hb]
  · simp only [if_neg hq]
    rw [mapM_eq_ok, ← List.map_eq_flatMap, List.map_map]
    apply List.map_congr_left
    intro i hi
    obtain ⟨-, he⟩ | ⟨hno, -⟩ := quantizeElement_eq hs hq input i
    · exact he
    · exact absurd (h i (List.mem_range.mp hi)) hno

theorem convertBlock_error (hc : c < n)
    (h : ∀ i < c, Convertible request (elementBytes size input i))
    (hno : ¬ Convertible request (elementBytes size input c)) :
    convertBlock request input n = .error ("element " ++ toString c ++ " is not finite") := by
  have hq : request.sourceDType ≠ "int8" := fun hq => hno (.inl hq)
  obtain ⟨m, rfl⟩ : ∃ m, n = c + (m + 1) := ⟨n - c - 1, by omega⟩
  unfold convertBlock
  rw [if_neg hq, List.range_add, List.range_succ_eq_map, List.map_cons, Nat.add_zero]
  apply mapM_first_error
  · intro i hi
    obtain ⟨-, he⟩ | ⟨hno', -⟩ := quantizeElement_eq hs hq input i
    · exact ⟨_, he⟩
    · exact absurd (h i (List.mem_range.mp hi)) hno'
  · obtain ⟨hyes, -⟩ | ⟨-, he⟩ := quantizeElement_eq hs hq input c
    · exact absurd hyes hno
    · exact he

/-- A block is converted as a whole, or refused for its first element that is
not finite. -/
theorem convertBlock_cases (input : Bytes) (n : Nat) :
    ((∀ i < n, Convertible request (elementBytes size input i)) ∧
      convertBlock request input n = .ok (convertAll request size input n)) ∨
    ∃ c < n, (∀ i < c, Convertible request (elementBytes size input i)) ∧
      ¬ Convertible request (elementBytes size input c) ∧
      convertBlock request input n = .error ("element " ++ toString c ++ " is not finite") := by
  classical
  by_cases h : ∀ i < n, Convertible request (elementBytes size input i)
  · exact .inl ⟨h, convertBlock_ok hs h⟩
  · have hex : ∃ i, i < n ∧ ¬ Convertible request (elementBytes size input i) := by
      simpa only [not_forall, exists_prop] using h
    obtain ⟨hlt, hno⟩ := Nat.find_spec hex
    have hfirst : ∀ i < Nat.find hex, Convertible request (elementBytes size input i) := by
      intro i hi
      by_contra hno'
      exact Nat.find_min hex hi ⟨hi.trans hlt, hno'⟩
    exact .inr ⟨Nat.find hex, hlt, hfirst, hno, convertBlock_error hs hlt hfirst hno⟩

end Block

section Loop

variable (hs : ElementSize request size) (target : Target) {fuel remaining : Nat} (source : Source)
  (written : Bytes)

variable (request size fuel remaining) in
/-- One turn of the loop: the input is short, an element is refused, the target
fails, or a block is passed on. -/
inductive Turn (count : Nat) : Except String Unit × Bytes → Prop
  | short (e : String) (hlen : ¬ count * size ≤ source.data.length) : Turn count (.error e, written)
  | refused {c : Nat} (hlt : c < count)
      (hgood : ∀ i < c, Convertible request (elementBytes size source.data i))
      (hno : ¬ Convertible request (elementBytes size source.data c)) :
      Turn count (.error ("element " ++ toString c ++ " is not finite"), written)
  | failed {n : Nat} {e : String} (e' : String)
      (ht : target written (convertAll request size source.data count) = some (n, e)) :
      Turn count (.error e', written ++ (convertAll request size source.data count).take n)
  | passed (hlen : count * size ≤ source.data.length)
      (hgood : ∀ i < count, Convertible request (elementBytes size source.data i)) :
      Turn count (convertBlocks request size target fuel (remaining - count)
        { source with data := source.data.drop (count * size) }
        (written ++ convertAll request size source.data count))

variable (fuel) in
include hs in
theorem convertBlocks_turn (hr : remaining ≠ 0) :
    Turn request size target fuel remaining source written (min remaining elementsPerBlock)
      (convertBlocks request size target (fuel + 1) remaining source written) := by
  obtain ⟨r, rfl⟩ := Nat.exists_eq_succ_of_ne_zero hr
  rw [convertBlocks]
  swap
  · exact hr
  generalize min (r + 1) elementsPerBlock = count
  unfold readFull
  by_cases hlen : count * size ≤ source.data.length
  · have hsame : ∀ {i}, i < count → elementBytes size (source.data.take (count * size)) i =
        elementBytes size source.data i := fun hi => elementBytes_take size source.data hi
    rw [if_pos hlen]
    dsimp only
    obtain ⟨hgood, hok⟩ | ⟨c, hlt, hgood, hno, herr⟩ :=
      convertBlock_cases hs (source.data.take (count * size)) count
    · rw [hok, convertAll_take request size source.data (Nat.le_refl _)]
      dsimp only
      cases ht : target written (convertAll request size source.data count) with
      | some failure => exact .failed _ ht
      | none => exact .passed hlen fun i hi => hsame hi ▸ hgood i hi
    · rw [herr]
      exact .refused hlt (fun i hi => hsame (hi.trans hlt) ▸ hgood i hi) (hsame hlt ▸ hno)
  · rw [if_neg hlen]
    exact .short _ hlen

/-- The first elements of an input that is converted in blocks: those of whole
blocks, or all. -/
structure Blocks (request : Conversion) (size : Nat) (data : Bytes) (total done : Nat) : Prop where
  le : done ≤ total
  whole : done = total ∨ elementsPerBlock ∣ done
  convertible : ∀ i < done, Convertible request (elementBytes size data i)

theorem Blocks.zero (request : Conversion) (size : Nat) (data : Bytes) (total : Nat) :
    Blocks request size data total 0 :=
  ⟨Nat.zero_le _, .inr (Nat.dvd_zero _), fun _ h => absurd h (Nat.not_lt_zero _)⟩

theorem Blocks.cons {total done : Nat}
    (h : ∀ i < min total elementsPerBlock, Convertible request (elementBytes size data i))
    (hb : Blocks request size (data.drop (min total elementsPerBlock * size))
      (total - min total elementsPerBlock) done) :
    Blocks request size data total (min total elementsPerBlock + done) := by
  have hle := hb.le
  refine ⟨by omega, ?_, convertible_add h hb.convertible⟩
  obtain he | hd := hb.whole
  · exact .inl (by omega)
  · by_cases hlt : elementsPerBlock ≤ total
    · rw [Nat.min_eq_right hlt]
      exact .inr (Nat.dvd_add (Nat.dvd_refl _) hd)
    · exact .inl (by omega)

/-- The target has taken what was passed on, or it has failed on what came next
and taken a part of it. -/
def Taken (target : Target) (whole next taken : Bytes) : Prop :=
  taken = whole ∨ ∃ n e, target whole next = some (n, e) ∧ taken = whole ++ next.take n

def nextBlock (request : Conversion) (size : Nat) (data : Bytes) (total done : Nat) : Bytes :=
  convertAll request size (data.drop (done * size)) (min (total - done) elementsPerBlock)

include hs in
/-- Whatever ends the loop, the target has taken the conversion of the blocks
before it, and of the next one at most a part. -/
theorem convertBlocks_taken (hf : remaining ≤ fuel) : ∃ done,
    Blocks request size source.data remaining done ∧
    Taken target (written ++ convertAll request size source.data done)
      (nextBlock request size source.data remaining done)
      (convertBlocks request size target fuel remaining source written).2 ∧
    ((convertBlocks request size target fuel remaining source written).1 = .ok () →
      done = remaining ∧ (convertBlocks request size target fuel remaining source written).2 =
        written ++ convertAll request size source.data done) := by
  have hpos : 0 < elementsPerBlock := by decide
  have hnone : convertAll request size source.data 0 = [] := rfl
  induction fuel generalizing remaining source written with
  | zero =>
    obtain rfl : remaining = 0 := by omega
    exact ⟨0, Blocks.zero _ _ _ _, .inl (List.append_nil written).symm,
      fun _ => ⟨rfl, (List.append_nil written).symm⟩⟩
  | succ fuel ih =>
    by_cases hr : remaining = 0
    · subst hr
      exact ⟨0, Blocks.zero _ _ _ _, .inl (List.append_nil written).symm,
        fun _ => ⟨rfl, (List.append_nil written).symm⟩⟩
    have hturn := convertBlocks_turn hs target fuel source written hr
    generalize convertBlocks request size target (fuel + 1) remaining source written = result
      at hturn ⊢
    cases hturn with
    | short | refused =>
      exact ⟨0, Blocks.zero _ _ _ _, .inl (List.append_nil written).symm, fun h => by cases h⟩
    | @failed n e e' ht =>
      refine ⟨0, Blocks.zero _ _ _ _, .inr ⟨n, e, ?_⟩, fun h => by cases h⟩
      rw [hnone, List.append_nil, nextBlock, Nat.zero_mul]
      exact ⟨ht, rfl⟩
    | passed hlen hgood =>
      obtain ⟨done, hb, htaken, hfin⟩ := ih
        { source with data := source.data.drop (min remaining elementsPerBlock * size) }
        (written ++ convertAll request size source.data (min remaining elementsPerBlock))
        (by omega : remaining - min remaining elementsPerBlock ≤ fuel) rfl
      have hnext : nextBlock request size
          (source.data.drop (min remaining elementsPerBlock * size))
          (remaining - min remaining elementsPerBlock) done =
            nextBlock request size source.data remaining (min remaining elementsPerBlock + done) := by
        rw [nextBlock, nextBlock, List.drop_drop, ← Nat.add_mul, Nat.sub_sub]
      rw [List.append_assoc, ← convertAll_add] at htaken hfin
      rw [hnext] at htaken
      have hle := Nat.min_le_left remaining elementsPerBlock
      exact ⟨_, Blocks.cons hgood hb, htaken, fun h => ⟨by have := (hfin h).1; omega, (hfin h).2⟩⟩

include hs in
/-- Given enough input and a target that takes everything, the loop ends with
the whole conversion or at the first element that is not finite. The message
counts that element from the start of its block. -/
theorem convertBlocks_accepted (hf : remaining ≤ fuel)
    (hlen : remaining * size ≤ source.data.length) (ht : ∀ w b, target w b = none) :
    ((∀ i < remaining, Convertible request (elementBytes size source.data i)) ∧
      convertBlocks request size target fuel remaining source written =
        (.ok (), written ++ convertAll request size source.data remaining)) ∨
    ∃ bad < remaining, (∀ i < bad, Convertible request (elementBytes size source.data i)) ∧
      ¬ Convertible request (elementBytes size source.data bad) ∧
      convertBlocks request size target fuel remaining source written =
        (.error ("element " ++ toString (bad % elementsPerBlock) ++ " is not finite"),
          written ++ convertAll request size source.data
            (bad / elementsPerBlock * elementsPerBlock)) := by
  have hpos : 0 < elementsPerBlock := by decide
  induction fuel generalizing remaining source written with
  | zero =>
    obtain rfl : remaining = 0 := by omega
    exact .inl ⟨by omega, congrArg (Prod.mk _) (List.append_nil written).symm⟩
  | succ fuel ih =>
    by_cases hr : remaining = 0
    · subst hr
      exact .inl ⟨by omega, congrArg (Prod.mk _) (List.append_nil written).symm⟩
    have hmul := Nat.mul_le_mul_right size (Nat.min_le_left remaining elementsPerBlock)
    have hturn := convertBlocks_turn hs target fuel source written hr
    generalize convertBlocks request size target (fuel + 1) remaining source written = result
      at hturn ⊢
    cases hturn with
    | short e hno => omega
    | @refused c hlt hgood hno =>
      have hce : c < elementsPerBlock := by omega
      refine .inr ⟨c, by omega, hgood, hno, ?_⟩
      rw [Nat.mod_eq_of_lt hce, Nat.div_eq_of_lt hce, Nat.zero_mul]
      exact congrArg (Prod.mk _) (List.append_nil written).symm
    | failed e' he =>
      rw [ht] at he
      cases he
    | passed _ hgood =>
      have hsum := Nat.add_sub_cancel' (Nat.min_le_left remaining elementsPerBlock)
      obtain ⟨hall, hok⟩ | ⟨bad, hlt, hgood', hno, herr⟩ := ih
        { source with data := source.data.drop (min remaining elementsPerBlock * size) }
        (written ++ convertAll request size source.data (min remaining elementsPerBlock))
        (by omega : remaining - min remaining elementsPerBlock ≤ fuel)
        (by rw [List.length_drop, Nat.sub_mul]; omega)
      · left
        have hwhole := convertible_add hgood hall
        rw [hsum] at hwhole
        refine ⟨hwhole, ?_⟩
        rw [hok, List.append_assoc, ← convertAll_add, hsum]
      · -- A block follows, so the one before it is full.
        have hfull : min remaining elementsPerBlock = elementsPerBlock := by omega
        refine .inr ⟨min remaining elementsPerBlock + bad, by omega,
          convertible_add hgood hgood', by rwa [← elementBytes_drop], ?_⟩
        rw [herr, hfull, Nat.add_mod_left, Nat.add_div_left bad hpos, Nat.succ_mul,
          Nat.add_comm (bad / elementsPerBlock * elementsPerBlock), convertAll_add,
          List.append_assoc]

end Loop

end HeteroCluster.ConversionBlocks
