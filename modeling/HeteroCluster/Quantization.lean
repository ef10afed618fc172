import HeteroCluster.FailFast
import HeteroCluster.FloatNumbers
import HeteroCluster.LittleEndian
import HeteroCluster.ObjectStore

namespace HeteroCluster.Quantization

open FailFast FloatNumbers LittleEndian CheckpointCodec ObjectStore

def binary64 : Format := ⟨52, -1074, 2047⟩
def binary32 : Format := ⟨23, -149, 255⟩
def bfloat16 : Format := ⟨7, -133, 255⟩

abbrev Binary64 := Number binary64
abbrev Binary32 := Number binary32

def float32bits (value : Binary32) : UInt32 :=
  UInt32.ofNat (value.code + if value.negative then 2 ^ 31 else 0)

def float32frombits (bits : UInt32) : Binary32 := ⟨2 ^ 31 ≤ bits.toNat, bits.toNat % 2 ^ 31⟩

def float32ToBF16 (value : Binary32) : UInt16 :=
  let bits := float32bits value
  let rounded := bits + ((0x7fff : UInt32) + ((bits >>> 16) &&& 1))
  (rounded >>> 16).toUInt16

def bf16ToFloat32 (value : UInt16) : Binary32 := float32frombits (value.toUInt32 <<< 16)

def numericSize (dtype : String) : Option UInt64 :=
  if dtype = "int8" then some 1
  else if dtype = "bfloat16" then some 2
  else if dtype = "float32" then some 4
  else none

structure Conversion where
  inputPath : String
  outputPath : String
  elements : UInt64
  sourceDType : String
  targetDType : String
  scale : Binary64
  zeroPoint : Int

structure ConversionResult where
  elements : UInt64
  byteLength : UInt64
  sha256 : String
deriving DecidableEq

def Conversion.validate (request : Conversion) : Except String (UInt64 × UInt64) := do
  let scale := request.scale
  refuse (request.elements = 0 ∨ request.elements > (1 : UInt64) <<< 40 ∨
      (scale.isNaN = false ∧ scale.key ≤ 0) ∨ scale.isNaN ∨ scale.isInf ∨
      request.zeroPoint < -128 ∨ request.zeroPoint > 127)
    "invalid element count or affine quantization"
  let validPair := (request.sourceDType = "int8" ∧
      (request.targetDType = "float32" ∨ request.targetDType = "bfloat16")) ∨
    (request.targetDType = "int8" ∧
      (request.sourceDType = "float32" ∨ request.sourceDType = "bfloat16"))
  let badPair := "conversion must be int8 to or from float32/bfloat16"
  match numericSize request.sourceDType, numericSize request.targetDType with
  | some sourceSize, some targetSize =>
    refuse (¬ validPair ∨ request.elements > 0xffffffffffffffff / sourceSize ∨
      request.elements > 0xffffffffffffffff / targetSize) badPair
    return (request.elements * sourceSize, request.elements * targetSize)
  | _, _ => .error badPair

def dequantize (request : Conversion) (byte : UInt8) : Binary32 :=
  (((Number.ofInt byte.toInt8.toInt : Binary64).sub (Number.ofInt request.zeroPoint)).mul
    request.scale).convert

def encodeElement (targetDType : String) (value : Binary32) : Bytes :=
  if targetDType = "float32" then toBytes 4 (float32bits value).toNat
  else toBytes 2 (float32ToBF16 value).toNat

def decodeElement (sourceDType : String) (bytes : Bytes) : Binary32 :=
  if sourceDType = "float32" then float32frombits (UInt32.ofNat (ofBytes bytes))
  else bf16ToFloat32 (UInt16.ofNat (ofBytes bytes))

def quantize (request : Conversion) (value : Binary32) : UInt8 :=
  let quotient := (value.convert : Binary64).div request.scale
  let quantized := quotient.roundToEven.add (Number.ofInt request.zeroPoint)
  let clamped := (quantized.maximum (Number.ofInt (-128))).minimum (Number.ofInt 127)
  (Int8.ofInt clamped.toInt).toUInt8

def elementBytes (size : Nat) (input : Bytes) (index : Nat) : Bytes :=
  (input.drop (index * size)).take size

def quantizeElement (request : Conversion) (input : Bytes) (index : Nat) : Except String UInt8 :=
  let size := if request.sourceDType = "float32" then 4 else 2
  let value := decodeElement request.sourceDType (elementBytes size input index)
  if (value.convert : Binary64).isNaN || (value.convert : Binary64).isInf then
    .error ("element " ++ toString index ++ " is not finite")
  else .ok (quantize request value)

def convertBlock (request : Conversion) (input : Bytes) (elements : Nat) : Except String Bytes :=
  if request.sourceDType = "int8" then
    .ok ((List.range elements).flatMap fun index =>
      encodeElement request.targetDType (dequantize request (input.getD index 0)))
  else (List.range elements).mapM (quantizeElement request input)

/-- `io.ReadFull` of at least one byte. -/
def readFull (source : Source) (count : Nat) : Except String (Bytes × Source) :=
  if count ≤ source.data.length then
    .ok (source.data.take count, { source with data := source.data.drop count })
  else .error (source.err.getD (if source.data = [] then "EOF" else "unexpected EOF"))

/-- A writer: where it fails on a block, after what was written before, how many
bytes of the block it takes, and its error. -/
abbrev Target := Bytes → Bytes → Option (Nat × String)

def elementsPerBlock : Nat := 64 <<< 10

def convertBlocks (request : Conversion) (sourceSize : Nat) (target : Target) :
    Nat → Nat → Source → Bytes → Except String Unit × Bytes
  | 0, _, _, written => (.ok (), written)
  | _, 0, _, written => (.ok (), written)
  | fuel + 1, remaining, source, written =>
    let count := min remaining elementsPerBlock
    match readFull source (count * sourceSize) with
    | .error e => (.error ("read conversion input: " ++ e), written)
    | .ok (input, rest) =>
      match convertBlock request input count with
      | .error e => (.error e, written)
      | .ok converted =>
        match target written converted with
        | some (n, e) => (.error ("write conversion output: " ++ e), written ++ converted.take n)
        | none =>
          convertBlocks request sourceSize target fuel (remaining - count) rest
            (written ++ converted)

/-- The result, and the bytes the target took. Every block has an element, so
there are at most as many blocks as elements. -/
def convert (codec : Codec) (request : Conversion) (source : Source) (target : Target) :
    Except String ConversionResult × Bytes :=
  match request.validate with
  | .error e => (.error e, [])
  | .ok (_, outputLength) =>
    let sourceSize := ((numericSize request.sourceDType).getD 0).toNat
    match convertBlocks request sourceSize target request.elements.toNat request.elements.toNat
        source [] with
    | (.error e, written) => (.error e, written)
    | (.ok (), written) => (.ok ⟨request.elements, outputLength, codec.sha256 written⟩, written)

end HeteroCluster.Quantization
