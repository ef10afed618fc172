import HeteroCluster.LittleEndian
import HeteroCluster.RingCorrect

namespace HeteroCluster.RingFile

open LittleEndian RingCorrect
open RingModel hiding write

def versionOffset : Nat := 136
def slotsOffset : Nat := 140
def slotSizeOffset : Nat := 144
def totalOffset : Nat := 152
def headOffset : Nat := 0
def tailOffset : Nat := 64
def magicOffset : Nat := 128

/-- "AIORING1" -/
def magic : List UInt8 := [65, 73, 79, 82, 73, 78, 71, 49]

structure File where
  regular : Bool
  data : List UInt8
  size_lt : data.length < 2 ^ 63

/-- The error numbers that `aiorch_ring_open` returns, with the sign turned. -/
inductive Errno where
  | einval
  | enomem
  | enotsup
  | other (n : Nat)
  deriving DecidableEq

/-- What the two functions ask of the host: the error number left by an earlier
call, whether the mapping fails, whether atomic words are free of locks, and
whether there is memory. -/
structure Host where
  errno : Option Errno
  mmapFails : Option Errno
  lockFree : Bool
  calloc : Bool

/-- The parameters of a ring and the length of its mapping are in bounds. -/
structure Sized (slots slotSize total : UInt64) (mapped : Nat) : Prop where
  slots_ge : 2 ≤ slots.toNat
  slots_le : slots.toNat ≤ 64
  slotSize_ge : minSlotSize ≤ slotSize.toNat
  slotSize_le : slotSize.toNat ≤ maxSlotSize
  total_pos : 0 < total.toNat
  total_le : total.toNat ≤ maxStreamLength
  mapped_eq : mapped = headerSize + slots.toNat * slotSize.toNat

/-- What `Open` and `aiorch_ring_open` keep of a file: the parameters, and the
length of the mapping. -/
@[ext]
structure Handle where
  slots : UInt64
  slotSize : UInt64
  total : UInt64
  mapped : Nat
  sized : Sized slots slotSize total mapped

section Words

def pointer (data : List UInt8) (offset : Nat) (i : Nat) : UInt8 := data.getD (offset + i) 0

def loadU32 (value : Nat → UInt8) : UInt32 :=
  (value 0).toUInt32 ||| (value 1).toUInt32 <<< 8 ||| (value 2).toUInt32 <<< 16 |||
    (value 3).toUInt32 <<< 24

def loadU64 (value : Nat → UInt8) : UInt64 :=
  (List.range 8).foldl (fun result i => result ||| (value i).toUInt64 <<< UInt64.ofNat (8 * i)) 0

/-- `binary.LittleEndian.Uint32` and `Uint64` at an offset. -/
def uint32 (data : List UInt8) (offset : Nat) : UInt32 :=
  UInt32.ofNat (ofBytes (field data offset 4))

def uint64 (data : List UInt8) (offset : Nat) : UInt64 :=
  UInt64.ofNat (ofBytes (field data offset 8))

variable {data : List UInt8} {offset n : Nat}

theorem toNat_uint32 (h : offset + 4 ≤ data.length) :
    (uint32 data offset).toNat = ofBytes (field data offset 4) := by
  have hlt := ofBytes_lt (field data offset 4)
  rw [length_field h] at hlt
  exact UInt32.toNat_ofNat_of_lt' hlt

theorem toNat_uint64 (h : offset + 8 ≤ data.length) :
    (uint64 data offset).toNat = ofBytes (field data offset 8) := by
  have hlt := ofBytes_lt (field data offset 8)
  rw [length_field h] at hlt
  exact UInt64.toNat_ofNat_of_lt' hlt

theorem toNat_shiftLeft_byte (b : UInt8) (h : n < 8) :
    (b.toUInt64 <<< UInt64.ofNat (8 * n)).toNat = b.toNat <<< (8 * n) := by
  have hb := b.toNat_lt
  have hshift : (UInt64.ofNat (8 * n)).toNat % 64 = 8 * n := by
    rw [UInt64.toNat_ofNat']
    omega
  rw [UInt64.toNat_shiftLeft, hshift, UInt8.toNat_toUInt64, Nat.mod_eq_of_lt]
  rw [Nat.shiftLeft_eq]
  calc b.toNat * 2 ^ (8 * n)
      < 2 ^ 8 * 2 ^ (8 * n) := Nat.mul_lt_mul_of_pos_right hb (Nat.two_pow_pos _)
    _ = 2 ^ (8 + 8 * n) := (Nat.pow_add 2 8 (8 * n)).symm
    _ ≤ 2 ^ 64 := Nat.pow_le_pow_right (by decide) (by omega)

/-- The loop of `load_u64` after its first rounds. -/
theorem foldl_pointer (hn : n ≤ 8) (h : offset + n ≤ data.length) :
    ((List.range n).foldl (fun result i => result |||
      (pointer data offset i).toUInt64 <<< UInt64.ofNat (8 * i)) 0).toNat =
        ofBytes (field data offset n) := by
  induction n with
  | zero => rfl
  | succ n ih =>
    rw [List.range_succ, List.foldl_append, List.foldl_cons, List.foldl_nil, UInt64.toNat_or,
      ih (by omega) (by omega), toNat_shiftLeft_byte _ (by omega), field_succ (by omega),
      ← ofBytes_or, length_field (by omega)]
    rfl

theorem loadU64_eq (h : offset + 8 ≤ data.length) :
    loadU64 (pointer data offset) = uint64 data offset := by
  apply UInt64.toNat_inj.mp
  rw [toNat_uint64 h]
  exact foldl_pointer le_rfl h

theorem toNat_shiftLeft_byte32 (b : UInt8) {k : UInt32} (hk : k.toNat ≤ 24) :
    (b.toUInt32 <<< k).toNat = b.toNat <<< k.toNat := by
  have hb := b.toNat_lt
  rw [UInt32.toNat_shiftLeft, Nat.mod_eq_of_lt (by omega : k.toNat < 32), UInt8.toNat_toUInt32,
    Nat.mod_eq_of_lt]
  rw [Nat.shiftLeft_eq]
  calc b.toNat * 2 ^ k.toNat
      < 2 ^ 8 * 2 ^ k.toNat := Nat.mul_lt_mul_of_pos_right hb (Nat.two_pow_pos _)
    _ = 2 ^ (8 + k.toNat) := (Nat.pow_add 2 8 k.toNat).symm
    _ ≤ 2 ^ 32 := Nat.pow_le_pow_right (by decide) (by omega)

theorem toNat_loadU32 (value : Nat → UInt8) :
    (loadU32 value).toNat = ofBytes [value 0, value 1, value 2, value 3] := by
  have h0 : ofBytes [value 0] = (value 0).toNat := by simp [ofBytes]
  have h1 := ofBytes_or [value 0] (value 1)
  have h2 := ofBytes_or [value 0, value 1] (value 2)
  have h3 := ofBytes_or [value 0, value 1, value 2] (value 3)
  rw [loadU32, UInt32.toNat_or, UInt32.toNat_or, UInt32.toNat_or,
    toNat_shiftLeft_byte32 _ (by decide), toNat_shiftLeft_byte32 _ (by decide),
    toNat_shiftLeft_byte32 _ (by decide), UInt8.toNat_toUInt32, ← h0]
  exact (congrArg (fun x => (x ||| _) ||| _) h1).trans ((congrArg (· ||| _) h2).trans h3)

theorem loadU32_eq (h : offset + 4 ≤ data.length) :
    loadU32 (pointer data offset) = uint32 data offset := by
  apply UInt32.toNat_inj.mp
  have hfield : field data offset 4 = [pointer data offset 0, pointer data offset 1,
      pointer data offset 2, pointer data offset 3] := by
    rw [field_succ (by omega), field_succ (by omega), field_succ (by omega), field_succ (by omega)]
    rfl
  rw [toNat_uint32 h, hfield, toNat_loadU32]

end Words

section Opening

inductive OpenError where
  | text (message : String)
  | errno (e : Errno)

theorem sized_iff {slots slotSize total : UInt64} {length : Nat} (hlength : length < 2 ^ 63) :
    ¬ (slots.toNat < 2 ∨ slots.toNat > 64 ∨ slotSize.toNat < minSlotSize ∨
      slotSize.toNat > maxSlotSize ∨ total.toNat = 0 ∨ total.toNat > maxStreamLength ∨
      UInt64.ofNat headerSize + slots * slotSize ≠ UInt64.ofNat length) ↔
    Sized slots slotSize total length := by
  have hwant : slots.toNat ≤ 64 → slotSize.toNat ≤ maxSlotSize →
      (UInt64.ofNat headerSize + slots * slotSize = UInt64.ofNat length ↔
        length = headerSize + slots.toNat * slotSize.toNat) := by
    intro hslots hsize
    have hmul : slots.toNat * slotSize.toNat ≤ 64 * maxSlotSize := Nat.mul_le_mul hslots hsize
    have hmax : 64 * maxSlotSize = 2 ^ 30 := by decide
    have hheader : headerSize = 4096 := rfl
    rw [← UInt64.toNat_inj, UInt64.toNat_add, UInt64.toNat_mul, UInt64.toNat_ofNat',
      UInt64.toNat_ofNat']
    omega
  constructor
  · intro h
    simp only [not_or, not_lt, not_not] at h
    obtain ⟨h1, h2, h3, h4, h5, h6, h7⟩ := h
    exact ⟨h1, h2, h3, h4, Nat.pos_of_ne_zero h5, h6, (hwant h2 h4).mp h7⟩
  · intro h
    simp only [not_or, not_lt, not_not]
    exact ⟨h.slots_ge, h.slots_le, h.slotSize_ge, h.slotSize_le, Nat.ne_of_gt h.total_pos,
      h.total_le, (hwant h.slots_le h.slotSize_le).mpr h.mapped_eq⟩

/-- `Open` on a file that has been opened. -/
def openRing (host : Host) (file : File) : Except OpenError Handle :=
  if file.regular = false ∨ file.data.length < headerSize then
    .error (.text "ring is not a regular mapped file")
  else match host.mmapFails with
  | some e => .error (.errno e)
  | none =>
    if field file.data 128 8 ≠ magic ∨ uint32 file.data versionOffset ≠ 1 then
      .error (.text "invalid ring magic or version")
    else
      let slots := (uint32 file.data slotsOffset).toUInt64
      let slotSize := uint64 file.data slotSizeOffset
      let total := uint64 file.data totalOffset
      if h : slots.toNat < 2 ∨ slots.toNat > 64 ∨ slotSize.toNat < minSlotSize ∨
          slotSize.toNat > maxSlotSize ∨ total.toNat = 0 ∨ total.toNat > maxStreamLength ∨
          UInt64.ofNat headerSize + slots * slotSize ≠ UInt64.ofNat file.data.length then
        .error (.text "invalid ring bounds or mapping length")
      else .ok ⟨slots, slotSize, total, file.data.length, (sized_iff file.size_lt).mp h⟩

namespace Abi

def headerSize : Nat := 4096
def magicOffset : Nat := 128
def versionOffset : Nat := 136
def slotsOffset : Nat := 140
def slotSizeOffset : Nat := 144
def totalOffset : Nat := 152
def minSlotSize : Nat := 1 <<< 20
def maxSlotSize : Nat := 16 <<< 20
def magic : List UInt8 := [65, 73, 79, 82, 73, 78, 71, 49]

end Abi

/-- `aiorch_ring_open` on a file that has been opened. -/
def aiorchRingOpen (host : Host) (file : File) : Except Errno Handle :=
  if file.regular = false ∨ file.data.length < Abi.headerSize then .error (host.errno.getD .einval)
  else match host.mmapFails with
  | some e => .error e
  | none =>
    let slots := (loadU32 (pointer file.data Abi.slotsOffset)).toUInt64
    let slotSize := loadU64 (pointer file.data Abi.slotSizeOffset)
    let total := loadU64 (pointer file.data Abi.totalOffset)
    if h : field file.data Abi.magicOffset 8 ≠ Abi.magic ∨
        loadU32 (pointer file.data Abi.versionOffset) ≠ 1 ∨
        slots.toNat < 2 ∨ slots.toNat > 64 ∨ slotSize.toNat < Abi.minSlotSize ∨
        slotSize.toNat > Abi.maxSlotSize ∨ total.toNat = 0 ∨ total.toNat > 1 <<< 40 ∨
        UInt64.ofNat Abi.headerSize + slots * slotSize ≠ UInt64.ofNat file.data.length then
      .error .einval
    else if host.lockFree = false then .error .enotsup
    else if host.calloc = false then .error .enomem
    else .ok ⟨slots, slotSize, total, file.data.length,
      (sized_iff file.size_lt).mp (not_or.mp (not_or.mp h).2).2⟩

variable {host : Host} {file : File} {handle : Handle}

/-- What both sides read from a file that they accept. -/
structure Reads (file : File) (handle : Handle) : Prop where
  regular : file.regular = true
  size : headerSize ≤ file.data.length
  magic : field file.data magicOffset 8 = magic
  version : uint32 file.data versionOffset = 1
  slots : handle.slots = (uint32 file.data slotsOffset).toUInt64
  slotSize : handle.slotSize = uint64 file.data slotSizeOffset
  total : handle.total = uint64 file.data totalOffset
  mapped : handle.mapped = file.data.length

theorem openRing_eq_ok :
    openRing host file = .ok handle ↔ host.mmapFails = none ∧ Reads file handle := by
  unfold openRing
  constructor
  · intro h
    split at h
    · cases h
    next hfile =>
      split at h
      · cases h
      next hmap =>
        split at h
        · cases h
        next hmagic =>
          dsimp only at h
          split at h
          · cases h
          · cases h
            simp only [not_or, Bool.not_eq_false, not_lt, not_not] at hfile hmagic
            exact ⟨hmap, hfile.1, hfile.2, hmagic.1, hmagic.2, rfl, rfl, rfl, rfl⟩
  · rintro ⟨hmap, h⟩
    obtain ⟨slots, slotSize, total, mapped, hsized⟩ := handle
    obtain ⟨hregular, hsize, hmagic, hversion, rfl, rfl, rfl, rfl⟩ := h
    rw [if_neg (by simp [hregular, hsize]), hmap]
    dsimp only
    rw [if_neg (by simp [hversion, ← hmagic, magicOffset]),
      dif_neg ((sized_iff file.size_lt).mpr hsized)]

/-- The host can do what only `aiorch_ring_open` asks for. -/
structure Host.Able (host : Host) : Prop where
  lockFree : host.lockFree = true
  calloc : host.calloc = true

theorem loads_eq {data : List UInt8} (h : headerSize ≤ data.length) :
    loadU32 (pointer data Abi.versionOffset) = uint32 data versionOffset ∧
      loadU32 (pointer data Abi.slotsOffset) = uint32 data slotsOffset ∧
      loadU64 (pointer data Abi.slotSizeOffset) = uint64 data slotSizeOffset ∧
      loadU64 (pointer data Abi.totalOffset) = uint64 data totalOffset := by
  refine ⟨loadU32_eq (le_trans ?_ h), loadU32_eq (le_trans ?_ h), loadU64_eq (le_trans ?_ h),
    loadU64_eq (le_trans ?_ h)⟩
  all_goals decide

theorem reads_of_aiorchRingOpen (h : aiorchRingOpen host file = .ok handle) :
    host.Able ∧ host.mmapFails = none ∧ Reads file handle := by
  unfold aiorchRingOpen at h
  split at h
  · cases h
  next hfile =>
    simp only [not_or, Bool.not_eq_false, not_lt] at hfile
    obtain ⟨hversion, hslots, hslotSize, htotal⟩ := loads_eq hfile.2
    split at h
    · cases h
    next hmap =>
      dsimp only at h
      split at h
      · cases h
      next hchecks =>
        split at h
        · cases h
        next hlock =>
          split at h
          · cases h
          next hcalloc =>
            cases h
            simp only [not_or, not_not, hversion] at hchecks
            have hable : host.Able :=
              ⟨Bool.eq_true_of_not_eq_false hlock, Bool.eq_true_of_not_eq_false hcalloc⟩
            exact ⟨hable, hmap, hfile.1, hfile.2, hchecks.1, hchecks.2.1,
              congrArg UInt32.toUInt64 hslots, hslotSize, htotal, rfl⟩

theorem aiorchRingOpen_of_reads (hable : host.Able) (hmap : host.mmapFails = none)
    (h : Reads file handle) : aiorchRingOpen host file = .ok handle := by
  obtain ⟨hversion, hslots, hslotSize, htotal⟩ := loads_eq h.size
  have hsized := (sized_iff file.size_lt).mpr (h.mapped ▸ handle.sized)
  rw [h.slots, h.slotSize, h.total, ← hslots, ← hslotSize, ← htotal] at hsized
  have hchecks := not_or.mpr ⟨not_not.mpr h.magic,
    not_or.mpr ⟨not_not.mpr (hversion.trans h.version), hsized⟩⟩
  have hfile : ¬ (file.regular = false ∨ file.data.length < headerSize) := by
    simp [h.regular, h.size]
  unfold aiorchRingOpen
  split
  next hbad => exact absurd hbad hfile
  · rw [hmap]
    dsimp only
    split
    next hbad => exact absurd hbad hchecks
    · rw [if_neg (by simp [hable.lockFree]), if_neg (by simp [hable.calloc])]
      congr 1
      apply Handle.ext
      · exact (congrArg UInt32.toUInt64 hslots).trans h.slots.symm
      · exact hslotSize.trans h.slotSize.symm
      · exact htotal.trans h.total.symm
      · exact h.mapped.symm

theorem aiorchRingOpen_eq_ok : aiorchRingOpen host file = .ok handle ↔
    host.Able ∧ host.mmapFails = none ∧ Reads file handle := by
  constructor
  · exact reads_of_aiorchRingOpen
  · rintro ⟨hable, hmap, h⟩
    exact aiorchRingOpen_of_reads hable hmap h

theorem openRing_eq_ok_iff (hable : host.Able) :
    openRing host file = .ok handle ↔ aiorchRingOpen host file = .ok handle := by
  rw [openRing_eq_ok, aiorchRingOpen_eq_ok, and_iff_right hable]

end Opening

section Initialized

/-- What `Initialize` writes into the zeros of a truncated file. -/
def headerWrites (ring : Ring) : List (Nat × List UInt8) :=
  [(128, magic), (versionOffset, toBytes 4 1), (slotsOffset, toBytes 4 ring.slots),
    (slotSizeOffset, toBytes 8 ring.slotSize), (totalOffset, toBytes 8 ring.total),
    (headOffset, toBytes 8 0), (tailOffset, toBytes 8 0)]

def initializedData (ring : Ring) : List UInt8 :=
  writeAll (List.replicate (headerSize + ring.slots * ring.slotSize) 0) (headerWrites ring)

variable (ring : Ring)

theorem headerWrites_le : ∀ w ∈ headerWrites ring, w.1 + w.2.length ≤ headerSize := by
  simp only [headerWrites, List.forall_mem_cons, length_toBytes]
  exact ⟨by decide, by decide, by decide, by decide, by decide, by decide, by decide, by simp⟩

theorem headerWrites_apart : (headerWrites ring).Pairwise Apart := by
  simp only [headerWrites, List.pairwise_cons, List.forall_mem_cons, Apart, length_toBytes]
  simp [magic, versionOffset, slotsOffset, slotSizeOffset, totalOffset, headOffset, tailOffset]

theorem length_initializedData :
    (initializedData ring).length = headerSize + ring.slots * ring.slotSize := by
  rw [initializedData, length_writeAll, List.length_replicate]
  intro w hw
  rw [List.length_replicate]
  exact (headerWrites_le ring w hw).trans (Nat.le_add_right _ _)

theorem ringSize_le : headerSize + ring.slots * ring.slotSize ≤ 2 ^ 31 := by
  have hmul := Nat.mul_le_mul ring.slots_le ring.slotSize_le
  have hmax : 64 * maxSlotSize = 2 ^ 30 := by decide
  have hheader : headerSize = 4096 := rfl
  omega

/-- The file that `Initialize` leaves behind. -/
def initialized : File where
  regular := true
  data := initializedData ring
  size_lt := by
    have := ringSize_le ring
    rw [length_initializedData]
    omega

def initializeFile (slots : Int) (slotSize total : UInt64) : Except String File :=
  (initializeRing slots slotSize.toNat total.toNat).map initialized

variable {ring}

theorem field_initialized {w : Nat × List UInt8} (hw : w ∈ headerWrites ring) :
    field (initialized ring).data w.1 w.2.length = w.2 := by
  refine field_writeAll ?_ (headerWrites_apart ring) hw
  intro w hw
  rw [List.length_replicate]
  exact (headerWrites_le ring w hw).trans (Nat.le_add_right _ _)

theorem sized_ring (ring : Ring) : Sized (UInt64.ofNat ring.slots) (UInt64.ofNat ring.slotSize)
    (UInt64.ofNat ring.total) (headerSize + ring.slots * ring.slotSize) := by
  have hslots : (UInt64.ofNat ring.slots).toNat = ring.slots :=
    UInt64.toNat_ofNat_of_lt' (ring.slots_le.trans_lt (by decide))
  have hslotSize : (UInt64.ofNat ring.slotSize).toNat = ring.slotSize :=
    UInt64.toNat_ofNat_of_lt' (ring.slotSize_le.trans_lt (by decide))
  have htotal : (UInt64.ofNat ring.total).toNat = ring.total :=
    UInt64.toNat_ofNat_of_lt' (ring.total_le.trans_lt (by decide))
  refine ⟨?_, ?_, ?_, ?_, ?_, ?_, ?_⟩
  · rw [hslots]
    exact ring.slots_ge
  · rw [hslots]
    exact ring.slots_le
  · rw [hslotSize]
    exact ring.slotSize_ge
  · rw [hslotSize]
    exact ring.slotSize_le
  · rw [htotal]
    exact ring.total_pos
  · rw [htotal]
    exact ring.total_le
  · rw [hslots, hslotSize]

def handleOf (ring : Ring) : Handle := ⟨_, _, _, _, sized_ring ring⟩

theorem uint32_initialized (offset value : Nat)
    (hw : (offset, toBytes 4 value) ∈ headerWrites ring) :
    uint32 (initialized ring).data offset = UInt32.ofNat value := by
  have hfield := field_initialized hw
  rw [length_toBytes] at hfield
  rw [uint32, hfield, ofBytes_toBytes]
  apply UInt32.toNat_inj.mp
  rw [UInt32.toNat_ofNat', UInt32.toNat_ofNat']
  exact Nat.mod_mod value (2 ^ 32)

theorem uint64_initialized (offset value : Nat)
    (hw : (offset, toBytes 8 value) ∈ headerWrites ring) :
    uint64 (initialized ring).data offset = UInt64.ofNat value := by
  have hfield := field_initialized hw
  rw [length_toBytes] at hfield
  rw [uint64, hfield, ofBytes_toBytes]
  apply UInt64.toNat_inj.mp
  rw [UInt64.toNat_ofNat', UInt64.toNat_ofNat']
  exact Nat.mod_mod value (2 ^ 64)

theorem reads_initialized (ring : Ring) : Reads (initialized ring) (handleOf ring) where
  regular := rfl
  size := by
    rw [initialized, length_initializedData]
    exact Nat.le_add_right _ _
  magic := field_initialized (w := (128, magic)) (by simp [headerWrites])
  version := uint32_initialized versionOffset 1 (by simp [headerWrites])
  slots := by
    rw [uint32_initialized slotsOffset ring.slots (by simp [headerWrites])]
    apply UInt64.toNat_inj.mp
    have hle := ring.slots_le
    rw [UInt32.toNat_toUInt64, UInt32.toNat_ofNat', handleOf, UInt64.toNat_ofNat']
    omega
  slotSize := (uint64_initialized slotSizeOffset _ (by simp [headerWrites])).symm
  total := (uint64_initialized totalOffset _ (by simp [headerWrites])).symm
  mapped := (length_initializedData ring).symm

theorem initializeFile_eq_ok {slots : Int} {slotSize total : UInt64} {file : File}
    (h : initializeFile slots slotSize total = .ok file) : ∃ ring : Ring, file = initialized ring ∧
      (ring.slots : Int) = slots ∧ ring.slotSize = slotSize.toNat ∧ ring.total = total.toNat := by
  unfold initializeFile at h
  cases hring : initializeRing slots slotSize.toNat total.toNat with
  | error e =>
    rw [hring] at h
    cases h
  | ok ring =>
    rw [hring] at h
    exact ⟨ring, (Except.ok.inj h).symm, initializeRing_ok hring⟩

end Initialized

/-- `Open` and `aiorch_ring_open` accept the same files with the same parameters,
and a file of `Initialize` with those it was given and empty counters. -/
theorem open_agrees (host : Host) (hable : host.Able) :
    (∀ file handle, openRing host file = .ok handle ↔ aiorchRingOpen host file = .ok handle) ∧
      (host.mmapFails = none → ∀ slots slotSize total file,
        initializeFile slots slotSize total = .ok file → ∃ handle,
          openRing host file = .ok handle ∧ aiorchRingOpen host file = .ok handle ∧
          (handle.slots.toNat : Int) = slots ∧ handle.slotSize = slotSize ∧ handle.total = total ∧
          uint64 file.data headOffset = 0 ∧ uint64 file.data tailOffset = 0) := by
  refine ⟨fun file handle => openRing_eq_ok_iff hable, ?_⟩
  intro hmap slots slotSize total file h
  obtain ⟨ring, rfl, hslots, hslotSize, htotal⟩ := initializeFile_eq_ok h
  have hopen := openRing_eq_ok.mpr ⟨hmap, reads_initialized ring⟩
  refine ⟨handleOf ring, hopen, (openRing_eq_ok_iff hable).mp hopen, ?_, ?_, ?_, ?_, ?_⟩
  · have hle := ring.slots_le
    rw [← hslots, handleOf, UInt64.toNat_ofNat_of_lt' (hle.trans_lt (by decide))]
  · exact (congrArg UInt64.ofNat hslotSize).trans UInt64.ofNat_toNat
  · exact (congrArg UInt64.ofNat htotal).trans UInt64.ofNat_toNat
  · exact uint64_initialized headOffset 0 (by simp [headerWrites])
  · exact uint64_initialized tailOffset 0 (by simp [headerWrites])

def ableHost : Host := ⟨none, none, true, true⟩

theorem open_agrees_small : ∃ file handle, initializeFile 2 1048576 3 = .ok file ∧
    openRing ableHost file = .ok handle ∧ aiorchRingOpen ableHost file = .ok handle ∧
    handle.slots = 2 ∧ handle.total = 3 := by
  have hring : initializeFile 2 1048576 3 = .ok (initialized smallRing) := rfl
  obtain ⟨handle, hgo, hc, hslots, -, htotal, -⟩ :=
    (open_agrees ableHost ⟨rfl, rfl⟩).2 rfl 2 1048576 3 _ hring
  refine ⟨_, handle, hring, hgo, hc, ?_, htotal⟩
  apply UInt64.toNat_inj.mp
  have htwo : (2 : UInt64).toNat = 2 := rfl
  omega

end HeteroCluster.RingFile
