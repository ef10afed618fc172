import HeteroCluster.RingFile

namespace HeteroCluster.HostileRing

open RingFile
open RingModel (Language headerSize maxSlotSize maxStreamLength)
open RingCorrect (smallRing)

/-- Where a call stands. The words that it has loaded are part of it, so that each
load is a step of its own. -/
inductive PC where
  | idle
  | check (length done : UInt64)
  | spin (length done : UInt64)
  | checkTail (length done head : UInt64)
  | reload (length done : UInt64)
  | copy (length done own : UInt64)
  | store (length done : UInt64)

structure Copy where
  start : UInt64
  amount : UInt64
  done : UInt64
  length : UInt64

structure Side where
  position : UInt64
  frameBytes : UInt64
  framePos : UInt64
  pc : PC
  copies : List Copy
  returned : List UInt64

def fresh : Side := ⟨0, 0, 0, .idle, [], []⟩

/-- What comes from outside: calls, and the value of the next word that is loaded,
with whether a wait that follows ends in an error. -/
inductive Input where
  | read (length : UInt64)
  | write (length : UInt64)
  | step (word : UInt64) (failed : Bool)

def least (a b : UInt64) : UInt64 := if a < b then a else b

variable (h : Handle) (language : Language) (producer : Bool)

/-- The first lines of `Read`. -/
def beginRead (s : Side) (length : UInt64) : Side :=
  match s.pc with
  | .idle =>
    if producer = true ∨ s.position = h.total then s else { s with pc := .check length 0 }
  | _ => s

def beginWrite (s : Side) (length : UInt64) : Side :=
  match s.pc with
  | .idle =>
    if producer = false ∨ s.position + length > h.total then s
    else { s with pc := .check length 0 }
  | _ => s

def openFrame (s : Side) : Side :=
  { s with frameBytes := least h.slotSize (h.total - s.position), framePos := 0 }

/-- A copy at the slot of the word that was loaded last. -/
def copySlot (s : Side) (length done own : UInt64) : Side :=
  let amount := least (length - done) (s.frameBytes - s.framePos)
  let start := UInt64.ofNat headerSize + (own % h.slots) * h.slotSize + s.framePos
  { s with
    framePos := s.framePos + amount
    position := s.position + amount
    copies := s.copies ++ [⟨start, amount, done, length⟩] }

/-- Go returns what it has copied, and C tries to fill its buffer. -/
def afterCopy (s : Side) (length done : UInt64) : Side :=
  match language with
  | .go => { s with pc := .idle, returned := s.returned ++ [done] }
  | .c => { s with pc := .check length done }

def stepReader (s : Side) (word : UInt64) (failed : Bool) : Side :=
  match s.pc with
  | .idle => s
  | .check length done =>
    if language = .c ∧ ¬ (done < length ∧ s.position < h.total) then
      { s with pc := .idle, returned := s.returned ++ [done] }
    else if s.framePos = s.frameBytes then { s with pc := .checkTail length done word }
    else { s with pc := .copy length done word }
  | .spin _ _ => s
  | .checkTail length done head =>
    if head < word ∨ head - word > h.slots then { s with pc := .idle }
    else if head = word then
      if failed = true then { s with pc := .idle } else { s with pc := .check length done }
    else { openFrame h s with pc := .reload length done }
  | .reload length done => { s with pc := .copy length done word }
  | .copy length done tail =>
    let amount := least (length - done) (s.frameBytes - s.framePos)
    let s := copySlot h s length done tail
    if s.framePos = s.frameBytes then { s with pc := .store length (done + amount) }
    else afterCopy language s length (done + amount)
  | .store length done => afterCopy language s length done

def stepWriter (s : Side) (word : UInt64) (failed : Bool) : Side :=
  match s.pc with
  | .idle => s
  | .check length done =>
    if done < length then
      if s.framePos = s.frameBytes then { s with pc := .checkTail length done word }
      else { s with pc := .copy length done word }
    else { s with pc := .idle }
  | .spin length done =>
    if s.framePos = s.frameBytes then { s with pc := .checkTail length done word }
    else { s with pc := .copy length done word }
  | .checkTail length done head =>
    if head < word ∨ head - word > h.slots then { s with pc := .idle }
    else if head - word = h.slots then
      if failed = true then { s with pc := .idle }
      else match language with
      | .go => { s with pc := .spin length done }
      | .c => { s with pc := .check length done }
    else { openFrame h s with pc := .reload length done }
  | .reload length done => { s with pc := .copy length done word }
  | .copy length done head =>
    let amount := least (length - done) (s.frameBytes - s.framePos)
    let s := copySlot h s length done head
    if s.framePos = s.frameBytes then { s with pc := .store length (done + amount) }
    else { s with pc := .check length (done + amount) }
  | .store length done => { s with pc := .check length done }

def next (s : Side) : Input → Side
  | .read length => beginRead h producer s length
  | .write length => beginWrite h producer s length
  | .step word failed =>
    if producer = true then stepWriter h language s word failed
    else stepReader h language s word failed

def run (inputs : List Input) : Side := inputs.foldl (next h language producer) fresh

/-- The copy stays inside the mapping and inside the buffer of the caller. -/
structure Inside (c : Copy) : Prop where
  start_ge : headerSize ≤ c.start.toNat
  end_le : c.start.toNat + c.amount.toNat ≤ headerSize + h.slots.toNat * h.slotSize.toNat
  buffer : c.done.toNat + c.amount.toNat ≤ c.length.toNat

/-- The copies and the private cursor of an endpoint keep to the mapping and the stream. -/
structure Safe (s : Side) : Prop where
  inside : ∀ c ∈ s.copies, Inside h c
  framePos_le : s.framePos ≤ s.frameBytes
  frameBytes_le : s.frameBytes ≤ h.slotSize
  position_le : s.position ≤ h.total
  rest : (h.total - s.position).toNat = h.total.toNat - s.position.toNat
  returned : (s.returned.map UInt64.toNat).sum ≤ h.total.toNat

def PC.done : PC → Nat
  | .idle => 0
  | .check _ done => done.toNat
  | .spin _ done => done.toNat
  | .checkTail _ done _ => done.toNat
  | .reload _ done => done.toNat
  | .copy _ done _ => done.toNat
  | .store _ done => done.toNat

def PC.Fits : PC → Prop
  | .idle => True
  | .check length done => done.toNat ≤ length.toNat
  | .spin length done => done.toNat ≤ length.toNat
  | .checkTail length done _ => done.toNat ≤ length.toNat
  | .reload length done => done.toNat ≤ length.toNat
  | .copy length done _ => done.toNat ≤ length.toNat
  | .store length done => done.toNat ≤ length.toNat

/-- The private cursor of an endpoint, whatever the words of the ring were. -/
structure Bounded (s : Side) : Prop where
  frame : s.framePos.toNat ≤ s.frameBytes.toNat
  slot : s.frameBytes.toNat ≤ h.slotSize.toNat
  room : s.position.toNat + (s.frameBytes.toNat - s.framePos.toNat) ≤ h.total.toNat
  inside : ∀ c ∈ s.copies, Inside h c
  fits : s.pc.Fits
  returned : (s.returned.map UInt64.toNat).sum + s.pc.done ≤ s.position.toNat

variable {h language producer} {s : Side} {length done own word : UInt64}

theorem toNat_least (a b : UInt64) : (least a b).toNat = min a.toNat b.toNat := by
  unfold least
  split
  next hlt =>
    rw [UInt64.lt_iff_toNat_lt] at hlt
    omega
  next hle =>
    rw [UInt64.lt_iff_toNat_lt] at hle
    omega

theorem bounded_fresh : Bounded h fresh :=
  ⟨le_rfl, Nat.zero_le _, Nat.zero_le _, by simp [fresh], trivial, le_rfl⟩

theorem Bounded.move (hb : Bounded h s) {pc pc' : PC} (hpc : s.pc = pc) (hfits : pc.Fits → pc'.Fits)
    (hdone : pc'.done ≤ pc.done) : Bounded h { s with pc := pc' } := by
  obtain ⟨hframe, hslot, hroom, hinside, hold, hreturned⟩ := hb
  rw [hpc] at hold hreturned
  exact ⟨hframe, hslot, hroom, hinside, hfits hold, (Nat.add_le_add_left hdone _).trans hreturned⟩

theorem Bounded.fail (hb : Bounded h s) : Bounded h { s with pc := .idle } :=
  hb.move rfl (fun _ => trivial) (Nat.zero_le _)

theorem Bounded.finish (hb : Bounded h s) {pc : PC} (hpc : s.pc = pc)
    (hdone : done.toNat ≤ pc.done) :
    Bounded h { s with pc := .idle, returned := s.returned ++ [done] } := by
  refine ⟨hb.frame, hb.slot, hb.room, hb.inside, trivial, ?_⟩
  have hreturned := hb.returned
  rw [hpc] at hreturned
  simp only [List.map_append, List.sum_append, List.map_cons, List.map_nil, List.sum_singleton,
    PC.done]
  omega

theorem Bounded.openFrame (hb : Bounded h s) : Bounded h (openFrame h s) := by
  have hroom := hb.room
  have hsub : (h.total - s.position).toNat = h.total.toNat - s.position.toNat :=
    UInt64.toNat_sub_of_le _ _ (UInt64.le_iff_toNat_le.mpr (by omega))
  have hleast := toNat_least h.slotSize (h.total - s.position)
  rw [hsub] at hleast
  refine ⟨Nat.zero_le _, ?_, ?_, hb.inside, hb.fits, hb.returned⟩
  · simp only [HostileRing.openFrame]
    omega
  · simp only [HostileRing.openFrame, UInt64.toNat_zero]
    omega

theorem slot_le (h : Handle) (own : UInt64) :
    (own.toNat % h.slots.toNat + 1) * h.slotSize.toNat ≤ h.slots.toNat * h.slotSize.toNat :=
  Nat.mul_le_mul_right _ (Nat.mod_lt _ (Nat.lt_of_lt_of_le (by decide) h.sized.slots_ge))

theorem toNat_start (h : Handle) (own : UInt64) {framePos : UInt64}
    (hle : framePos.toNat ≤ h.slotSize.toNat) :
    (UInt64.ofNat headerSize + (own % h.slots) * h.slotSize + framePos).toNat =
      headerSize + (own.toNat % h.slots.toNat) * h.slotSize.toNat + framePos.toNat := by
  have hslot := slot_le h own
  have hsize : h.slots.toNat * h.slotSize.toNat ≤ 64 * maxSlotSize :=
    Nat.mul_le_mul h.sized.slots_le h.sized.slotSize_le
  have hmax : 64 * maxSlotSize = 2 ^ 30 := by decide
  have hheader : headerSize = 4096 := rfl
  rw [Nat.succ_mul] at hslot
  rw [UInt64.toNat_add, UInt64.toNat_add, UInt64.toNat_mul, UInt64.toNat_mod, UInt64.toNat_ofNat']
  omega

structure Exact (s : Side) (length done amount : UInt64) : Prop where
  amount_eq : amount.toNat =
    min (length.toNat - done.toNat) (s.frameBytes.toNat - s.framePos.toNat)
  framePos : (s.framePos + amount).toNat = s.framePos.toNat + amount.toNat
  position : (s.position + amount).toNat = s.position.toNat + amount.toNat
  done : (done + amount).toNat = done.toNat + amount.toNat

theorem Bounded.done_le (hb : Bounded h s) (hpc : s.pc = .copy length done own) :
    done.toNat ≤ length.toNat := by
  have hfits := hb.fits
  rwa [hpc] at hfits

theorem Bounded.exact (hb : Bounded h s) (hle : done.toNat ≤ length.toNat) :
    Exact s length done (least (length - done) (s.frameBytes - s.framePos)) := by
  have hroom := hb.room
  have htotal := h.sized.total_le
  have hbig : maxStreamLength < 2 ^ 63 := by decide
  have hbytes := s.frameBytes.toNat_lt
  have hlength := length.toNat_lt
  have hframe := hb.frame
  have hamount := toNat_least (length - done) (s.frameBytes - s.framePos)
  rw [UInt64.toNat_sub_of_le _ _ (UInt64.le_iff_toNat_le.mpr hle),
    UInt64.toNat_sub_of_le _ _ (UInt64.le_iff_toNat_le.mpr hframe)] at hamount
  refine ⟨hamount, ?_, ?_, ?_⟩
  · rw [UInt64.toNat_add, Nat.mod_eq_of_lt (by omega)]
  · rw [UInt64.toNat_add, Nat.mod_eq_of_lt (by omega)]
  · rw [UInt64.toNat_add, Nat.mod_eq_of_lt (by omega)]

theorem Bounded.copy_inside (hb : Bounded h s) (hle : done.toNat ≤ length.toNat) (own : UInt64) :
    Inside h ⟨UInt64.ofNat headerSize + (own % h.slots) * h.slotSize + s.framePos,
      least (length - done) (s.frameBytes - s.framePos), done, length⟩ := by
  have hamount := (hb.exact hle).amount_eq
  have hslot := hb.slot
  have hframe := hb.frame
  have hstart := toNat_start h own (hframe.trans hslot)
  have hend := slot_le h own
  rw [Nat.succ_mul] at hend
  refine ⟨?_, ?_, ?_⟩
  · dsimp only
    omega
  · dsimp only
    omega
  · dsimp only
    omega

theorem Bounded.copySlot (hb : Bounded h s) (hpc : s.pc = .copy length done own) :
    Bounded h { copySlot h s length done own with
      pc := .check length (done + least (length - done) (s.frameBytes - s.framePos)) } := by
  have hle := hb.done_le hpc
  obtain ⟨hamount, hpos, hposition, hdone⟩ := hb.exact hle
  have hcopy := hb.copy_inside hle own
  obtain ⟨hframe, hslot, hroom, hinside, -, hreturned⟩ := hb
  rw [hpc] at hreturned
  simp only [PC.done] at hreturned
  refine ⟨?_, hslot, ?_, ?_, ?_, ?_⟩
  · simp only [HostileRing.copySlot]
    omega
  · simp only [HostileRing.copySlot]
    omega
  · intro c hc
    obtain hc | hc := List.mem_append.mp hc
    · exact hinside c hc
    · rw [List.mem_singleton.mp hc]
      exact hcopy
  · simp only [PC.Fits]
    omega
  · simp only [HostileRing.copySlot, PC.done]
    omega

theorem Bounded.afterCopy (hb : Bounded h { s with pc := .check length done }) :
    Bounded h (afterCopy language s length done) := by
  cases language with
  | go => exact hb.finish rfl le_rfl
  | c => exact hb

theorem Bounded.stepReader (hb : Bounded h s) (word : UInt64) (failed : Bool) :
    Bounded h (stepReader h language s word failed) := by
  unfold HostileRing.stepReader
  split
  · exact hb
  next length done hpc =>
    split
    · exact hb.finish hpc le_rfl
    · split
      · exact hb.move hpc id le_rfl
      · exact hb.move hpc id le_rfl
  · exact hb
  next length done head hpc =>
    split
    · exact hb.fail
    · split
      · split
        · exact hb.fail
        · exact hb.move hpc id le_rfl
      · exact hb.openFrame.move hpc id le_rfl
  next length done hpc => exact hb.move hpc id le_rfl
  next length done tail hpc =>
    have hcopy := hb.copySlot hpc
    dsimp only
    split
    · exact hcopy.move rfl id le_rfl
    · exact hcopy.afterCopy
  next length done hpc =>
    have hcheck : Bounded h { s with pc := .check length done } := hb.move hpc id le_rfl
    exact hcheck.afterCopy

theorem Bounded.stepWriter (hb : Bounded h s) (word : UInt64) (failed : Bool) :
    Bounded h (stepWriter h language s word failed) := by
  unfold HostileRing.stepWriter
  split
  · exact hb
  next length done hpc =>
    split
    · split
      · exact hb.move hpc id le_rfl
      · exact hb.move hpc id le_rfl
    · exact hb.fail
  next length done hpc =>
    split
    · exact hb.move hpc id le_rfl
    · exact hb.move hpc id le_rfl
  next length done head hpc =>
    split
    · exact hb.fail
    · split
      · split
        · exact hb.fail
        · cases language with
          | go => exact hb.move hpc id le_rfl
          | c => exact hb.move hpc id le_rfl
      · exact hb.openFrame.move hpc id le_rfl
  next length done hpc => exact hb.move hpc id le_rfl
  next length done head hpc =>
    have hcopy := hb.copySlot hpc
    dsimp only
    split
    · exact hcopy.move rfl id le_rfl
    · exact hcopy
  next length done hpc => exact hb.move hpc id le_rfl

theorem Bounded.next (hb : Bounded h s) (input : Input) :
    Bounded h (next h language producer s input) := by
  have hbegin : ∀ length, s.pc = .idle → Bounded h { s with pc := .check length 0 } := by
    intro length hpc
    exact hb.move hpc (fun _ => Nat.zero_le _) le_rfl
  cases input with
  | read length =>
    simp only [HostileRing.next, beginRead]
    split
    next hpc =>
      split
      · exact hb
      · exact hbegin length hpc
    · exact hb
  | write length =>
    simp only [HostileRing.next, beginWrite]
    split
    next hpc =>
      split
      · exact hb
      · exact hbegin length hpc
    · exact hb
  | step word failed =>
    simp only [HostileRing.next]
    split
    · exact hb.stepWriter word failed
    · exact hb.stepReader word failed

theorem Bounded.run (hb : Bounded h s) (inputs : List Input) :
    Bounded h (inputs.foldl (HostileRing.next h language producer) s) := by
  induction inputs generalizing s with
  | nil => exact hb
  | cons input inputs ih => exact ih (hb.next input)

theorem Bounded.safe (hb : Bounded h s) : Safe h s := by
  have hposition : s.position ≤ h.total := by
    rw [UInt64.le_iff_toNat_le]
    exact (Nat.le_add_right _ _).trans hb.room
  have hreturned : (s.returned.map UInt64.toNat).sum ≤ s.position.toNat :=
    (Nat.le_add_right _ _).trans hb.returned
  exact ⟨hb.inside, UInt64.le_iff_toNat_le.mpr hb.frame, UInt64.le_iff_toNat_le.mpr hb.slot,
    hposition, UInt64.toNat_sub_of_le _ _ hposition,
    hreturned.trans (UInt64.le_iff_toNat_le.mp hposition)⟩

/-- An endpoint stays safe whatever the other side stores in the words of the ring. -/
theorem hostile_peer_safe (host : Host) (file : File) (handle : Handle)
    (hopen : openRing host file = .ok handle ∨ aiorchRingOpen host file = .ok handle)
    (language : Language) (producer : Bool) (inputs : List Input) :
    file.data.length = headerSize + handle.slots.toNat * handle.slotSize.toNat ∧
      Safe handle (run handle language producer inputs) := by
  have hmapped : handle.mapped = file.data.length := by
    obtain hopen | hopen := hopen
    · exact (openRing_eq_ok.mp hopen).2.mapped
    · exact (aiorchRingOpen_eq_ok.mp hopen).2.2.mapped
  have hlength := handle.sized.mapped_eq
  rw [hmapped] at hlength
  have hb : Bounded handle (run handle language producer inputs) := bounded_fresh.run inputs
  exact ⟨hlength, hb.safe⟩

/-- A frame is announced, and the word of the slot is another one when it is loaded again. -/
def hostileInputs : List Input :=
  [.read 2, .step 5 false, .step 4 false, .step 18446744073709551615 false, .step 0 false]

theorem hostile_peer_safe_small :
    ((run (handleOf smallRing) .go false hostileInputs).copies.map Copy.amount = [2] ∧
      (run (handleOf smallRing) .go false hostileInputs).returned = [2]) ∧
    Safe (handleOf smallRing) (run (handleOf smallRing) .go false hostileInputs) := by
  have hopen : openRing ableHost (initialized smallRing) = .ok (handleOf smallRing) :=
    openRing_eq_ok.mpr ⟨rfl, reads_initialized smallRing⟩
  exact ⟨by decide +kernel, (hostile_peer_safe _ _ _ (.inl hopen) .go false hostileInputs).2⟩

end HeteroCluster.HostileRing
