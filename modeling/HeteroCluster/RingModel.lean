import HeteroCluster.CircularSlots

namespace HeteroCluster.RingModel

open CircularSlots

abbrev Bytes := List UInt8

def headerSize : Nat := 4096
def maxSlotSize : Nat := 16 <<< 20
def minSlotSize : Nat := 1 <<< 20
def maxStreamLength : Nat := 1 <<< 40

/-- The parameters of a ring file, with the bounds that `Initialize`, `Open`
and `aiorch_ring_open` all check. -/
structure Ring where
  slots : Nat
  slotSize : Nat
  total : Nat
  slots_ge : 2 ≤ slots
  slots_le : slots ≤ 64
  slotSize_ge : minSlotSize ≤ slotSize
  slotSize_le : slotSize ≤ maxSlotSize
  total_pos : 0 < total
  total_le : total ≤ maxStreamLength

def initializeRing (slots : Int) (slotSize total : Nat) : Except String Ring :=
  if h : slots < 2 ∨ slots > 64 ∨ slotSize < minSlotSize ∨ slotSize > maxSlotSize ∨ total = 0 ∨
      total > maxStreamLength then .error "invalid ring bounds"
  else if headerSize + slots.toNat * slotSize > 2 ^ 63 - 1 then .error "ring mapping is too large"
  else .ok
    { slots := slots.toNat, slotSize, total
      slots_ge := by omega
      slots_le := by omega
      slotSize_ge := by omega
      slotSize_le := by omega
      total_pos := by omega
      total_le := by omega }

inductive Language where
  | go
  | c
  deriving DecidableEq

/-- What an endpoint keeps to itself between calls. -/
structure Endpoint where
  position : Nat
  frameBytes : Nat
  framePos : Nat

/-- Where a producer stands in a write: before its loop condition, after a wait,
after each load of a shared counter, and before the store that publishes a frame. -/
inductive WriterPC where
  | idle
  | check (buffer : Bytes) (written : Nat)
  | spin (buffer : Bytes) (written : Nat)
  | checkTail (buffer : Bytes) (written head : Nat)
  | loadHead (buffer : Bytes) (written : Nat)
  | copy (buffer : Bytes) (written head : Nat)
  | publish (buffer : Bytes) (written head : Nat)
  | corrupt

/-- Where a consumer stands in a read into a buffer of some length. -/
inductive ReaderPC where
  | idle
  | check (length done : Nat)
  | checkTail (length done head : Nat)
  | loadTail (length done : Nat)
  | copy (length done tail : Nat)
  | release (length done tail : Nat)
  | corrupt

/-- The shared file and both endpoints, with the bytes of all accepted writes,
the bytes read, and whether the consumer reported the end of the stream. -/
structure State where
  head : Nat
  tail : Nat
  mem : Memory UInt8
  writer : Endpoint
  writerPC : WriterPC
  reader : Endpoint
  readerPC : ReaderPC
  given : Bytes
  received : Bytes
  ended : Bool

variable (ring : Ring) (producer consumer : Language)

def fresh : State := ⟨0, 0, fun _ => 0, ⟨0, 0, 0⟩, .idle, ⟨0, 0, 0⟩, .idle, [], [], false⟩

/-- The address of a byte of the frame with a given number. -/
def Ring.start (frame framePos : Nat) : Nat :=
  headerSize + (frame % ring.slots) * ring.slotSize + framePos

def Ring.openFrame (e : Endpoint) : Endpoint :=
  { e with frameBytes := min ring.slotSize (ring.total - e.position), framePos := 0 }

def Endpoint.advance (e : Endpoint) (amount : Nat) : Endpoint :=
  { e with framePos := e.framePos + amount, position := e.position + amount }

/-- A call of `Write`. Buffers are shorter than 2^63 bytes and positions at most
2^40, so the sum is exact. -/
def write (s : State) (buffer : Bytes) : State :=
  match s.writerPC with
  | .idle =>
    if s.writer.position + buffer.length > ring.total then s
    else { s with writerPC := .check buffer 0, given := s.given ++ buffer }
  | _ => s

/-- After a wait Go looks at the counters again, and C starts its loop over. -/
def afterWait (buffer : Bytes) (written : Nat) : WriterPC :=
  match producer with
  | .go => .spin buffer written
  | .c => .check buffer written

def stepWriter (s : State) : State :=
  match s.writerPC with
  | .idle => s
  | .check buffer written =>
    if written < buffer.length then
      if s.writer.framePos = s.writer.frameBytes then
        { s with writerPC := .checkTail buffer written s.head }
      else { s with writerPC := .copy buffer written s.head }
    else { s with writerPC := .idle }
  | .spin buffer written =>
    if s.writer.framePos = s.writer.frameBytes then
      { s with writerPC := .checkTail buffer written s.head }
    else { s with writerPC := .copy buffer written s.head }
  | .checkTail buffer written head =>
    if head < s.tail ∨ head - s.tail > ring.slots then { s with writerPC := .corrupt }
    else if head - s.tail = ring.slots then { s with writerPC := afterWait producer buffer written }
    else { s with writer := ring.openFrame s.writer, writerPC := .loadHead buffer written }
  | .loadHead buffer written => { s with writerPC := .copy buffer written s.head }
  | .copy buffer written head =>
    let amount := min (buffer.length - written) (s.writer.frameBytes - s.writer.framePos)
    let writer := s.writer.advance amount
    { s with
      mem := store s.mem (ring.start head s.writer.framePos) ((buffer.drop written).take amount)
      writer
      writerPC := if writer.framePos = writer.frameBytes then .publish buffer (written + amount) head
        else .check buffer (written + amount) }
  | .publish buffer written head => { s with head := head + 1, writerPC := .check buffer written }
  | .corrupt => s

/-- A call of `Read`. At the end of the stream Go returns `io.EOF` and C zero. -/
def read (s : State) (length : Nat) : State :=
  match s.readerPC with
  | .idle =>
    if s.reader.position = ring.total then { s with ended := true }
    else { s with readerPC := .check length 0 }
  | _ => s

/-- After a frame part Go returns and C tries to fill its buffer. -/
def afterCopy (length done : Nat) : ReaderPC :=
  match consumer with
  | .go => .idle
  | .c => .check length done

def stepReader (s : State) : State :=
  match s.readerPC with
  | .idle => s
  | .check length done =>
    if consumer = .c ∧ ¬ (done < length ∧ s.reader.position < ring.total) then
      { s with readerPC := .idle }
    else if s.reader.framePos = s.reader.frameBytes then
      { s with readerPC := .checkTail length done s.head }
    else { s with readerPC := .copy length done s.tail }
  | .checkTail length done head =>
    if head < s.tail ∨ head - s.tail > ring.slots then { s with readerPC := .corrupt }
    else if head = s.tail then { s with readerPC := .check length done }
    else { s with reader := ring.openFrame s.reader, readerPC := .loadTail length done }
  | .loadTail length done => { s with readerPC := .copy length done s.tail }
  | .copy length done tail =>
    let amount := min (length - done) (s.reader.frameBytes - s.reader.framePos)
    let reader := s.reader.advance amount
    { s with
      received := s.received ++ load s.mem (ring.start tail s.reader.framePos) amount
      reader
      readerPC := if reader.framePos = reader.frameBytes then .release length (done + amount) tail
        else afterCopy consumer length (done + amount) }
  | .release length done tail =>
    { s with tail := tail + 1, readerPC := afterCopy consumer length done }
  | .corrupt => s

/-- What can happen next: a caller enters an idle endpoint, or an endpoint
makes one atomic step. -/
inductive Action where
  | write (buffer : Bytes)
  | writer
  | read (length : Nat)
  | reader

def step (s : State) : Action → State
  | .write buffer => write ring s buffer
  | .writer => stepWriter ring producer s
  | .read length => read ring s length
  | .reader => stepReader ring consumer s

def run (actions : List Action) : State := actions.foldl (step ring producer consumer) fresh

end HeteroCluster.RingModel
