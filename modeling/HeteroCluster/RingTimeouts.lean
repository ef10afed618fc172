import HeteroCluster.RingInvariant

namespace HeteroCluster.RingTimeouts

open CircularSlots RingModel RingInvariant

/-- A read that has returned: what it copied into the buffer of its caller, and
whether it returned so or with an error. -/
structure ReadCall where
  copied : Bytes
  ok : Bool

/-- A write that has returned, with the position of the ring before and after. -/
structure WriteCall where
  buffer : Bytes
  start : Nat
  stop : Nat
  ok : Bool

/-- The ring with the calls that have returned, and where those under way began. -/
structure Calls where
  state : State
  readFrom : Nat
  reads : List ReadCall
  writeFrom : Nat
  buffer : Bytes
  writes : List WriteCall

/-- As the actions of the ring, and the ends of the two waits at a deadline. -/
inductive CallAction where
  | write (buffer : Bytes)
  | writer
  | writeTimeout
  | read (length : Nat)
  | reader
  | readTimeout

def writerIdle : WriterPC → Bool
  | .idle => true
  | _ => false

def readerIdle : ReaderPC → Bool
  | .idle => true
  | _ => false

def Calls.returnRead (c : Calls) (s : State) (ok : Bool) : Calls :=
  { c with
    state := s, readFrom := s.received.length
    reads := c.reads ++ [⟨s.received.drop c.readFrom, ok⟩] }

def Calls.returnWrite (c : Calls) (s : State) (ok : Bool) : Calls :=
  { c with
    state := s
    writes := c.writes ++ [⟨c.buffer, c.writeFrom, s.writer.position, ok⟩] }

variable (ring : Ring) (producer consumer : Language)

/-- A write that is too long is refused at once. -/
def beginWrite (c : Calls) (buffer : Bytes) : Calls :=
  if writerIdle c.state.writerPC = false then c
  else
    let c := { c with writeFrom := c.state.writer.position, buffer }
    if c.state.writer.position + buffer.length > ring.total then c.returnWrite c.state false
    else { c with state := write ring c.state buffer }

/-- The producer finds every slot full and its deadline past. What it has written
stays written. -/
def timeoutWrite (c : Calls) : Calls :=
  match c.state.writerPC with
  | .checkTail _ _ head =>
    if head - c.state.tail = ring.slots then
      c.returnWrite { c.state with
        writerPC := .idle, given := c.state.given.take c.state.writer.position } false
    else c
  | _ => c

def timeoutRead (c : Calls) : Calls :=
  match c.state.readerPC with
  | .checkTail _ _ head =>
    if head = c.state.tail then c.returnRead { c.state with readerPC := .idle } false else c
  | _ => c

def next (c : Calls) : CallAction → Calls
  | .write buffer => beginWrite ring c buffer
  | .writer =>
    let s := stepWriter ring producer c.state
    if writerIdle s.writerPC ∧ writerIdle c.state.writerPC = false then c.returnWrite s true
    else { c with state := s }
  | .writeTimeout => timeoutWrite ring c
  | .read length => { c with state := read ring c.state length }
  | .reader =>
    let s := stepReader ring consumer c.state
    if readerIdle s.readerPC ∧ readerIdle c.state.readerPC = false then c.returnRead s true
    else { c with state := s }
  | .readTimeout => timeoutRead c

def start : Calls := ⟨fresh, 0, [], 0, [], []⟩

def run (actions : List CallAction) : Calls := actions.foldl (next ring producer consumer) start

def delivered (c : Calls) : Bytes := (c.reads.filter ReadCall.ok).flatMap ReadCall.copied

def accepted (c : Calls) : Bytes := (c.writes.filter WriteCall.ok).flatMap WriteCall.buffer

/-- No byte is lost or duplicated: the successful reads give the stream, a failed
write leaves the position, and each successful write is in the stream once. -/
structure Lossless (c : Calls) : Prop where
  reads : delivered c <+: c.state.given
  writes : ∀ call ∈ c.writes, call.ok = false → call.stop = call.start
  once : c.state.writerPC = .idle → c.state.given = accepted c

/-- A call from a position does not leave the frame it begins in. -/
def InOneFrame (position length : Nat) : Prop :=
  position % ring.slotSize + min length (ring.total - position) ≤ ring.slotSize

def Fits (c : Calls) : CallAction → Prop
  | .write buffer => InOneFrame ring c.state.writer.position buffer.length
  | .read length => InOneFrame ring c.state.reader.position length
  | _ => True

def AllFit (c : Calls) : List CallAction → Prop
  | [] => True
  | a :: actions => Fits ring c a ∧ AllFit (next ring producer consumer c a) actions

section Frames

variable {ring} {begun done length position n : Nat}

/-- Where a call stands that began at a position and has done so many bytes. -/
structure Within (ring : Ring) (begun length done position : Nat) : Prop where
  position : position = begun + done
  fits : InOneFrame ring begun length

theorem Within.advance (h : Within ring begun length done position) (amount : Nat) :
    Within ring begun length (done + amount) (position + amount) :=
  ⟨by have := h.position; omega, h.fits⟩

theorem Within.done_eq_zero {e : Endpoint} (h : Within ring begun length done e.position)
    (hlength : done < length) (htotal : e.position < ring.total) (hclosed : Closed ring e n) :
    done = 0 := by
  have hboundary : e.position = n * ring.slotSize := by
    have := hclosed.2
    omega
  have hposition := h.position
  have hfits := h.fits
  unfold InOneFrame at hfits
  by_contra hdone
  have hdiv := Nat.div_add_mod begun ring.slotSize
  have hmul : (begun / ring.slotSize + 1) * ring.slotSize ≤ n * ring.slotSize := by
    apply Nat.mul_le_mul_right
    by_contra hlt
    have hle := Nat.mul_le_mul_right ring.slotSize (Nat.le_of_lt_succ (Nat.lt_of_not_le hlt))
    rw [Nat.mul_comm (begun / ring.slotSize)] at hle
    omega
  rw [Nat.succ_mul, Nat.mul_comm] at hmul
  omega

end Frames

section Reading

variable {ring consumer} {s : State} {begun : Nat}

def ReadingAt (ring : Ring) (consumer : Language) (begun position : Nat) : ReaderPC → Prop
  | .idle => begun = position
  | .check length done => Within ring begun length done position ∧ (consumer = .go → done = 0)
  | .checkTail length done _ => Within ring begun length done position ∧ done = 0
  | .loadTail length done => Within ring begun length done position ∧ (consumer = .go → done = 0)
  | .copy length done _ => Within ring begun length done position ∧ (consumer = .go → done = 0)
  | .release length done _ => Within ring begun length done position
  | .corrupt => True

theorem readingAt_afterCopy {length done position : Nat}
    (h : Within ring begun length done position) :
    readerIdle (afterCopy consumer length done) = true ∨
      ReadingAt ring consumer begun position (afterCopy consumer length done) := by
  cases consumer with
  | go => exact .inl rfl
  | c => exact .inr ⟨h, by simp⟩

theorem ReadingAt.step (h : Inv ring consumer s)
    (hr : ReadingAt ring consumer begun s.reader.position s.readerPC) :
    readerIdle (stepReader ring consumer s).readerPC = true ∨
      ReadingAt ring consumer begun (stepReader ring consumer s).reader.position
        (stepReader ring consumer s).readerPC := by
  have hat := h.reader
  unfold stepReader
  split
  · exact .inr hr
  next length done hpc =>
    rw [hpc] at hr hat
    split
    · exact .inl rfl
    next hloop =>
      split
      next hclosed =>
        refine .inr ⟨hr.1, ?_⟩
        cases consumer with
        | go => exact hr.2 rfl
        | c =>
          have hmore : done < length ∧ s.reader.position < ring.total := by
            by_contra hc
            exact hloop ⟨rfl, hc⟩
          have hat' : Closed ring s.reader s.tail := by
            refine hat.2.resolve_right ?_
            intro hreading
            have := hreading.more
            omega
          exact hr.1.done_eq_zero hmore.1 hmore.2 hat'
      · exact .inr hr
  next length done head hpc =>
    rw [hpc] at hr
    obtain ⟨hwithin, hdone⟩ := hr
    split
    · exact .inr trivial
    · split
      · exact .inr ⟨hwithin, fun _ => hdone⟩
      · exact .inr ⟨hwithin, fun _ => hdone⟩
  next length done hpc =>
    rw [hpc] at hr
    exact .inr hr
  next length done tail hpc =>
    rw [hpc] at hr
    dsimp only
    split
    · exact .inr (hr.1.advance _)
    · exact readingAt_afterCopy (hr.1.advance _)
  next length done tail hpc =>
    rw [hpc] at hr
    exact readingAt_afterCopy hr
  next hpc =>
    rw [hpc]
    exact .inr trivial

theorem received_prefix (ring : Ring) (consumer : Language) (s : State) :
    s.received <+: (stepReader ring consumer s).received := by
  unfold stepReader
  repeat' split
  all_goals first | exact List.prefix_rfl | exact List.prefix_append _ _

theorem readerIdle_iff {pc : ReaderPC} : readerIdle pc = true ↔ pc = .idle := by
  cases pc <;> simp [readerIdle]

theorem stepReader_idle (h : s.readerPC = .idle) : stepReader ring consumer s = s := by
  rw [stepReader, h]

theorem read_frame (ring : Ring) (s : State) (length : Nat) :
    (read ring s length).writer = s.writer ∧ (read ring s length).writerPC = s.writerPC ∧
      (read ring s length).given = s.given := by
  unfold RingModel.read
  repeat' split
  all_goals exact ⟨rfl, rfl, rfl⟩

theorem length_received (h : Inv ring consumer s) : s.received.length = s.reader.position := by
  rw [h.received, List.length_take]
  have := h.reader_le_writer.trans h.position_le
  omega

end Reading

section Writing

variable {ring producer consumer} {s : State} {begun : Nat} {given : Bytes}

def WritingAt (ring : Ring) (begun position : Nat) (given : Bytes) : WriterPC → Prop
  | .idle => True
  | .check buffer written => given = buffer ∧ Within ring begun buffer.length written position
  | .spin buffer written =>
    given = buffer ∧ Within ring begun buffer.length written position ∧ written = 0
  | .checkTail buffer written _ =>
    given = buffer ∧ Within ring begun buffer.length written position ∧ written = 0
  | .loadHead buffer written => given = buffer ∧ Within ring begun buffer.length written position
  | .copy buffer written _ => given = buffer ∧ Within ring begun buffer.length written position
  | .publish buffer written _ => given = buffer ∧ Within ring begun buffer.length written position
  | .corrupt => True

theorem WritingAt.step (h : Inv ring consumer s)
    (hw : WritingAt ring begun s.writer.position given s.writerPC) :
    WritingAt ring begun (stepWriter ring producer s).writer.position given
      (stepWriter ring producer s).writerPC := by
  have hat := h.writer
  unfold stepWriter
  split
  · exact hw
  next buffer written hpc =>
    rw [hpc] at hw hat
    obtain ⟨rfl, hwithin⟩ := hw
    obtain ⟨hrest, hat⟩ := hat
    split
    next hlt =>
      split
      next hfull =>
        refine ⟨rfl, hwithin, ?_⟩
        have hclosed : Closed ring s.writer s.head := by
          refine hat.resolve_right ?_
          intro hwriting
          have := hwriting.more
          omega
        have hlength := congrArg List.length hrest
        rw [List.length_drop, List.length_drop] at hlength
        have hgiven := h.given_le
        exact hwithin.done_eq_zero hlt (by omega) hclosed
      · exact ⟨rfl, hwithin⟩
    · trivial
  next buffer written hpc =>
    rw [hpc] at hw
    split
    · exact hw
    · exact ⟨hw.1, hw.2.1⟩
  next buffer written head hpc =>
    rw [hpc] at hw
    split
    · trivial
    · split
      · cases producer with
        | go => exact hw
        | c => exact ⟨hw.1, hw.2.1⟩
      · exact ⟨hw.1, hw.2.1⟩
  next buffer written hpc =>
    rw [hpc] at hw
    exact hw
  next buffer written head hpc =>
    rw [hpc] at hw
    dsimp only
    split
    · exact ⟨hw.1, hw.2.advance _⟩
    · exact ⟨hw.1, hw.2.advance _⟩
  next buffer written head hpc =>
    rw [hpc] at hw
    exact hw
  next hpc =>
    rw [hpc]
    trivial

theorem writerIdle_iff {pc : WriterPC} : writerIdle pc = true ↔ pc = .idle := by
  cases pc <;> simp [writerIdle]

theorem stepWriter_idle (h : s.writerPC = .idle) : stepWriter ring producer s = s := by
  rw [stepWriter, h]

theorem write_frame (ring : Ring) (s : State) (buffer : Bytes) :
    (write ring s buffer).reader = s.reader ∧ (write ring s buffer).readerPC = s.readerPC ∧
      (write ring s buffer).received = s.received := by
  unfold write
  repeat' split
  all_goals exact ⟨rfl, rfl, rfl⟩

theorem stepWriter_frame (ring : Ring) (producer : Language) (s : State) :
    (stepWriter ring producer s).reader = s.reader ∧
      (stepWriter ring producer s).readerPC = s.readerPC ∧
      (stepWriter ring producer s).received = s.received ∧
      (stepWriter ring producer s).given = s.given := by
  unfold stepWriter
  repeat' split
  all_goals exact ⟨rfl, rfl, rfl, rfl⟩

theorem stepReader_frame (ring : Ring) (consumer : Language) (s : State) :
    (stepReader ring consumer s).writer = s.writer ∧
      (stepReader ring consumer s).writerPC = s.writerPC ∧
      (stepReader ring consumer s).given = s.given := by
  unfold stepReader
  repeat' split
  all_goals exact ⟨rfl, rfl, rfl⟩

theorem inv_timeoutWrite {buffer : Bytes} {written head : Nat} (h : Inv ring consumer s)
    (hpc : s.writerPC = .checkTail buffer written head) : Inv ring consumer
      { s with writerPC := .idle, given := s.given.take s.writer.position } := by
  have hw := h.writer
  rw [hpc] at hw
  obtain ⟨-, -, hclosed, -⟩ := hw
  have hle := h.position_le
  have hgiven := h.given_le
  have hwritten := h.writer.le_position
  have hlength : (s.given.take s.writer.position).length = s.writer.position := by
    rw [List.length_take]
    omega
  have hholds : ∀ {address first count : Nat}, first + count ≤ s.writer.position →
      Holds s.mem address s.given first count →
      Holds s.mem address (s.given.take s.writer.position) first count := by
    intro address first count hcount hold i hi
    rw [List.getElem?_take_of_lt (by omega)]
    exact hold i hi
  refine ⟨h.tail_le, h.head_le, hlength.ge, (hlength.le.trans hle).trans hgiven, ⟨?_, .inl hclosed⟩,
    h.reader, ?_, ?_, ?_, h.ended⟩
  · exact List.drop_eq_nil_iff.mpr hlength.le
  · intro n ht hn
    by_cases hfull : n * ring.slotSize ≤ ring.total
    · refine hholds ?_ (h.published n ht hn)
      have hmul : (n + 1) * ring.slotSize ≤ s.head * ring.slotSize :=
        Nat.mul_le_mul_right ring.slotSize hn
      rw [Nat.succ_mul] at hmul
      omega
    · intro i hi
      omega
  · dsimp only
    by_cases hopen : s.head * ring.slotSize ≤ s.writer.position
    · exact hholds (by omega) h.opened
    · intro i hi
      omega
  · rw [h.received, List.take_take, min_eq_left h.reader_le_writer]

theorem inv_timeoutRead {length done head : Nat} (h : Inv ring consumer s)
    (hpc : s.readerPC = .checkTail length done head) :
    Inv ring consumer { s with readerPC := .idle } := by
  have hr := h.reader
  rw [hpc] at hr
  exact h.readerPC (.inl hr.2.1)

end Writing

section Soundness

variable {ring producer consumer} {c : Calls} {s : State} {ok : Bool}

theorem inv_next (h : Inv ring consumer c.state) (a : CallAction) :
    Inv ring consumer (next ring producer consumer c a).state := by
  cases a with
  | write buffer =>
    simp only [next, beginWrite]
    split
    · exact h
    · split
      · exact h
      · exact h.write buffer
  | writer =>
    simp only [next]
    split
    · exact h.stepWriter
    · exact h.stepWriter
  | writeTimeout =>
    simp only [next, timeoutWrite]
    split
    next hpc =>
      split
      · exact inv_timeoutWrite h hpc
      · exact h
    · exact h
  | read length => exact h.read length
  | reader =>
    simp only [next]
    split
    · exact h.stepReader
    · exact h.stepReader
  | readTimeout =>
    simp only [next, timeoutRead]
    split
    next hpc =>
      split
      · exact inv_timeoutRead h hpc
      · exact h
    · exact h

/-- The reads that have returned brought what was received before the one under
way, and those that failed brought nothing. -/
structure ReadSound (ring : Ring) (consumer : Language) (c : Calls) : Prop where
  readFrom_le : c.readFrom ≤ c.state.received.length
  copied : c.state.received.take c.readFrom = c.reads.flatMap ReadCall.copied
  failed : ∀ call ∈ c.reads, call.ok = false → call.copied = []
  reading : ReadingAt ring consumer c.readFrom c.state.reader.position c.state.readerPC

/-- The stream is what the writes that succeeded gave, with the buffer of the one
under way, and those that failed left the position. -/
structure WriteSound (ring : Ring) (c : Calls) : Prop where
  failed : ∀ call ∈ c.writes, call.ok = false → call.stop = call.start
  writing : WritingAt ring c.writeFrom c.state.writer.position c.buffer c.state.writerPC
  idle : writerIdle c.state.writerPC = true → c.state.given = accepted c
  busy : writerIdle c.state.writerPC = false →
    c.state.given = accepted c ++ c.buffer ∧ c.writeFrom = (accepted c).length

theorem ReadSound.frame {c' : Calls} (h : ReadSound ring consumer c)
    (hfrom : c'.readFrom = c.readFrom) (hreads : c'.reads = c.reads)
    (hreader : c'.state.reader = c.state.reader) (hpc : c'.state.readerPC = c.state.readerPC)
    (hreceived : c'.state.received = c.state.received) : ReadSound ring consumer c' := by
  obtain ⟨hle, hcopied, hfailed, hreading⟩ := h
  rw [← hfrom, ← hreceived] at hle hcopied
  rw [← hreads] at hcopied hfailed
  rw [← hfrom, ← hreader, ← hpc] at hreading
  exact ⟨hle, hcopied, hfailed, hreading⟩

theorem WriteSound.frame {c' : Calls} (h : WriteSound ring c) (hfrom : c'.writeFrom = c.writeFrom)
    (hbuffer : c'.buffer = c.buffer) (hwrites : c'.writes = c.writes)
    (hwriter : c'.state.writer = c.state.writer) (hpc : c'.state.writerPC = c.state.writerPC)
    (hgiven : c'.state.given = c.state.given) : WriteSound ring c' := by
  obtain ⟨hfailed, hwriting, hidle, hbusy⟩ := h
  have haccepted : accepted c' = accepted c := by rw [accepted, hwrites, accepted]
  rw [← hwrites] at hfailed
  rw [← hfrom, ← hbuffer, ← hwriter, ← hpc] at hwriting
  rw [← hpc, ← hgiven, ← haccepted] at hidle hbusy
  rw [← hfrom, ← hbuffer] at hbusy
  exact ⟨hfailed, hwriting, hidle, hbusy⟩

theorem ReadSound.returned (h : ReadSound ring consumer c) (hi : Inv ring consumer s)
    (hpc : s.readerPC = .idle) (hstart : c.state.received <+: s.received)
    (hok : ok = false → s.received.length ≤ c.readFrom) :
    ReadSound ring consumer (c.returnRead s ok) := by
  refine ⟨le_rfl, ?_, ?_, ?_⟩
  · have htake : s.received.take c.readFrom = c.state.received.take c.readFrom := by
      obtain ⟨more, hmore⟩ := hstart
      rw [← hmore, List.take_append_of_le_length h.readFrom_le]
    calc s.received.take s.received.length
        = s.received := List.take_length
      _ = s.received.take c.readFrom ++ s.received.drop c.readFrom :=
          (List.take_append_drop _ _).symm
      _ = (c.returnRead s ok).reads.flatMap ReadCall.copied := by
          rw [htake, h.copied, Calls.returnRead, List.flatMap_append, List.flatMap_singleton]
  · intro call hcall hfailed
    rcases List.mem_append.mp hcall with hold | hnew
    · exact h.failed call hold hfailed
    · rw [List.mem_singleton.mp hnew] at hfailed ⊢
      exact List.drop_eq_nil_iff.mpr (hok hfailed)
  · rw [Calls.returnRead, hpc]
    exact length_received hi

theorem accepted_returnWrite :
    accepted (c.returnWrite s ok) = accepted c ++ if ok then c.buffer else [] := by
  cases ok <;> simp [accepted, Calls.returnWrite]

theorem writeSound_returned (h : ∀ call ∈ c.writes, call.ok = false → call.stop = call.start)
    (hpc : s.writerPC = .idle) (hgiven : s.given = accepted c ++ if ok then c.buffer else [])
    (hok : ok = false → s.writer.position = c.writeFrom) :
    WriteSound ring (c.returnWrite s ok) := by
  refine ⟨?_, ?_, ?_, ?_⟩
  · intro call hcall hfailed
    rcases List.mem_append.mp hcall with hold | hnew
    · exact h call hold hfailed
    · rw [List.mem_singleton.mp hnew] at hfailed ⊢
      exact hok hfailed
  · rw [Calls.returnWrite, hpc]
    trivial
  · intro _
    rw [accepted_returnWrite]
    exact hgiven
  · intro hbusy
    rw [Calls.returnWrite, hpc] at hbusy
    cases hbusy

theorem ReadSound.read (h : ReadSound ring consumer c) {length : Nat}
    (hf : InOneFrame ring c.state.reader.position length) :
    ReadSound ring consumer { c with state := RingModel.read ring c.state length } := by
  unfold RingModel.read
  split
  next hpc =>
    split
    · exact h.frame rfl rfl rfl rfl rfl
    · refine ⟨h.readFrom_le, h.copied, h.failed, ?_, fun _ => rfl⟩
      have hfrom := h.reading
      rw [hpc] at hfrom
      exact ⟨hfrom.symm, hfrom ▸ hf⟩
  · exact h

theorem ReadSound.reader (h : ReadSound ring consumer c) (hi : Inv ring consumer c.state) :
    ReadSound ring consumer (next ring producer consumer c .reader) := by
  have hstart := received_prefix ring consumer c.state
  simp only [RingTimeouts.next]
  split
  next hreturn =>
    exact h.returned hi.stepReader (readerIdle_iff.mp hreturn.1) hstart (by simp)
  next hgoing =>
    rcases h.reading.step hi with hidle | hreading
    · have hpc : c.state.readerPC = .idle := by
        by_contra hbusy
        exact hgoing ⟨hidle, Bool.eq_false_iff.mpr (mt readerIdle_iff.mp hbusy)⟩
      rw [stepReader_idle hpc]
      exact h
    · obtain ⟨more, hmore⟩ := hstart
      refine ⟨h.readFrom_le.trans ?_, ?_, h.failed, hreading⟩
      · rw [← hmore, List.length_append]
        omega
      · rw [← h.copied, ← hmore, List.take_append_of_le_length h.readFrom_le]

theorem ReadSound.timeoutRead (h : ReadSound ring consumer c) (hi : Inv ring consumer c.state) :
    ReadSound ring consumer (timeoutRead c) := by
  unfold RingTimeouts.timeoutRead
  split
  next hpc =>
    split
    · refine h.returned (inv_timeoutRead hi hpc) rfl List.prefix_rfl fun _ => ?_
      have hreading := h.reading
      rw [hpc] at hreading
      have hposition := hreading.1.position
      have hdone := hreading.2
      have hlength := length_received hi
      dsimp only
      omega
    · exact h
  · exact h

theorem ReadSound.next (h : ReadSound ring consumer c) (hi : Inv ring consumer c.state)
    (a : CallAction) (hf : Fits ring c a) :
    ReadSound ring consumer (next ring producer consumer c a) := by
  cases a with
  | write buffer =>
    obtain ⟨hreader, hpc, hreceived⟩ := write_frame ring c.state buffer
    simp only [RingTimeouts.next, beginWrite]
    split
    · exact h
    · split
      · exact h.frame rfl rfl rfl rfl rfl
      · exact h.frame rfl rfl hreader hpc hreceived
  | writer =>
    obtain ⟨hreader, hpc, hreceived, -⟩ := stepWriter_frame ring producer c.state
    simp only [RingTimeouts.next]
    split
    · exact h.frame rfl rfl hreader hpc hreceived
    · exact h.frame rfl rfl hreader hpc hreceived
  | writeTimeout =>
    simp only [RingTimeouts.next, timeoutWrite]
    split
    · split
      · exact h.frame rfl rfl rfl rfl rfl
      · exact h
    · exact h
  | read length => exact h.read hf
  | reader => exact h.reader hi
  | readTimeout => exact h.timeoutRead hi

theorem WriteSound.beginWrite (h : WriteSound ring c) (hi : Inv ring consumer c.state)
    {buffer : Bytes} (hf : InOneFrame ring c.state.writer.position buffer.length) :
    WriteSound ring (beginWrite ring c buffer) := by
  unfold RingTimeouts.beginWrite
  split
  · exact h
  next hidle =>
    rw [Bool.not_eq_false, writerIdle_iff] at hidle
    have hgiven := h.idle (writerIdle_iff.mpr hidle)
    dsimp only
    split
    · exact writeSound_returned h.failed hidle (hgiven.trans (List.append_nil _).symm) fun _ => rfl
    next hroom =>
      have hwriter := hi.writer
      rw [hidle] at hwriter
      have hend := List.drop_eq_nil_iff.mp hwriter.1
      have hlength : c.state.writer.position = (accepted c).length := by
        rw [← hgiven]
        exact Nat.le_antisymm hi.position_le hend
      rw [RingModel.write, hidle]
      simp only [if_neg hroom]
      refine ⟨h.failed, ⟨rfl, rfl, hf⟩, by simp [writerIdle], fun _ => ⟨?_, hlength⟩⟩
      exact congrArg (· ++ buffer) hgiven

theorem WriteSound.writer (h : WriteSound ring c) (hi : Inv ring consumer c.state) :
    WriteSound ring (next ring producer consumer c .writer) := by
  obtain ⟨-, -, -, hgiven⟩ := stepWriter_frame ring producer c.state
  simp only [RingTimeouts.next]
  split
  next hreturn =>
    refine writeSound_returned h.failed (writerIdle_iff.mp hreturn.1) ?_ (by simp)
    rw [hgiven, (h.busy hreturn.2).1, if_pos rfl]
  next hgoing =>
    by_cases hpc : c.state.writerPC = .idle
    · rw [stepWriter_idle hpc]
      exact h
    · have hbusy : writerIdle c.state.writerPC = false :=
        Bool.eq_false_iff.mpr (mt writerIdle_iff.mp hpc)
      refine ⟨h.failed, h.writing.step hi, fun hidle => absurd ⟨hidle, hbusy⟩ hgoing, ?_⟩
      intro _
      rw [hgiven]
      exact h.busy hbusy

theorem WriteSound.timeoutWrite (h : WriteSound ring c) : WriteSound ring (timeoutWrite ring c) := by
  unfold RingTimeouts.timeoutWrite
  split
  next hpc =>
    split
    · have hwriting := h.writing
      rw [hpc] at hwriting
      obtain ⟨-, hwithin, hwritten⟩ := hwriting
      obtain ⟨hgiven, hfrom⟩ := h.busy (by rw [hpc]; rfl)
      have hposition : c.state.writer.position = c.writeFrom := by
        have := hwithin.position
        omega
      refine writeSound_returned h.failed rfl ?_ fun _ => hposition
      dsimp only
      rw [hposition, hfrom, hgiven, List.take_left]
      simp
    · exact h
  · exact h

theorem WriteSound.next (h : WriteSound ring c) (hi : Inv ring consumer c.state) (a : CallAction)
    (hf : Fits ring c a) : WriteSound ring (next ring producer consumer c a) := by
  cases a with
  | write buffer => exact h.beginWrite hi hf
  | writer => exact h.writer hi
  | writeTimeout => exact h.timeoutWrite
  | read length =>
    obtain ⟨hwriter, hpc, hgiven⟩ := read_frame ring c.state length
    exact h.frame rfl rfl rfl hwriter hpc hgiven
  | reader =>
    obtain ⟨hwriter, hpc, hgiven⟩ := stepReader_frame ring consumer c.state
    simp only [RingTimeouts.next]
    split
    · exact h.frame rfl rfl rfl hwriter hpc hgiven
    · exact h.frame rfl rfl rfl hwriter hpc hgiven
  | readTimeout =>
    simp only [RingTimeouts.next, timeoutRead]
    split
    · split
      · exact h.frame rfl rfl rfl rfl rfl rfl
      · exact h
    · exact h

/-- What every run keeps whose calls stay in one frame each. -/
structure Sound (ring : Ring) (consumer : Language) (c : Calls) : Prop where
  inv : Inv ring consumer c.state
  reads : ReadSound ring consumer c
  writes : WriteSound ring c

theorem sound_start : Sound ring consumer start where
  inv := fresh_inv
  reads := ⟨le_rfl, rfl, by simp [start], rfl⟩
  writes := ⟨by simp [start], trivial, fun _ => rfl, by simp [start, fresh, writerIdle]⟩

theorem Sound.run (h : Sound ring consumer c) {actions : List CallAction}
    (hf : AllFit ring producer consumer c actions) :
    Sound ring consumer (actions.foldl (RingTimeouts.next ring producer consumer) c) := by
  induction actions generalizing c with
  | nil => exact h
  | cons a actions ih =>
    refine ih ⟨inv_next h.inv a, h.reads.next h.inv a hf.1, h.writes.next h.inv a hf.1⟩ hf.2

theorem flatMap_filter_ok {calls : List ReadCall}
    (h : ∀ call ∈ calls, call.ok = false → call.copied = []) :
    (calls.filter ReadCall.ok).flatMap ReadCall.copied = calls.flatMap ReadCall.copied := by
  induction calls with
  | nil => rfl
  | cons call calls ih =>
    have ih := ih (List.forall_mem_of_forall_mem_cons h)
    rw [List.filter_cons, List.flatMap_cons, ← ih]
    split
    · rw [List.flatMap_cons]
    next hok => rw [h call List.mem_cons_self (Bool.eq_false_iff.mpr hok), List.nil_append]

theorem Sound.lossless (h : Sound ring consumer c) : Lossless c where
  reads := by
    rw [delivered, flatMap_filter_ok h.reads.failed, ← h.reads.copied, h.inv.received]
    exact (List.take_prefix _ _).trans (List.take_prefix _ _)
  writes := h.writes.failed
  once := fun hpc => h.writes.idle (writerIdle_iff.mpr hpc)

end Soundness

/-- No byte is lost or duplicated when a wait ends at its deadline, as long as
no call leaves the frame it begins in. -/
theorem lossless_of_allFit (ring : Ring) (producer consumer : Language)
    (actions : List CallAction) (hf : AllFit ring producer consumer start actions) :
    Lossless (run ring producer consumer actions) :=
  (sound_start.run hf).lossless

end HeteroCluster.RingTimeouts
