import HeteroCluster.RingCorrect
import HeteroCluster.RingTimeouts

namespace HeteroCluster.RingLosses

open CircularSlots RingInvariant RingTimeouts
open RingModel hiding run
open RingCorrect (smallRing)

section Runs

variable {ring : Ring} {producer consumer : Language} {c : Calls}

/-- A producer that is to write at least a frame fills a free slot in five steps. -/
theorem foldl_writer_frame (data : Bytes) (written frame : Nat)
    (hpc : c.state.writerPC = .check data written)
    (hclosed : c.state.writer.framePos = c.state.writer.frameBytes)
    (hle : c.state.tail ≤ c.state.head) (hfree : c.state.head - c.state.tail < ring.slots)
    (hframe : frame = min ring.slotSize (ring.total - c.state.writer.position))
    (hpos : 0 < frame) (hdata : written + frame ≤ data.length) :
    (List.replicate 5 CallAction.writer).foldl (next ring producer consumer) c =
      { c with state :=
        { c.state with
          head := c.state.head + 1
          mem := store c.state.mem (ring.start c.state.head 0) ((data.drop written).take frame)
          writer := ⟨c.state.writer.position + frame, frame, frame⟩
          writerPC := .check data (written + frame) } } := by
  have hamount : min (data.length - written) frame = frame := by omega
  have hcounters : ¬ (c.state.head < c.state.tail ∨ ring.slots < c.state.head - c.state.tail) := by
    omega
  have hmore : written < data.length := by omega
  simp [List.replicate, next, stepWriter, writerIdle, hpc, hclosed, hcounters, hfree.ne, hmore,
    Ring.openFrame, Endpoint.advance, ← hframe, hamount]

/-- A C consumer that wants at least a frame takes one, and looks for more. -/
theorem foldl_reader_frame (length done frame : Nat)
    (hpc : c.state.readerPC = .check length done)
    (hclosed : c.state.reader.framePos = c.state.reader.frameBytes)
    (hlt : c.state.tail < c.state.head) (hle : c.state.head - c.state.tail ≤ ring.slots)
    (hframe : frame = min ring.slotSize (ring.total - c.state.reader.position))
    (hpos : 0 < frame) (hlength : done + frame ≤ length) :
    (List.replicate 5 CallAction.reader).foldl (next ring producer .c) c =
      { c with state :=
        { c.state with
          tail := c.state.tail + 1
          received := c.state.received ++ load c.state.mem (ring.start c.state.tail 0) frame
          reader := ⟨c.state.reader.position + frame, frame, frame⟩
          readerPC := .check length (done + frame) } } := by
  have hamount : min (length - done) frame = frame := by omega
  have hcounters : ¬ (c.state.head < c.state.tail ∨ ring.slots < c.state.head - c.state.tail) := by
    omega
  have hmore : done < length ∧ c.state.reader.position < ring.total := by omega
  simp [List.replicate, next, stepReader, readerIdle, afterCopy, hpc, hclosed, hcounters, hlt.ne',
    hmore, Ring.openFrame, Endpoint.advance, ← hframe, hamount]

theorem next_write (data : Bytes) (hpc : c.state.writerPC = .idle)
    (hroom : c.state.writer.position + data.length ≤ ring.total) :
    next ring producer consumer c (.write data) =
      { c with
        state := { c.state with writerPC := .check data 0, given := c.state.given ++ data }
        writeFrom := c.state.writer.position
        buffer := data } := by
  simp only [next, beginWrite, hpc, writerIdle, write, if_neg (Nat.not_lt.mpr hroom)]
  rfl

theorem next_read (length : Nat) (hpc : c.state.readerPC = .idle)
    (hmore : c.state.reader.position ≠ ring.total) :
    next ring producer consumer c (.read length) =
      { c with state := { c.state with readerPC := .check length 0 } } := by
  simp only [next, RingModel.read, hpc, if_neg hmore]

theorem foldl_write_frame {data : Bytes} (hpc : c.state.writerPC = .idle)
    (hclosed : c.state.writer.framePos = c.state.writer.frameBytes)
    (hle : c.state.tail ≤ c.state.head) (hfree : c.state.head - c.state.tail < ring.slots)
    (hframe : data.length = min ring.slotSize (ring.total - c.state.writer.position))
    (hpos : 0 < data.length) :
    (.write data :: List.replicate 6 CallAction.writer).foldl (next ring producer consumer) c =
      { c with
        state :=
          { c.state with
            head := c.state.head + 1
            mem := store c.state.mem (ring.start c.state.head 0) data
            writer := ⟨c.state.writer.position + data.length, data.length, data.length⟩
            given := c.state.given ++ data }
        writeFrom := c.state.writer.position
        buffer := data
        writes := c.writes ++
          [⟨data, c.state.writer.position, c.state.writer.position + data.length, true⟩] } := by
  rw [List.foldl_cons, next_write data hpc (by omega), List.replicate_succ', List.foldl_append,
    foldl_writer_frame data 0 data.length rfl]
  · simp [next, stepWriter, writerIdle, Calls.returnWrite, hpc]
  · exact hclosed
  · exact hle
  · exact hfree
  · exact hframe
  · exact hpos
  · exact (Nat.zero_add _).le

theorem foldl_read_frame {length : Nat} (frame : Nat) (hpc : c.state.readerPC = .idle)
    (hclosed : c.state.reader.framePos = c.state.reader.frameBytes)
    (hlt : c.state.tail < c.state.head) (hle : c.state.head - c.state.tail ≤ ring.slots)
    (hframe : frame = min ring.slotSize (ring.total - c.state.reader.position))
    (hpos : 0 < frame) (hlength : frame ≤ length) :
    (.read length :: List.replicate 5 CallAction.reader).foldl (next ring producer .c) c =
      { c with state :=
        { c.state with
          tail := c.state.tail + 1
          received := c.state.received ++ load c.state.mem (ring.start c.state.tail 0) frame
          reader := ⟨c.state.reader.position + frame, frame, frame⟩
          readerPC := .check length frame } } := by
  rw [List.foldl_cons, next_read length hpc (by omega), foldl_reader_frame length 0 frame]
  · simp
  · rfl
  · exact hclosed
  · exact hlt
  · exact hle
  · exact hframe
  · exact hpos
  · exact (Nat.zero_add _).le.trans hlength

theorem next_reader_return (length done : Nat) (hpc : c.state.readerPC = .check length done)
    (hend : ¬ (done < length ∧ c.state.reader.position < ring.total)) :
    next ring producer .c c .reader = c.returnRead { c.state with readerPC := .idle } true := by
  have hstep : stepReader ring .c c.state = { c.state with readerPC := .idle } := by
    rw [stepReader, hpc]
    exact if_pos ⟨rfl, hend⟩
  simp [next, hstep, hpc, readerIdle]

/-- A read that has copied something finds no further frame until its deadline. -/
theorem foldl_reader_timeout (length done : Nat) (hpc : c.state.readerPC = .check length done)
    (hmore : done < length ∧ c.state.reader.position < ring.total)
    (hclosed : c.state.reader.framePos = c.state.reader.frameBytes)
    (hempty : c.state.head = c.state.tail) :
    [CallAction.reader, .readTimeout].foldl (next ring producer .c) c =
      c.returnRead { c.state with readerPC := .idle } false := by
  have hstep : stepReader ring .c c.state =
      { c.state with readerPC := .checkTail length done c.state.head } := by
    simp only [stepReader, hpc, hclosed, hmore, and_self, not_true, and_false, if_false, if_true]
  have hnext : next ring producer .c c .reader =
      { c with state := { c.state with readerPC := .checkTail length done c.state.head } } := by
    simp [next, hstep, hpc, readerIdle]
  rw [List.foldl_cons, hnext]
  simp [next, timeoutRead, hempty, Calls.returnRead]

theorem foldl_writer_timeout (data : Bytes) (written : Nat)
    (hpc : c.state.writerPC = .check data written) (hmore : written < data.length)
    (hclosed : c.state.writer.framePos = c.state.writer.frameBytes)
    (hfull : c.state.head - c.state.tail = ring.slots) :
    [CallAction.writer, .writeTimeout].foldl (next ring producer consumer) c =
      c.returnWrite { c.state with
        writerPC := .idle, given := c.state.given.take c.state.writer.position } false := by
  have hstep : stepWriter ring producer c.state =
      { c.state with writerPC := .checkTail data written c.state.head } := by
    simp only [stepWriter, hpc, hclosed, hmore, if_true]
  have hnext : next ring producer consumer c .writer =
      { c with state := { c.state with writerPC := .checkTail data written c.state.head } } := by
    simp [next, hstep, hpc, writerIdle]
  rw [List.foldl_cons, hnext]
  simp [next, timeoutWrite, hfull, Calls.returnWrite]

/-- Two frames are written. The first is read by a call that waits for more until
its deadline, the second by a call that returns. -/
def lossyRun (ring : Ring) : List CallAction :=
  (.write (List.replicate ring.slotSize 0) :: List.replicate 6 .writer) ++
    ((.read (ring.slotSize + 1) :: List.replicate 5 .reader) ++
    ([.reader, .readTimeout] ++
    ((.write (List.replicate (min ring.slotSize (ring.total - ring.slotSize)) 1) ::
      List.replicate 6 .writer) ++
    ((.read ring.slotSize :: List.replicate 5 .reader) ++ [.reader]))))

end Runs

section Losses

variable {ring : Ring} {producer : Language}

theorem lossyRun_eq (h : ring.slotSize < ring.total) :
    (run ring producer .c (lossyRun ring)).state.given = List.replicate ring.slotSize 0 ++
      List.replicate (min ring.slotSize (ring.total - ring.slotSize)) 1 ∧
    (run ring producer .c (lossyRun ring)).state.reader.position =
      ring.slotSize + min ring.slotSize (ring.total - ring.slotSize) ∧
    delivered (run ring producer .c (lossyRun ring)) =
      (run ring producer .c (lossyRun ring)).state.received.drop ring.slotSize := by
  have hslot : 0 < ring.slotSize := Nat.lt_of_lt_of_le (by decide) ring.slotSize_ge
  have hslots := ring.slots_ge
  obtain ⟨more, hmore⟩ : ∃ more, more = min ring.slotSize (ring.total - ring.slotSize) := ⟨_, rfl⟩
  rw [run, lossyRun, ← hmore, List.foldl_append, foldl_write_frame, List.foldl_append,
    foldl_read_frame ring.slotSize, List.foldl_append,
    foldl_reader_timeout (ring.slotSize + 1) ring.slotSize, List.foldl_append,
    foldl_write_frame, List.foldl_append, foldl_read_frame more, List.foldl_cons, List.foldl_nil,
    next_reader_return ring.slotSize more]
  · simp [Calls.returnRead, delivered, start, fresh, load]
  any_goals simp [start, fresh, Calls.returnRead]
  all_goals omega

theorem inv_foldl {consumer : Language} {c : Calls} (h : Inv ring consumer c.state)
    (actions : List CallAction) :
    Inv ring consumer (actions.foldl (next ring producer consumer) c).state := by
  induction actions generalizing c with
  | nil => exact h
  | cons a actions ih => exact ih (inv_next h a)

/-- The second call returns the second frame, and no call returns the first. -/
theorem lossyRun_delivered (h : ring.slotSize < ring.total) :
    delivered (run ring producer .c (lossyRun ring)) =
      List.replicate (min ring.slotSize (ring.total - ring.slotSize)) 1 := by
  obtain ⟨hgiven, hposition, hdelivered⟩ := lossyRun_eq h
  have hinv : Inv ring .c (run ring producer .c (lossyRun ring)).state := inv_foldl fresh_inv _
  rw [hdelivered, hinv.received, hposition, hgiven, List.take_of_length_le (by simp),
    List.drop_left']
  exact List.length_replicate

theorem not_lossless_lossyRun (h : ring.slotSize < ring.total) :
    ¬ Lossless (run ring producer .c (lossyRun ring)) := by
  intro hlossless
  have hslot : 0 < ring.slotSize := Nat.lt_of_lt_of_le (by decide) ring.slotSize_ge
  have hmore : 0 < min ring.slotSize (ring.total - ring.slotSize) := by omega
  have hreads := hlossless.reads
  rw [lossyRun_delivered h, (lossyRun_eq h).1] at hreads
  have hfirst := hreads.getElem (i := 0) (by simpa using hmore)
  simp [hslot] at hfirst

theorem inOneFrame_of_total_le (h : ring.total ≤ ring.slotSize) (position length : Nat) :
    InOneFrame ring position length := by
  have hslot : 0 < ring.slotSize := Nat.lt_of_lt_of_le (by decide) ring.slotSize_ge
  have hlt := Nat.mod_lt position hslot
  have hle := Nat.mod_le position ring.slotSize
  unfold InOneFrame
  omega

theorem allFit_of_total_le {consumer : Language} (h : ring.total ≤ ring.slotSize) (c : Calls)
    (actions : List CallAction) : AllFit ring producer consumer c actions := by
  induction actions generalizing c with
  | nil => trivial
  | cons a actions ih =>
    refine ⟨?_, ih _⟩
    cases a with
    | write buffer => exact inOneFrame_of_total_le h _ _
    | read length => exact inOneFrame_of_total_le h _ _
    | _ => trivial

end Losses

/-- When a wait ends at its deadline, no byte is lost or duplicated as long as each
call stays in the frame it begins in. So a C consumer never loses one exactly if
the stream is a single frame. -/
theorem lossless_runs (ring : Ring) (producer : Language) :
    (∀ consumer actions, AllFit ring producer consumer start actions →
      Lossless (run ring producer consumer actions)) ∧
    ((∀ actions, Lossless (run ring producer .c actions)) ↔ ring.total ≤ ring.slotSize) := by
  refine ⟨fun consumer actions hfit => lossless_of_allFit _ _ _ _ hfit, ?_, ?_⟩
  · intro hall
    by_contra hlt
    exact not_lossless_lossyRun (Nat.lt_of_not_le hlt) (hall _)
  · intro hle actions
    exact lossless_of_allFit _ _ _ _ (allFit_of_total_le hle _ actions)

/-- A read times out before the three bytes of the stream are there. -/
def patientRun : List CallAction :=
  .write [7] :: List.replicate 5 .writer ++ .read 3 :: [.reader, .readTimeout] ++
    .write [8, 9] :: List.replicate 6 .writer ++ .read 3 :: List.replicate 6 .reader

theorem lossless_runs_patient :
    AllFit smallRing .c .c start patientRun ∧
      (run smallRing .c .c patientRun).reads.map ReadCall.ok = [false, true] ∧
      Lossless (run smallRing .c .c patientRun) := by
  have hfit : AllFit smallRing .c .c start patientRun := by
    simp only [AllFit, Fits, InOneFrame, patientRun, List.replicate, List.cons_append,
      List.nil_append]
    decide +kernel
  exact ⟨hfit, by decide +kernel, (lossless_runs _ _).1 _ _ hfit⟩

/-- A ring of two slots gets a whole stream in one write while nobody reads. -/
def blockedRun (ring : Ring) : List CallAction :=
  .write (List.replicate ring.total 0) :: (List.replicate 5 .writer ++
    (List.replicate 5 .writer ++ [.writer, .writeTimeout]))

theorem blockedRun_writes {ring : Ring} {producer consumer : Language} (hslots : ring.slots = 2)
    (h : 2 * ring.slotSize < ring.total) :
    (run ring producer consumer (blockedRun ring)).writes =
      [⟨List.replicate ring.total 0, 0, 2 * ring.slotSize, false⟩] := by
  have hslot : 0 < ring.slotSize := Nat.lt_of_lt_of_le (by decide) ring.slotSize_ge
  rw [run, blockedRun, List.foldl_cons, next_write, List.foldl_append,
    foldl_writer_frame (List.replicate ring.total 0) 0 ring.slotSize, List.foldl_append,
    foldl_writer_frame (List.replicate ring.total 0) ring.slotSize ring.slotSize,
    foldl_writer_timeout (List.replicate ring.total 0) (2 * ring.slotSize)]
  · simp [Calls.returnWrite, start, fresh]
    omega
  any_goals simp [start, fresh]
  all_goals omega

/-- The small ring for a stream of one byte more than its slots hold. -/
def wideRing : Ring :=
  { smallRing with
    total := 2 * minSlotSize + 1, total_pos := Nat.succ_pos _, total_le := by decide }

/-- The successful read returns the second frame only, and the failed write has
filled both slots. -/
theorem timeouts_lose_bytes :
    delivered (run wideRing .c .c (lossyRun wideRing)) = List.replicate minSlotSize 1 ∧
      (run wideRing .c .c (lossyRun wideRing)).state.given =
        List.replicate minSlotSize 0 ++ List.replicate minSlotSize 1 ∧
      ¬ Lossless (run wideRing .c .c (lossyRun wideRing)) ∧
      (run wideRing .c .c (blockedRun wideRing)).writes =
        [⟨List.replicate wideRing.total 0, 0, 2 * minSlotSize, false⟩] := by
  have hslot : wideRing.slotSize = minSlotSize := rfl
  have htotal : wideRing.total = 2 * minSlotSize + 1 := rfl
  have hlt : wideRing.slotSize < wideRing.total := by omega
  have hmin : min wideRing.slotSize (wideRing.total - wideRing.slotSize) = minSlotSize := by omega
  refine ⟨?_, ?_, not_lossless_lossyRun hlt, ?_⟩
  · rw [lossyRun_delivered hlt, hmin]
  · rw [(lossyRun_eq hlt).1, hmin, hslot]
  · rw [blockedRun_writes rfl (by omega), hslot]

end HeteroCluster.RingLosses
