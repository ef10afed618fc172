import HeteroCluster.HostileRing
import HeteroCluster.RingTimeouts

namespace HeteroCluster.RingWords

open RingFile RingModel RingInvariant
open HostileRing (Side PC Input Bounded least)
open RingCorrect (smallRing smallRun)
open RingTimeouts (read_frame write_frame stepWriter_frame stepReader_frame)

def ringOf (h : Handle) : Ring where
  slots := h.slots.toNat
  slotSize := h.slotSize.toNat
  total := h.total.toNat
  slots_ge := h.sized.slots_ge
  slots_le := h.sized.slots_le
  slotSize_ge := h.sized.slotSize_ge
  slotSize_le := h.sized.slotSize_le
  total_pos := h.sized.total_pos
  total_le := h.sized.total_le

/-- The words of a call: how many bytes it is for, and how many are done. -/
structure Counts (m n : Nat) (length done : UInt64) : Prop where
  length_eq : length.toNat = m
  done_eq : done.toNat = n

inductive WriterWords : WriterPC → PC → Prop where
  | idle : WriterWords .idle .idle
  | check {buffer : Bytes} {n : Nat} {length done : UInt64}
      (hc : Counts buffer.length n length done) : WriterWords (.check buffer n) (.check length done)
  | spin {buffer : Bytes} {n : Nat} {length done : UInt64}
      (hc : Counts buffer.length n length done) : WriterWords (.spin buffer n) (.spin length done)
  | checkTail {buffer : Bytes} {n head : Nat} {length done word : UInt64}
      (hc : Counts buffer.length n length done) (hword : word.toNat = head) :
      WriterWords (.checkTail buffer n head) (.checkTail length done word)
  | reload {buffer : Bytes} {n : Nat} {length done : UInt64}
      (hc : Counts buffer.length n length done) :
      WriterWords (.loadHead buffer n) (.reload length done)
  | copy {buffer : Bytes} {n head : Nat} {length done word : UInt64}
      (hc : Counts buffer.length n length done) (hword : word.toNat = head) :
      WriterWords (.copy buffer n head) (.copy length done word)
  | store {buffer : Bytes} {n head : Nat} {length done : UInt64}
      (hc : Counts buffer.length n length done) :
      WriterWords (.publish buffer n head) (.store length done)

inductive ReaderWords : ReaderPC → PC → Prop where
  | idle : ReaderWords .idle .idle
  | check {m n : Nat} {length done : UInt64} (hc : Counts m n length done) :
      ReaderWords (.check m n) (.check length done)
  | checkTail {m n head : Nat} {length done word : UInt64} (hc : Counts m n length done)
      (hword : word.toNat = head) : ReaderWords (.checkTail m n head) (.checkTail length done word)
  | reload {m n : Nat} {length done : UInt64} (hc : Counts m n length done) :
      ReaderWords (.loadTail m n) (.reload length done)
  | copy {m n tail : Nat} {length done word : UInt64} (hc : Counts m n length done)
      (hword : word.toNat = tail) : ReaderWords (.copy m n tail) (.copy length done word)
  | store {m n tail : Nat} {length done : UInt64} (hc : Counts m n length done) :
      ReaderWords (.release m n tail) (.store length done)

/-- The words of an endpoint hold its numbers, and it has touched the given spans
of the mapping. -/
structure Follows (e : Endpoint) (here : PC → Prop) (spans : List (Nat × Nat)) (side : Side) :
    Prop where
  position : side.position.toNat = e.position
  frameBytes : side.frameBytes.toNat = e.frameBytes
  framePos : side.framePos.toNat = e.framePos
  pc : here side.pc
  spans_eq : side.copies.map (fun c => (c.start.toNat, c.amount.toNat)) = spans

abbrev WriterFollows (spans : List (Nat × Nat)) (s : State) (side : Side) : Prop :=
  Follows s.writer (WriterWords s.writerPC) spans side

abbrev ReaderFollows (spans : List (Nat × Nat)) (s : State) (side : Side) : Prop :=
  Follows s.reader (ReaderWords s.readerPC) spans side

section Cursor

variable {h : Handle} {e : Endpoint} {here there : PC → Prop} {spans : List (Nat × Nat)}
variable {side : Side} {pc : PC} {returned : List UInt64} {length done own : UInt64}
variable {m n frame : Nat}

theorem Follows.full_iff (hf : Follows e here spans side) :
    side.framePos = side.frameBytes ↔ e.framePos = e.frameBytes := by
  rw [← UInt64.toNat_inj, hf.framePos, hf.frameBytes]

theorem Follows.move (hf : Follows e here spans side) (hpc : there pc) :
    Follows e there spans { side with pc, returned } :=
  ⟨hf.position, hf.frameBytes, hf.framePos, hpc, hf.spans_eq⟩

theorem Follows.openFrame (hf : Follows e here spans side) (hle : e.position ≤ h.total.toNat)
    (hpc : there pc) :
    Follows ((ringOf h).openFrame e) there spans { HostileRing.openFrame h side with pc } := by
  have hsub : (h.total - side.position).toNat = h.total.toNat - e.position := by
    rw [← hf.position] at hle ⊢
    exact UInt64.toNat_sub_of_le _ _ (UInt64.le_iff_toNat_le.mpr hle)
  refine ⟨hf.position, ?_, rfl, hpc, hf.spans_eq⟩
  exact (HostileRing.toNat_least _ _).trans (congrArg (min h.slotSize.toNat) hsub)

theorem Follows.toNat_amount (hf : Follows e here spans side) (hb : Bounded h side)
    (hat : side.pc = .copy length done own) (hc : Counts m n length done) :
    (least (length - done) (side.frameBytes - side.framePos)).toNat =
      min (m - n) (e.frameBytes - e.framePos) := by
  rw [← hc.length_eq, ← hc.done_eq, ← hf.frameBytes, ← hf.framePos]
  exact (hb.exact (hb.done_le hat)).amount_eq

theorem Follows.counts (hf : Follows e here spans side) (hb : Bounded h side)
    (hat : side.pc = .copy length done own) (hc : Counts m n length done) :
    Counts m (n + min (m - n) (e.frameBytes - e.framePos)) length
      (done + least (length - done) (side.frameBytes - side.framePos)) := by
  refine ⟨hc.length_eq, ?_⟩
  rw [(hb.exact (hb.done_le hat)).done, hf.toNat_amount hb hat hc, hc.done_eq]

theorem Follows.copySlot (hf : Follows e here spans side) (hb : Bounded h side)
    (hat : side.pc = .copy length done own) (hc : Counts m n length done)
    (hown : own.toNat = frame) (hpc : there pc) :
    Follows (e.advance (min (m - n) (e.frameBytes - e.framePos))) there
      (spans ++ [((ringOf h).start frame e.framePos, min (m - n) (e.frameBytes - e.framePos))])
      { HostileRing.copySlot h side length done own with pc, returned } := by
  obtain ⟨-, hpos, hposition, -⟩ := hb.exact (hb.done_le hat)
  have hstart := HostileRing.toNat_start h own (hb.frame.trans hb.slot)
  rw [← hf.toNat_amount hb hat hc]
  refine ⟨hposition.trans (congrArg (· + _) hf.position), hf.frameBytes,
    hpos.trans (congrArg (· + _) hf.framePos), hpc, ?_⟩
  rw [← hf.spans_eq, ← hf.framePos, ← hown]
  simp only [HostileRing.copySlot, List.map_append, List.map_cons, List.map_nil, hstart]
  rfl

theorem Follows.ends_iff (hf : Follows e here spans side) (hb : Bounded h side)
    (hat : side.pc = .copy length done own) (hc : Counts m n length done) :
    (HostileRing.copySlot h side length done own).framePos =
        (HostileRing.copySlot h side length done own).frameBytes ↔
      (e.advance (min (m - n) (e.frameBytes - e.framePos))).framePos =
        (e.advance (min (m - n) (e.frameBytes - e.framePos))).frameBytes :=
  (@Follows.copySlot h e here (fun _ => True) spans side .idle [] length done own m n own.toNat
    hf hb hat hc rfl trivial).full_iff

end Cursor

/-- What a state that can be reached keeps: the invariant, and few frames. -/
structure Reached (ring : Ring) (consumer : Language) (s : State) : Prop where
  inv : Inv ring consumer s
  frames : s.head * ring.slotSize < ring.total + ring.slotSize

section Reached

variable {ring : Ring} {producer consumer : Language} {s : State}

theorem Reached.head_lt (hr : Reached ring consumer s) : s.head < 2 ^ 63 := by
  have hsize := ring.slotSize_ge
  have hle := ring.slotSize_le
  have htotal := ring.total_le
  have hmin : minSlotSize = 2 ^ 20 := by decide
  have hmax : maxSlotSize = 2 ^ 24 := by decide
  have hlong : maxStreamLength = 2 ^ 40 := by decide
  have hframes := hr.frames
  have hmul : s.head * 1 ≤ s.head * ring.slotSize := Nat.mul_le_mul_left _ (by omega)
  omega

theorem Reached.toNat_head (hr : Reached ring consumer s) : (UInt64.ofNat s.head).toNat = s.head :=
  UInt64.toNat_ofNat_of_lt' (hr.head_lt.trans (by decide))

theorem Reached.toNat_tail (hr : Reached ring consumer s) : (UInt64.ofNat s.tail).toNat = s.tail :=
  UInt64.toNat_ofNat_of_lt' ((hr.inv.tail_le.trans_lt hr.head_lt).trans (by decide))

theorem head_step (a : Action) : (step ring producer consumer s a).head = s.head ∨
    ∃ buffer n head, s.writerPC = .publish buffer n head ∧
      (step ring producer consumer s a).head = head + 1 := by
  cases a with
  | writer =>
    dsimp only [RingModel.step, RingModel.stepWriter]
    split
    case h_7 buffer n head hpc => exact .inr ⟨buffer, n, head, hpc, rfl⟩
    all_goals
      left
      repeat' split
      all_goals rfl
  | write | read | reader =>
    left
    dsimp only [RingModel.step, RingModel.write, RingModel.read, RingModel.stepReader]
    repeat' split
    all_goals rfl

theorem Reached.step (hr : Reached ring consumer s) (a : Action) :
    Reached ring consumer (step ring producer consumer s a) := by
  refine ⟨hr.inv.step a, ?_⟩
  have hframes := hr.frames
  obtain hsame | ⟨buffer, n, head, hpc, hnext⟩ := @head_step ring producer consumer s a
  · rwa [hsame]
  · have hat := hr.inv.writer
    rw [hpc] at hat
    obtain ⟨-, hopened, -, -, rfl⟩ := hat
    have hbegins := hopened.begins
    rw [hnext, Nat.succ_mul]
    omega

end Reached

def writerWord (s : State) : Nat :=
  match s.writerPC with
  | .checkTail _ _ _ => s.tail
  | _ => s.head

def readerWord (s : State) : Nat :=
  match s.readerPC with
  | .check _ _ => if s.reader.framePos = s.reader.frameBytes then s.head else s.tail
  | _ => s.tail

/-- The span of the mapping that the next step of the producer stores to. -/
def writerSpan (ring : Ring) (s : State) : List (Nat × Nat) :=
  match s.writerPC with
  | .copy buffer written head => [(ring.start head s.writer.framePos,
      min (buffer.length - written) (s.writer.frameBytes - s.writer.framePos))]
  | _ => []

/-- The span of the mapping that the next step of the consumer loads from. -/
def readerSpan (ring : Ring) (s : State) : List (Nat × Nat) :=
  match s.readerPC with
  | .copy length done tail => [(ring.start tail s.reader.framePos,
      min (length - done) (s.reader.frameBytes - s.reader.framePos))]
  | _ => []

section Steps

variable {h : Handle} {producer consumer : Language} {s : State} {side : Side}
variable {spans : List (Nat × Nat)}

theorem toNat_lag {head tail : Nat} {word own : UInt64} (hle : tail ≤ head)
    (hhead : word.toNat = head) (htail : own.toNat = tail) : (word - own).toNat = head - tail := by
  rw [UInt64.toNat_sub_of_le _ _ (UInt64.le_iff_toNat_le.mpr (by omega)), hhead, htail]

theorem not_corrupt {head tail : Nat} {word own : UInt64} (hle : tail ≤ head)
    (hslots : head ≤ tail + h.slots.toNat) (hhead : word.toNat = head) (htail : own.toNat = tail) :
    ¬ (word < own ∨ word - own > h.slots) := by
  have hlag := toNat_lag hle hhead htail
  rw [gt_iff_lt, UInt64.lt_iff_toNat_lt, UInt64.lt_iff_toNat_lt]
  omega

theorem both_ite {P : State → Side → Prop} {p q : Prop} [Decidable p] [Decidable q] {t : State}
    {other : Side} (hiff : q ↔ p) (hyes : P s side) (hno : P t other) :
    P (if p then s else t) (if q then side else other) := by
  by_cases hp : p
  · rwa [if_pos hp, if_pos (hiff.mpr hp)]
  · rwa [if_neg hp, if_neg (mt hiff.mp hp)]

theorem follows_load {buffer : Bytes} {n : Nat} {length done : UInt64}
    (hr : Reached (ringOf h) consumer s) (hf : WriterFollows spans s side)
    (hc : Counts buffer.length n length done) :
    WriterFollows spans
      (if s.writer.framePos = s.writer.frameBytes then
        { s with writerPC := .checkTail buffer n s.head }
      else { s with writerPC := .copy buffer n s.head })
      (if side.framePos = side.frameBytes then
        { side with pc := .checkTail length done (UInt64.ofNat s.head) }
      else { side with pc := .copy length done (UInt64.ofNat s.head) }) := by
  apply both_ite hf.full_iff
  · exact hf.move (.checkTail hc hr.toNat_head)
  · exact hf.move (.copy hc hr.toNat_head)

theorem follows_stepWriter (hr : Reached (ringOf h) consumer s) (hb : Bounded h side)
    (hf : WriterFollows spans s side) :
    WriterFollows (spans ++ writerSpan (ringOf h) s) (stepWriter (ringOf h) producer s)
      (HostileRing.stepWriter h producer side (UInt64.ofNat (writerWord s)) false) := by
  have hat := hr.inv.writer
  have hwords := hf.pc
  generalize hpc : s.writerPC = pc at hwords hat
  generalize hside : side.pc = words at hwords
  unfold RingModel.stepWriter HostileRing.stepWriter writerWord writerSpan
  rw [hpc, hside]
  cases hwords with
  | idle =>
    rw [List.append_nil]
    exact hf
  | @check buffer n length done hc =>
    rw [List.append_nil]
    have hmore : done < length ↔ n < buffer.length := by
      rw [UInt64.lt_iff_toNat_lt, hc.length_eq, hc.done_eq]
    exact both_ite hmore (follows_load hr hf hc) (hf.move .idle)
  | spin hc =>
    rw [List.append_nil]
    exact follows_load hr hf hc
  | @checkTail buffer n head length done word hc hword =>
    rw [List.append_nil]
    obtain ⟨-, -, -, rfl⟩ := hat
    have hle := hr.inv.tail_le
    have hslots := hr.inv.head_le
    have hwait : word - UInt64.ofNat s.tail = h.slots ↔ s.head - s.tail = (ringOf h).slots := by
      rw [← UInt64.toNat_inj, toNat_lag hle hword hr.toNat_tail]
      rfl
    dsimp only
    rw [if_neg (by omega), if_neg (not_corrupt hle hslots hword hr.toNat_tail),
      if_neg Bool.false_ne_true]
    apply both_ite hwait
    · cases producer with
      | go => exact hf.move (.spin hc)
      | c => exact hf.move (.check hc)
    · exact hf.openFrame (hr.inv.position_le.trans hr.inv.given_le) (.reload hc)
  | reload hc =>
    rw [List.append_nil]
    exact hf.move (.copy hc hr.toNat_head)
  | copy hc hword =>
    have hcount := hf.counts hb hside hc
    have hends := hf.ends_iff hb hside hc
    dsimp only
    split
    next hend =>
      rw [if_pos (hends.mpr hend)]
      exact hf.copySlot hb hside hc hword (.store hcount)
    next hend =>
      rw [if_neg (mt hends.mp hend)]
      exact hf.copySlot hb hside hc hword (.check hcount)
  | store hc =>
    rw [List.append_nil]
    exact hf.move (.check hc)

theorem follows_afterCopy {e : Endpoint} {here : PC → Prop} {m n : Nat} {length done : UInt64}
    (hf : Follows e here spans side) (hc : Counts m n length done) :
    Follows e (ReaderWords (afterCopy consumer m n)) spans
      (HostileRing.afterCopy consumer side length done) := by
  cases consumer with
  | go => exact hf.move .idle
  | c => exact hf.move (.check hc)

theorem follows_stepReader (hr : Reached (ringOf h) consumer s) (hb : Bounded h side)
    (hf : ReaderFollows spans s side) :
    ReaderFollows (spans ++ readerSpan (ringOf h) s) (stepReader (ringOf h) consumer s)
      (HostileRing.stepReader h consumer side (UInt64.ofNat (readerWord s)) false) := by
  have hat := hr.inv.reader
  have htail := hr.toNat_tail
  have hwords := hf.pc
  generalize hpc : s.readerPC = pc at hwords hat
  generalize hside : side.pc = words at hwords
  unfold RingModel.stepReader HostileRing.stepReader readerWord readerSpan
  rw [hpc, hside]
  cases hwords with
  | idle =>
    rw [List.append_nil]
    exact hf
  | @check m n length done hc =>
    rw [List.append_nil]
    have hstop : (consumer = .c ∧ ¬ (done < length ∧ side.position < h.total)) ↔
        (consumer = .c ∧ ¬ (n < m ∧ s.reader.position < (ringOf h).total)) := by
      rw [UInt64.lt_iff_toNat_lt, UInt64.lt_iff_toNat_lt, hc.length_eq, hc.done_eq, hf.position]
      rfl
    apply both_ite hstop
    · exact hf.move .idle
    · -- the word is one of the head or the tail, as the frame is open or not
      by_cases hend : s.reader.framePos = s.reader.frameBytes
      · rw [if_pos hend, if_pos hend, if_pos (hf.full_iff.mpr hend)]
        exact hf.move (.checkTail hc hr.toNat_head)
      · rw [if_neg hend, if_neg hend, if_neg (mt hf.full_iff.mp hend)]
        exact hf.move (.copy hc htail)
  | @checkTail m n head length done word hc hword =>
    rw [List.append_nil]
    obtain ⟨hmore, -, hle, hhead⟩ := hat
    have hslots : head ≤ s.tail + (ringOf h).slots := hhead.trans hr.inv.head_le
    have hempty : word = UInt64.ofNat s.tail ↔ head = s.tail := by
      rw [← UInt64.toNat_inj, hword, htail]
    dsimp only
    rw [if_neg (by omega), if_neg (not_corrupt hle hslots hword htail), if_neg Bool.false_ne_true]
    apply both_ite hempty
    · exact hf.move (.check hc)
    · exact hf.openFrame hmore.le (.reload hc)
  | reload hc =>
    rw [List.append_nil]
    exact hf.move (.copy hc htail)
  | copy hc hword =>
    have hcount := hf.counts hb hside hc
    have hends := hf.ends_iff hb hside hc
    dsimp only
    split
    next hend =>
      rw [if_pos (hends.mpr hend)]
      exact hf.copySlot hb hside hc hword (.store hcount)
    next hend =>
      rw [if_neg (mt hends.mp hend)]
      have hcopied : Follows _ (fun _ => True) _ (HostileRing.copySlot h side _ _ _) :=
        hf.copySlot hb hside hc hword trivial
      exact follows_afterCopy hcopied hcount
  | store hc =>
    rw [List.append_nil]
    exact follows_afterCopy hf hc

theorem follows_write {buffer : Bytes} (hshort : buffer.length < 2 ^ 63)
    (hr : Reached (ringOf h) consumer s) (hf : WriterFollows spans s side) :
    WriterFollows spans (write (ringOf h) s buffer)
      (HostileRing.beginWrite h true side (UInt64.ofNat buffer.length)) := by
  have hwords := hf.pc
  generalize hpc : s.writerPC = pc at hwords
  generalize hside : side.pc = words at hwords
  unfold RingModel.write HostileRing.beginWrite
  rw [hpc, hside]
  cases hwords with
  | idle =>
    have hlength : (UInt64.ofNat buffer.length).toNat = buffer.length :=
      UInt64.toNat_ofNat_of_lt' (hshort.trans (by decide))
    have hposition := hr.inv.position_le.trans hr.inv.given_le
    have htotal := (ringOf h).total_le
    have hlong : maxStreamLength = 2 ^ 40 := by decide
    have hover : (true = false ∨ side.position + UInt64.ofNat buffer.length > h.total) ↔
        s.writer.position + buffer.length > (ringOf h).total := by
      rw [or_iff_right Bool.true_eq_false.mp, gt_iff_lt, UInt64.lt_iff_toNat_lt,
        UInt64.toNat_add, hlength, hf.position, Nat.mod_eq_of_lt (by omega)]
      rfl
    exact both_ite hover hf (hf.move (.check ⟨hlength, rfl⟩))
  | _ => exact hf

theorem follows_read {length : Nat} (hshort : length < 2 ^ 64) (hf : ReaderFollows spans s side) :
    ReaderFollows spans (read (ringOf h) s length)
      (HostileRing.beginRead h false side (UInt64.ofNat length)) := by
  have hwords := hf.pc
  have hended : ReaderFollows spans { s with ended := true } side := hf
  generalize hpc : s.readerPC = pc at hwords hended
  generalize hside : side.pc = words at hwords
  unfold RingModel.read HostileRing.beginRead
  rw [hpc, hside]
  cases hwords with
  | idle =>
    have hend : (false = true ∨ side.position = h.total) ↔
        s.reader.position = (ringOf h).total := by
      rw [or_iff_right Bool.false_ne_true, ← UInt64.toNat_inj, hf.position]
      rfl
    exact both_ite hend hended (hf.move (.check ⟨UInt64.toNat_ofNat_of_lt' hshort, rfl⟩))
  | _ => exact hf

end Steps

/-- The length of a slice of Go, and of a buffer of C. -/
def Short : Action → Prop
  | .write buffer => buffer.length < 2 ^ 63
  | .writer => True
  | .read length => length < 2 ^ 64
  | .reader => True

/-- What the producer gets of an action: a call, or the word that it loads. -/
def writerInputs (s : State) : Action → List Input
  | .write buffer => [.write (UInt64.ofNat buffer.length)]
  | .writer => [.step (UInt64.ofNat (writerWord s)) false]
  | .read _ => []
  | .reader => []

def readerInputs (s : State) : Action → List Input
  | .write _ => []
  | .writer => []
  | .read length => [.read (UInt64.ofNat length)]
  | .reader => [.step (UInt64.ofNat (readerWord s)) false]

def writerSpans (ring : Ring) (s : State) : Action → List (Nat × Nat)
  | .write _ => []
  | .writer => writerSpan ring s
  | .read _ => []
  | .reader => []

def readerSpans (ring : Ring) (s : State) : Action → List (Nat × Nat)
  | .write _ => []
  | .writer => []
  | .read _ => []
  | .reader => readerSpan ring s

section Runs

variable (ring : Ring) (producer consumer : Language) {α : Type}

def along (f : State → Action → List α) : State → List Action → List α
  | _, [] => []
  | s, a :: actions => f s a ++ along f (step ring producer consumer s a) actions

variable {producer consumer} {h : Handle} {s : State} {side : Side} {spans : List (Nat × Nat)}

theorem follows_step_writer {a : Action} (ha : Short a) (hr : Reached (ringOf h) consumer s)
    (hb : Bounded h side) (hf : WriterFollows spans s side) :
    WriterFollows (spans ++ writerSpans (ringOf h) s a) (step (ringOf h) producer consumer s a)
      ((writerInputs s a).foldl (HostileRing.next h producer true) side) := by
  cases a with
  | write buffer =>
    rw [writerSpans, List.append_nil]
    exact follows_write ha hr hf
  | writer => exact follows_stepWriter hr hb hf
  | read length =>
    obtain ⟨hwriter, hpc, -⟩ := read_frame (ringOf h) s length
    rw [WriterFollows, RingModel.step, hwriter, hpc, writerSpans, List.append_nil]
    exact hf
  | reader =>
    obtain ⟨hwriter, hpc, -⟩ := stepReader_frame (ringOf h) consumer s
    rw [WriterFollows, RingModel.step, hwriter, hpc, writerSpans, List.append_nil]
    exact hf

theorem follows_step_reader {a : Action} (ha : Short a) (hr : Reached (ringOf h) consumer s)
    (hb : Bounded h side) (hf : ReaderFollows spans s side) :
    ReaderFollows (spans ++ readerSpans (ringOf h) s a) (step (ringOf h) producer consumer s a)
      ((readerInputs s a).foldl (HostileRing.next h consumer false) side) := by
  cases a with
  | write buffer =>
    obtain ⟨hreader, hpc, -⟩ := write_frame (ringOf h) s buffer
    rw [ReaderFollows, RingModel.step, hreader, hpc, readerSpans, List.append_nil]
    exact hf
  | writer =>
    obtain ⟨hreader, hpc, -⟩ := stepWriter_frame (ringOf h) producer s
    rw [ReaderFollows, RingModel.step, hreader, hpc, readerSpans, List.append_nil]
    exact hf
  | read length =>
    rw [readerSpans, List.append_nil]
    exact follows_read ha hf
  | reader => exact follows_stepReader hr hb hf

variable (producer consumer) {language : Language} {role : Bool}
  {P : List (Nat × Nat) → State → Side → Prop} {inputs : State → Action → List Input}
  {touched : State → Action → List (Nat × Nat)}

theorem follows_along
    (hstep : ∀ {s a side spans}, Short a → Reached (ringOf h) consumer s → Bounded h side →
      P spans s side → P (spans ++ touched s a) (step (ringOf h) producer consumer s a)
        ((inputs s a).foldl (HostileRing.next h language role) side))
    (actions : List Action) (hshort : ∀ a ∈ actions, Short a) (hr : Reached (ringOf h) consumer s)
    (hb : Bounded h side) (hf : P spans s side) :
    P (spans ++ along (ringOf h) producer consumer touched s actions)
      (actions.foldl (step (ringOf h) producer consumer) s)
      ((along (ringOf h) producer consumer inputs s actions).foldl
        (HostileRing.next h language role) side) := by
  induction actions generalizing s side spans with
  | nil =>
    rw [along, List.append_nil]
    exact hf
  | cons a actions ih =>
    obtain ⟨ha, hrest⟩ := List.forall_mem_cons.mp hshort
    rw [along, along, List.foldl_append, ← List.append_assoc, List.foldl_cons]
    exact ih hrest (hr.step a) (hb.run _) (hstep ha hr hb hf)

theorem reached_fresh : Reached ring consumer fresh where
  inv := fresh_inv
  frames := by
    have hpos := ring.total_pos
    simp only [fresh, Nat.zero_mul]
    omega

end Runs

/-- Under every interleaving the endpoints of 64-bit words, each with the words that
it loads, follow those of numbers and touch the same bytes of the mapping. -/
theorem words_follow (h : Handle) (producer consumer : Language) (actions : List Action)
    (hshort : ∀ a ∈ actions, Short a) :
    WriterFollows (along (ringOf h) producer consumer (writerSpans (ringOf h)) fresh actions)
        (run (ringOf h) producer consumer actions)
        (HostileRing.run h producer true
          (along (ringOf h) producer consumer writerInputs fresh actions)) ∧
      ReaderFollows (along (ringOf h) producer consumer (readerSpans (ringOf h)) fresh actions)
        (run (ringOf h) producer consumer actions)
        (HostileRing.run h consumer false
          (along (ringOf h) producer consumer readerInputs fresh actions)) := by
  have hr := reached_fresh (ringOf h) consumer
  have hb := @HostileRing.bounded_fresh h
  have hwriter : WriterFollows [] fresh HostileRing.fresh := ⟨rfl, rfl, rfl, .idle, rfl⟩
  have hreader : ReaderFollows [] fresh HostileRing.fresh := ⟨rfl, rfl, rfl, .idle, rfl⟩
  constructor
  · exact follows_along producer consumer follows_step_writer actions hshort hr hb hwriter
  · exact follows_along producer consumer follows_step_reader actions hshort hr hb hreader

theorem words_follow_small :
    (run (ringOf (handleOf smallRing)) .go .c smallRun).head = 1 ∧
      ReaderFollows (along (ringOf (handleOf smallRing)) .go .c
          (readerSpans (ringOf (handleOf smallRing))) fresh smallRun)
        (run (ringOf (handleOf smallRing)) .go .c smallRun)
        (HostileRing.run (handleOf smallRing) .c false
          (along (ringOf (handleOf smallRing)) .go .c readerInputs fresh smallRun)) := by
  refine ⟨by decide +kernel, (words_follow _ .go .c smallRun ?_).2⟩
  simp [smallRun, Short]

end HeteroCluster.RingWords
