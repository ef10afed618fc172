import HeteroCluster.RingModel

namespace HeteroCluster.RingInvariant

open CircularSlots RingModel

variable (ring : Ring) (consumer : Language)

/-- Between frames: everything before the frame with number `n` is done. -/
def Closed (e : Endpoint) (n : Nat) : Prop :=
  e.framePos = e.frameBytes ∧ e.position = min (n * ring.slotSize) ring.total

/-- Inside the frame with number `n`, or at its end. -/
structure Opened (e : Endpoint) (n : Nat) : Prop where
  frameBytes : e.frameBytes = min ring.slotSize (ring.total - n * ring.slotSize)
  framePos_le : e.framePos ≤ e.frameBytes
  position : e.position = n * ring.slotSize + e.framePos
  begins : n * ring.slotSize < ring.total

/-- The producer is inside the frame `head`, whose slot is free. -/
structure Writing (w : Endpoint) (head tail : Nat) : Prop where
  opened : Opened ring w head
  more : w.framePos < w.frameBytes
  free : head < tail + ring.slots

/-- The consumer is inside the frame `tail`, which is published. -/
structure Reading (r : Endpoint) (head tail : Nat) : Prop where
  opened : Opened ring r tail
  more : r.framePos < r.frameBytes
  published : tail < head

/-- What the producer has still to write is the rest of its buffer. -/
def WriterAt (w : Endpoint) (head tail : Nat) (rest : Bytes) : WriterPC → Prop
  | .idle => rest = [] ∧ (Closed ring w head ∨ Writing ring w head tail)
  | .check buffer n => rest = buffer.drop n ∧ (Closed ring w head ∨ Writing ring w head tail)
  | .spin buffer n => rest = buffer.drop n ∧ n < buffer.length ∧ Closed ring w head
  | .checkTail buffer n h => rest = buffer.drop n ∧ n < buffer.length ∧ Closed ring w head ∧ h = head
  | .loadHead buffer n => rest = buffer.drop n ∧ n < buffer.length ∧ Writing ring w head tail
  | .copy buffer n h =>
    rest = buffer.drop n ∧ n < buffer.length ∧ Writing ring w head tail ∧ h = head
  | .publish buffer n h => rest = buffer.drop n ∧ Opened ring w head ∧ w.framePos = w.frameBytes ∧
      head < tail + ring.slots ∧ h = head
  | .corrupt => False

def ReaderAt (r : Endpoint) (head tail : Nat) : ReaderPC → Prop
  | .idle => Closed ring r tail ∨ Reading ring r head tail
  | .check _ _ => (consumer = .go → r.position < ring.total) ∧
      (Closed ring r tail ∨ Reading ring r head tail)
  | .checkTail _ _ h => r.position < ring.total ∧ Closed ring r tail ∧ tail ≤ h ∧ h ≤ head
  | .loadTail _ _ => Reading ring r head tail
  | .copy _ _ t => Reading ring r head tail ∧ t = tail
  | .release _ _ t => Opened ring r tail ∧ r.framePos = r.frameBytes ∧ tail < head ∧ t = tail
  | .corrupt => False

/-- The invariant that relates the private positions, the shared counters and
the memory to the stream. -/
structure Inv (s : State) : Prop where
  tail_le : s.tail ≤ s.head
  head_le : s.head ≤ s.tail + ring.slots
  position_le : s.writer.position ≤ s.given.length
  given_le : s.given.length ≤ ring.total
  writer : WriterAt ring s.writer s.head s.tail (s.given.drop s.writer.position) s.writerPC
  reader : ReaderAt ring consumer s.reader s.head s.tail s.readerPC
  published : ∀ n, s.tail ≤ n → n < s.head → Holds s.mem (ring.start n 0) s.given
    (n * ring.slotSize) (min ring.slotSize (ring.total - n * ring.slotSize))
  opened : Holds s.mem (ring.start s.head 0) s.given (s.head * ring.slotSize)
    (s.writer.position - s.head * ring.slotSize)
  received : s.received = s.given.take s.reader.position
  ended : s.ended = true → s.reader.position = ring.total

variable {ring consumer} {producer : Language} {e w r : Endpoint}
variable {n head head' tail tail' : Nat} {rest : Bytes} {s : State}

theorem Closed.openFrame (h : Closed ring e n) (hp : e.position < ring.total) :
    Opened ring (ring.openFrame e) n ∧
      (ring.openFrame e).framePos < (ring.openFrame e).frameBytes := by
  have hn : e.position = n * ring.slotSize := by
    have := h.2
    omega
  have hpos : 0 < ring.slotSize := Nat.lt_of_lt_of_le (by decide) ring.slotSize_ge
  refine ⟨⟨?_, Nat.zero_le _, ?_, by omega⟩, ?_⟩
  · simp [Ring.openFrame, hn]
  · simp [Ring.openFrame, hn]
  · simp only [Ring.openFrame]
    omega

theorem Opened.advance (h : Opened ring e n) {amount : Nat}
    (ha : amount ≤ e.frameBytes - e.framePos) : Opened ring (e.advance amount) n := by
  have hle := h.framePos_le
  have hp := h.position
  refine ⟨h.frameBytes, ?_, ?_, h.begins⟩
  · simp only [Endpoint.advance]
    omega
  · simp only [Endpoint.advance]
    omega

theorem Opened.closed (h : Opened ring e n) (hf : e.framePos = e.frameBytes) :
    Closed ring e (n + 1) := by
  have hb := h.frameBytes
  have hp := h.position
  have hbegin := h.begins
  refine ⟨hf, ?_⟩
  rw [Nat.succ_mul]
  omega

theorem Writing.tail_mono (h : Writing ring w head tail) (ht : tail ≤ tail') :
    Writing ring w head tail' := ⟨h.opened, h.more, by have := h.free; omega⟩

theorem Reading.head_mono (h : Reading ring r head tail) (hh : head ≤ head') :
    Reading ring r head' tail := ⟨h.opened, h.more, Nat.lt_of_lt_of_le h.published hh⟩

theorem WriterAt.tail_mono {pc : WriterPC} (h : WriterAt ring w head tail rest pc)
    (ht : tail ≤ tail') : WriterAt ring w head tail' rest pc := by
  cases pc with
  | idle => exact ⟨h.1, h.2.imp_right (fun hw => hw.tail_mono ht)⟩
  | check => exact ⟨h.1, h.2.imp_right (fun hw => hw.tail_mono ht)⟩
  | spin => exact h
  | checkTail => exact h
  | loadHead => exact ⟨h.1, h.2.1, h.2.2.tail_mono ht⟩
  | copy => exact ⟨h.1, h.2.1, h.2.2.1.tail_mono ht, h.2.2.2⟩
  | publish =>
    obtain ⟨hrest, ho, hf, hfree, hh⟩ := h
    exact ⟨hrest, ho, hf, by omega, hh⟩
  | corrupt => exact h

theorem ReaderAt.head_mono {pc : ReaderPC} (h : ReaderAt ring consumer r head tail pc)
    (hh : head ≤ head') : ReaderAt ring consumer r head' tail pc := by
  cases pc with
  | idle => exact h.imp_right (fun hr => hr.head_mono hh)
  | check => exact ⟨h.1, h.2.imp_right (fun hr => hr.head_mono hh)⟩
  | checkTail => exact ⟨h.1, h.2.1, h.2.2.1, h.2.2.2.trans hh⟩
  | loadTail => exact Reading.head_mono h hh
  | copy => exact ⟨h.1.head_mono hh, h.2⟩
  | release =>
    obtain ⟨ho, hf, hlt, ht⟩ := h
    exact ⟨ho, hf, by omega, ht⟩
  | corrupt => exact h

theorem Closed.position_le (h : Closed ring e tail) (ht : tail ≤ head) :
    e.position ≤ min (head * ring.slotSize) ring.total := by
  have hmul := Nat.mul_le_mul_right ring.slotSize ht
  have := h.2
  omega

theorem Opened.position_le (h : Opened ring e tail) (ht : tail < head) :
    e.position ≤ min (head * ring.slotSize) ring.total := by
  have hmul := Nat.mul_le_mul_right ring.slotSize ht
  rw [Nat.succ_mul] at hmul
  have hb := h.frameBytes
  have hp := h.position
  have hle := h.framePos_le
  have hbegin := h.begins
  omega

theorem ReaderAt.position_le {pc : ReaderPC} (h : ReaderAt ring consumer r head tail pc)
    (ht : tail ≤ head) : r.position ≤ min (head * ring.slotSize) ring.total := by
  cases pc with
  | idle => exact h.elim (fun hc => hc.position_le ht) (fun hr => hr.opened.position_le hr.published)
  | check =>
    exact h.2.elim (fun hc => hc.position_le ht) (fun hr => hr.opened.position_le hr.published)
  | checkTail => exact h.2.1.position_le ht
  | loadTail => exact Opened.position_le (Reading.opened h) (Reading.published h)
  | copy => exact h.1.opened.position_le h.1.published
  | release => exact h.1.position_le h.2.2.1
  | corrupt => exact h.elim

theorem WriterAt.le_position {pc : WriterPC} (h : WriterAt ring w head tail rest pc) :
    min (head * ring.slotSize) ring.total ≤ w.position := by
  have hopened : Opened ring w head → min (head * ring.slotSize) ring.total ≤ w.position := by
    intro ho
    have := ho.position
    omega
  have hclosed : Closed ring w head → min (head * ring.slotSize) ring.total ≤ w.position :=
    fun hc => hc.2.symm.le
  cases pc with
  | idle => exact h.2.elim hclosed (fun hw => hopened hw.opened)
  | check => exact h.2.elim hclosed (fun hw => hopened hw.opened)
  | spin => exact hclosed h.2.2
  | checkTail => exact hclosed h.2.2.1
  | loadHead => exact hopened h.2.2.opened
  | copy => exact hopened h.2.2.1.opened
  | publish => exact hopened h.2.1
  | corrupt => exact h.elim

theorem Inv.reader_le_writer (h : Inv ring consumer s) : s.reader.position ≤ s.writer.position :=
  (h.reader.position_le h.tail_le).trans h.writer.le_position

theorem fresh_inv : Inv ring consumer fresh where
  tail_le := Nat.le_refl _
  head_le := Nat.zero_le _
  position_le := Nat.le_refl _
  given_le := Nat.zero_le _
  writer := ⟨rfl, .inl ⟨rfl, by simp [fresh]⟩⟩
  reader := .inl ⟨rfl, by simp [fresh]⟩
  published := by
    intro n _ hn
    exact absurd hn (Nat.not_lt_zero n)
  opened := by
    intro i hi
    simp [fresh] at hi
  received := rfl
  ended := by simp [fresh]

theorem Inv.write (h : Inv ring consumer s) (buffer : Bytes) :
    Inv ring consumer (write ring s buffer) := by
  unfold RingModel.write
  split
  · rename_i hpc
    split
    · exact h
    · rename_i hfit
      have hw := h.writer
      rw [hpc] at hw
      have hlen : s.given.length ≤ s.writer.position := List.drop_eq_nil_iff.mp hw.1
      have hpos := h.position_le
      have hrest : (s.given ++ buffer).drop s.writer.position = buffer.drop 0 := by
        rw [List.drop_append_of_le_length hpos, hw.1, List.nil_append, List.drop_zero]
      refine ⟨h.tail_le, h.head_le, ?_, ?_, ⟨hrest, hw.2⟩, h.reader, ?_, h.opened.append buffer, ?_,
        h.ended⟩
      · simp only [List.length_append]
        omega
      · simp only [List.length_append]
        omega
      · intro n ht hn
        exact (h.published n ht hn).append buffer
      · rw [h.received, List.take_append_of_le_length (h.reader_le_writer.trans hpos)]
  · exact h

theorem Inv.read (h : Inv ring consumer s) (length : Nat) :
    Inv ring consumer (read ring s length) := by
  unfold RingModel.read
  split
  · rename_i hpc
    have hr := h.reader
    rw [hpc] at hr
    split
    · rename_i hend
      exact ⟨h.tail_le, h.head_le, h.position_le, h.given_le, h.writer, h.reader, h.published, h.opened,
        h.received, fun _ => hend⟩
    · rename_i hne
      have hle := h.reader.position_le h.tail_le
      refine ⟨h.tail_le, h.head_le, h.position_le, h.given_le, h.writer, ⟨?_, hr⟩, h.published,
        h.opened, h.received, h.ended⟩
      intro _
      change s.reader.position < ring.total
      omega
  · exact h

theorem Inv.writerPC (h : Inv ring consumer s) {pc : WriterPC}
    (hw : WriterAt ring s.writer s.head s.tail (s.given.drop s.writer.position) pc) :
    Inv ring consumer { s with writerPC := pc } :=
  ⟨h.tail_le, h.head_le, h.position_le, h.given_le, hw, h.reader, h.published, h.opened, h.received,
    h.ended⟩

theorem Inv.readerPC (h : Inv ring consumer s) {pc : ReaderPC}
    (hr : ReaderAt ring consumer s.reader s.head s.tail pc) :
    Inv ring consumer { s with readerPC := pc } :=
  ⟨h.tail_le, h.head_le, h.position_le, h.given_le, h.writer, hr, h.published, h.opened, h.received,
    h.ended⟩

theorem slot_ne (hf : head < tail + ring.slots) (ht : tail ≤ n) (hn : n < head) :
    n % ring.slots ≠ head % ring.slots :=
  mod_ne_of_lt hn (by omega)

theorem start_add (ring : Ring) (n x : Nat) : ring.start n x = ring.start n 0 + x := by
  simp [Ring.start]

theorem Inv.published_store (h : Inv ring consumer s) (hw : Writing ring s.writer s.head s.tail)
    {data : Bytes} (hd : s.writer.framePos + data.length ≤ s.writer.frameBytes) (ht : s.tail ≤ n)
    (hn : n < s.head) :
    Holds (store s.mem (ring.start s.head s.writer.framePos) data) (ring.start n 0) s.given
      (n * ring.slotSize) (min ring.slotSize (ring.total - n * ring.slotSize)) := by
  apply (h.published n ht hn).store_apart
  intro i hi
  have hb := hw.opened.frameBytes
  have hfit : s.writer.framePos + data.length ≤ ring.slotSize := by omega
  have hy : i < ring.slotSize := by omega
  have hapart := slots_apart (slot_ne hw.free ht hn).symm hfit hy
  simp only [Ring.start]
  omega

theorem Inv.copyIn (h : Inv ring consumer s) {buffer : Bytes} {written : Nat}
    (hrest : s.given.drop s.writer.position = buffer.drop written) (hlt : written < buffer.length)
    (hw : Writing ring s.writer s.head s.tail) {amount : Nat}
    (ha : amount = min (buffer.length - written) (s.writer.frameBytes - s.writer.framePos))
    {pc : WriterPC}
    (hpc : pc = if (s.writer.advance amount).framePos = (s.writer.advance amount).frameBytes
      then .publish buffer (written + amount) s.head else .check buffer (written + amount)) :
    Inv ring consumer
      { s with
        mem := store s.mem (ring.start s.head s.writer.framePos) ((buffer.drop written).take amount)
        writer := s.writer.advance amount
        writerPC := pc } := by
  have hlen : ((buffer.drop written).take amount).length = amount := by
    rw [List.length_take, List.length_drop]
    omega
  have hmore := hw.more
  have hposition := hw.opened.position
  have hgiven : s.given.length - s.writer.position = buffer.length - written := by
    rw [← List.length_drop, hrest, List.length_drop]
  have hle := h.position_le
  have hopened : Opened ring (s.writer.advance amount) s.head := hw.opened.advance (by omega)
  have hrest' : s.given.drop (s.writer.position + amount) = buffer.drop (written + amount) := by
    rw [← List.drop_drop, hrest, List.drop_drop]
  refine ⟨h.tail_le, h.head_le, ?_, h.given_le, ?_, h.reader, ?_, ?_, h.received, h.ended⟩
  · simp only [Endpoint.advance]
    omega
  · rw [hpc]
    split
    · rename_i hfull
      exact ⟨hrest', hopened, hfull, hw.free, rfl⟩
    · rename_i hpart
      exact ⟨hrest', .inr ⟨hopened, Nat.lt_of_le_of_ne hopened.framePos_le hpart, hw.free⟩⟩
  · intro n ht hn
    exact h.published_store hw (by omega) ht hn
  · have hold := h.opened
    have hcount : s.writer.position - s.head * ring.slotSize = s.writer.framePos := by omega
    rw [hcount] at hold
    have hstream : ∀ i < ((buffer.drop written).take amount).length,
        s.given[s.head * ring.slotSize + s.writer.framePos + i]? =
          ((buffer.drop written).take amount)[i]? := by
      intro i hi
      rw [← hposition, ← List.getElem?_drop, hrest, List.getElem?_take_of_lt (by omega)]
    have hnext := hold.store_next hstream
    rw [← start_add, hlen] at hnext
    have hcount' : (s.writer.advance amount).position - s.head * ring.slotSize =
        s.writer.framePos + amount := by
      simp only [Endpoint.advance]
      omega
    rw [hcount']
    exact hnext

theorem Inv.publish (h : Inv ring consumer s) {buffer : Bytes} {written : Nat}
    (hrest : s.given.drop s.writer.position = buffer.drop written)
    (ho : Opened ring s.writer s.head) (hf : s.writer.framePos = s.writer.frameBytes)
    (hfree : s.head < s.tail + ring.slots) :
    Inv ring consumer { s with head := s.head + 1, writerPC := .check buffer written } := by
  have hb := ho.frameBytes
  have hp := ho.position
  refine ⟨Nat.le_succ_of_le h.tail_le, hfree, h.position_le, h.given_le,
    ⟨hrest, .inl (ho.closed hf)⟩, h.reader.head_mono (Nat.le_succ _), ?_, ?_, h.received, h.ended⟩
  · intro n ht hn
    obtain hlt | rfl := Nat.lt_succ_iff_lt_or_eq.mp hn
    · exact h.published n ht hlt
    · have hall := h.opened
      have hcount : s.writer.position - s.head * ring.slotSize =
          min ring.slotSize (ring.total - s.head * ring.slotSize) := by omega
      rwa [hcount] at hall
  · intro i hi
    simp only [Nat.succ_mul] at hi
    omega

theorem Inv.stepWriter (h : Inv ring consumer s) :
    Inv ring consumer (stepWriter ring producer s) := by
  have hw := h.writer
  unfold RingModel.stepWriter
  split
  · exact h
  · rename_i buffer written hpc
    rw [hpc] at hw
    obtain ⟨hrest, hw⟩ := hw
    split
    · rename_i hlt
      split
      · rename_i heq
        apply h.writerPC
        refine ⟨hrest, hlt, hw.resolve_right (fun hb => ?_), rfl⟩
        have := hb.more
        omega
      · rename_i hne
        apply h.writerPC
        exact ⟨hrest, hlt, hw.resolve_left (fun hc => hne hc.1), rfl⟩
    · rename_i hge
      apply h.writerPC
      exact ⟨hrest.trans (List.drop_eq_nil_iff.mpr (Nat.not_lt.mp hge)), hw⟩
  · rename_i buffer written hpc
    rw [hpc] at hw
    obtain ⟨hrest, hlt, hclosed⟩ := hw
    rw [if_pos hclosed.1]
    apply h.writerPC
    exact ⟨hrest, hlt, hclosed, rfl⟩
  · rename_i buffer written head hpc
    rw [hpc] at hw
    obtain ⟨hrest, hlt, hclosed, rfl⟩ := hw
    have htail := h.tail_le
    have hhead := h.head_le
    split
    · omega
    · split
      · apply h.writerPC
        cases producer with
        | go => exact ⟨hrest, hlt, hclosed⟩
        | c => exact ⟨hrest, .inl hclosed⟩
      · have hpos : s.writer.position < s.given.length := by
          have hl := congrArg List.length hrest
          rw [List.length_drop, List.length_drop] at hl
          omega
        have hgiven := h.given_le
        obtain ⟨ho, hmore⟩ := hclosed.openFrame (by omega)
        have hfree : s.head < s.tail + ring.slots := by omega
        exact ⟨h.tail_le, h.head_le, h.position_le, h.given_le, ⟨hrest, hlt, ho, hmore, hfree⟩,
          h.reader, h.published, h.opened, h.received, h.ended⟩
  · rename_i buffer written hpc
    rw [hpc] at hw
    apply h.writerPC
    exact ⟨hw.1, hw.2.1, hw.2.2, rfl⟩
  · rename_i buffer written head hpc
    rw [hpc] at hw
    obtain ⟨hrest, hlt, hw, rfl⟩ := hw
    exact h.copyIn hrest hlt hw rfl rfl
  · rename_i buffer written head hpc
    rw [hpc] at hw
    obtain ⟨hrest, ho, hf, hfree, rfl⟩ := hw
    exact h.publish hrest ho hf hfree
  · exact h

theorem readerAt_afterCopy {length done : Nat}
    (h : Closed ring r tail ∨ Reading ring r head tail) :
    ReaderAt ring consumer r head tail (afterCopy consumer length done) := by
  cases consumer with
  | go => exact h
  | c => exact ⟨by simp, h⟩

theorem Inv.copyOut (h : Inv ring consumer s) (hr : Reading ring s.reader s.head s.tail)
    {length done amount : Nat}
    (ha : amount = min (length - done) (s.reader.frameBytes - s.reader.framePos)) {pc : ReaderPC}
    (hpc : pc = if (s.reader.advance amount).framePos = (s.reader.advance amount).frameBytes
      then .release length (done + amount) s.tail else afterCopy consumer length (done + amount)) :
    Inv ring consumer
      { s with
        received := s.received ++ load s.mem (ring.start s.tail s.reader.framePos) amount
        reader := s.reader.advance amount
        readerPC := pc } := by
  have hopened : Opened ring (s.reader.advance amount) s.tail := hr.opened.advance (by omega)
  have hb := hr.opened.frameBytes
  have hp := hr.opened.position
  have hmore := hr.more
  refine ⟨h.tail_le, h.head_le, h.position_le, h.given_le, h.writer, ?_, h.published, h.opened, ?_, ?_⟩
  · rw [hpc]
    split
    · rename_i hfull
      exact ⟨hopened, hfull, hr.published, rfl⟩
    · rename_i hpart
      apply readerAt_afterCopy
      exact .inr ⟨hopened, Nat.lt_of_le_of_ne hopened.framePos_le hpart, hr.published⟩
  · have hframe := h.published s.tail (Nat.le_refl _) hr.published
    have hpart := hframe.segment (k := s.reader.framePos) (m := amount) (by omega)
    rw [← start_add, ← hp] at hpart
    change s.received ++ load s.mem (ring.start s.tail s.reader.framePos) amount =
      s.given.take (s.reader.position + amount)
    rw [h.received, take_append_load hpart]
  · intro hend
    have := h.ended hend
    omega

theorem Inv.release (h : Inv ring consumer s) {length done : Nat} (ho : Opened ring s.reader s.tail)
    (hf : s.reader.framePos = s.reader.frameBytes) (hlt : s.tail < s.head) :
    Inv ring consumer { s with tail := s.tail + 1, readerPC := afterCopy consumer length done } := by
  have hhead := h.head_le
  refine ⟨hlt, ?_, h.position_le, h.given_le, h.writer.tail_mono (Nat.le_succ _),
    readerAt_afterCopy (.inl (ho.closed hf)), ?_, h.opened, h.received, h.ended⟩
  · change s.head ≤ s.tail + 1 + ring.slots
    omega
  · intro n ht hn
    exact h.published n (Nat.le_of_succ_le ht) hn

theorem Inv.stepReader (h : Inv ring consumer s) : Inv ring consumer (stepReader ring consumer s) := by
  have hr := h.reader
  unfold RingModel.stepReader
  split
  · exact h
  · rename_i length done hpc
    rw [hpc] at hr
    obtain ⟨hgo, hr⟩ := hr
    split
    · apply h.readerPC
      exact hr
    · rename_i hloop
      have hpos : s.reader.position < ring.total := by
        cases consumer with
        | go => exact hgo rfl
        | c =>
          by_contra hge
          exact hloop ⟨rfl, fun hc => hge hc.2⟩
      split
      · rename_i heq
        apply h.readerPC
        refine ⟨hpos, hr.resolve_right (fun hb => ?_), h.tail_le, Nat.le_refl _⟩
        have := hb.more
        omega
      · rename_i hne
        apply h.readerPC
        exact ⟨hr.resolve_left (fun hc => hne hc.1), rfl⟩
  · rename_i length done head hpc
    rw [hpc] at hr
    obtain ⟨hpos, hclosed, hge, hle⟩ := hr
    have hhead := h.head_le
    split
    · omega
    · split
      · apply h.readerPC
        exact ⟨fun _ => hpos, .inl hclosed⟩
      · rename_i hne
        obtain ⟨ho, hmore⟩ := hclosed.openFrame hpos
        have hpub : s.tail < s.head := by omega
        exact ⟨h.tail_le, h.head_le, h.position_le, h.given_le, h.writer, ⟨ho, hmore, hpub⟩,
          h.published, h.opened, h.received, h.ended⟩
  · rename_i length done hpc
    rw [hpc] at hr
    apply h.readerPC
    exact ⟨hr, rfl⟩
  · rename_i length done tail hpc
    rw [hpc] at hr
    obtain ⟨hr, rfl⟩ := hr
    exact h.copyOut hr rfl rfl
  · rename_i length done tail hpc
    rw [hpc] at hr
    obtain ⟨ho, hf, hlt, rfl⟩ := hr
    exact h.release ho hf hlt
  · exact h

theorem Inv.step (h : Inv ring consumer s) (a : Action) :
    Inv ring consumer (step ring producer consumer s a) := by
  cases a with
  | write buffer => exact h.write buffer
  | writer => exact h.stepWriter
  | read length => exact h.read length
  | reader => exact h.stepReader

/-- The invariant holds in every state of every interleaving. -/
theorem run_inv (actions : List Action) : Inv ring consumer (run ring producer consumer actions) := by
  have hfold : ∀ (actions : List Action) (s : State), Inv ring consumer s →
      Inv ring consumer (actions.foldl (RingModel.step ring producer consumer) s) := by
    intro actions
    induction actions with
    | nil => exact fun s h => h
    | cons a actions ih => exact fun s h => ih _ (h.step a)
  exact hfold actions fresh fresh_inv

end HeteroCluster.RingInvariant
