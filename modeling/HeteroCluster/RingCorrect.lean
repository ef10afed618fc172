import HeteroCluster.RingInvariant

namespace HeteroCluster.RingCorrect

open CircularSlots RingModel RingInvariant

variable (ring : Ring) (producer consumer : Language)

def WriterPC.waits : WriterPC → Bool
  | .check _ _ => true
  | .spin _ _ => true
  | .checkTail _ _ _ => true
  | _ => false

def ReaderPC.waits : ReaderPC → Bool
  | .check _ _ => true
  | .checkTail _ _ _ => true
  | _ => false

/-- Left to itself, the producer waits for a free slot forever. -/
def WriterBlocked (s : State) : Prop :=
  ∀ n, WriterPC.waits ((stepWriter ring producer)^[n] s).writerPC = true

def ReaderBlocked (s : State) : Prop :=
  ∀ n, ReaderPC.waits ((stepReader ring consumer)^[n] s).readerPC = true

variable {ring producer consumer} {s : State}

theorem WriterBlocked.step (h : WriterBlocked ring producer s) :
    WriterBlocked ring producer (stepWriter ring producer s) :=
  fun n => h (n + 1)

theorem ReaderBlocked.step (h : ReaderBlocked ring consumer s) :
    ReaderBlocked ring consumer (stepReader ring consumer s) :=
  fun n => h (n + 1)

theorem full_of_checkTail {buffer : Bytes} {written head : Nat} (h : Inv ring consumer s)
    (hb : WriterBlocked ring producer s) (hpc : s.writerPC = .checkTail buffer written head) :
    s.head = s.tail + ring.slots := by
  have hw := h.writer
  rw [hpc] at hw
  obtain ⟨-, -, -, rfl⟩ := hw
  have htail := h.tail_le
  have hhead := h.head_le
  by_contra hne
  have hnext := hb 1
  rw [Function.iterate_one, stepWriter, hpc] at hnext
  dsimp only at hnext
  rw [if_neg (by omega), if_neg (by omega)] at hnext
  cases hnext

theorem stepWriter_waits {buffer : Bytes} {written : Nat}
    (hpc : s.writerPC = .check buffer written ∨ s.writerPC = .spin buffer written)
    (hn : WriterPC.waits (stepWriter ring producer s).writerPC = true) :
    stepWriter ring producer s = { s with writerPC := .checkTail buffer written s.head } := by
  obtain hpc | hpc := hpc
  · rw [stepWriter, hpc] at hn ⊢
    dsimp only at hn ⊢
    split at hn
    · rename_i hlt
      rw [if_pos hlt]
      split at hn
      · rename_i heq
        rw [if_pos heq]
      · cases hn
    · cases hn
  · rw [stepWriter, hpc] at hn ⊢
    dsimp only at hn ⊢
    split at hn
    · rename_i heq
      rw [if_pos heq]
    · cases hn

theorem full_of_blocked (h : Inv ring consumer s) (hb : WriterBlocked ring producer s) :
    s.head = s.tail + ring.slots := by
  have hloop : ∀ buffer written, s.writerPC = .check buffer written ∨
      s.writerPC = .spin buffer written → s.head = s.tail + ring.slots := by
    intro buffer written hpc
    have hnext := stepWriter_waits hpc (hb 1)
    have hstep : Inv ring consumer (stepWriter ring producer s) := h.stepWriter
    have hfull := full_of_checkTail hstep hb.step (by rw [hnext])
    rw [hnext] at hfull
    exact hfull
  have hwaits := hb 0
  rw [Function.iterate_zero_apply] at hwaits
  cases hpc : s.writerPC with
  | checkTail buffer written head => exact full_of_checkTail h hb hpc
  | check buffer written => exact hloop buffer written (.inl hpc)
  | spin buffer written => exact hloop buffer written (.inr hpc)
  | _ => simp [hpc, WriterPC.waits] at hwaits

theorem stepReader_waits {length done : Nat} (hpc : s.readerPC = .check length done)
    (hn : ReaderPC.waits (stepReader ring consumer s).readerPC = true) :
    stepReader ring consumer s = { s with readerPC := .checkTail length done s.head } := by
  rw [stepReader, hpc] at hn ⊢
  dsimp only at hn ⊢
  split at hn
  · cases hn
  · rename_i hloop
    rw [if_neg hloop]
    split at hn
    · rename_i heq
      rw [if_pos heq]
    · cases hn

theorem stepReader_checkTail {length done head : Nat} (h : Inv ring consumer s)
    (hpc : s.readerPC = .checkTail length done head)
    (hn : ReaderPC.waits (stepReader ring consumer s).readerPC = true) :
    head = s.tail ∧ stepReader ring consumer s = { s with readerPC := .check length done } := by
  have hr := h.reader
  rw [hpc] at hr
  obtain ⟨-, -, hge, hle⟩ := hr
  have hhead := h.head_le
  rw [stepReader, hpc] at hn ⊢
  dsimp only at hn ⊢
  rw [if_neg (by omega)] at hn ⊢
  split at hn
  · rename_i heq
    exact ⟨heq, if_pos heq⟩
  · cases hn

theorem empty_of_check {length done : Nat} (h : Inv ring consumer s)
    (hb : ReaderBlocked ring consumer s) (hpc : s.readerPC = .check length done) :
    s.head = s.tail := by
  have hnext := stepReader_waits hpc (hb 1)
  have hstep : Inv ring consumer (stepReader ring consumer s) := h.stepReader
  have hempty := stepReader_checkTail hstep (by rw [hnext]) (hb 2)
  rw [hnext] at hempty
  exact hempty.1

theorem empty_of_blocked (h : Inv ring consumer s) (hb : ReaderBlocked ring consumer s) :
    s.head = s.tail := by
  have hwaits := hb 0
  rw [Function.iterate_zero_apply] at hwaits
  cases hpc : s.readerPC with
  | check length done => exact empty_of_check h hb hpc
  | checkTail length done head =>
    -- the loaded head may be stale, so the consumer is followed once around its loop
    have hnext := (stepReader_checkTail h hpc (hb 1)).2
    have hstep : Inv ring consumer (stepReader ring consumer s) := h.stepReader
    have hempty := empty_of_check hstep hb.step (by rw [hnext])
    rw [hnext] at hempty
    exact hempty
  | _ => simp [hpc, ReaderPC.waits] at hwaits

theorem initializeRing_ok {slots : Int} {slotSize total : Nat}
    (h : initializeRing slots slotSize total = .ok ring) :
    (ring.slots : Int) = slots ∧ ring.slotSize = slotSize ∧ ring.total = total := by
  unfold initializeRing at h
  split at h
  · cases h
  · rename_i hb
    split at h
    · cases h
    · obtain rfl := Except.ok.inj h
      exact ⟨by simp only; omega, rfl, rfl⟩

/-- In every interleaving of one producer and one consumer of a ring, in either
language: what was received is a prefix of what was given, and all of it at the
end of the stream; the counters are ordered and never found corrupt; a slot is
not written while it is unread or read; and not both endpoints are blocked. -/
theorem ring_correct {slots : Int} {slotSize total : Nat}
    (h : initializeRing slots slotSize total = .ok ring) (producer consumer : Language)
    (actions : List Action) :
    let s := run ring producer consumer actions
    ((ring.slots : Int) = slots ∧ ring.slotSize = slotSize ∧ ring.total = total) ∧
    s.received <+: s.given ∧ (s.ended = true → s.received = s.given) ∧
    (s.tail ≤ s.head ∧ s.head ≤ s.tail + ring.slots) ∧
    (∀ buffer written head, s.writerPC = .copy buffer written head →
      (∀ n, s.tail ≤ n → n < s.head → n % ring.slots ≠ head % ring.slots) ∧
      ∀ length done tail, s.readerPC = .copy length done tail →
        tail % ring.slots ≠ head % ring.slots) ∧
    (s.writerPC ≠ .corrupt ∧ s.readerPC ≠ .corrupt) ∧
    ¬ (WriterBlocked ring producer s ∧ ReaderBlocked ring consumer s) := by
  intro s
  have hinv : Inv ring consumer s := run_inv actions
  refine ⟨initializeRing_ok h, ?_, ?_, ⟨hinv.tail_le, hinv.head_le⟩, ?_, ⟨?_, ?_⟩, ?_⟩
  · rw [hinv.received]
    exact List.take_prefix _ _
  · intro hend
    rw [hinv.received, hinv.ended hend, List.take_of_length_le hinv.given_le]
  · intro buffer written head hpc
    have hw := hinv.writer
    rw [hpc] at hw
    obtain ⟨-, -, hw, rfl⟩ := hw
    refine ⟨fun n ht hn => slot_ne hw.free ht hn, ?_⟩
    intro length done tail hrpc
    have hr := hinv.reader
    rw [hrpc] at hr
    obtain ⟨hr, rfl⟩ := hr
    exact slot_ne hw.free (Nat.le_refl _) hr.published
  · intro hpc
    have hw := hinv.writer
    rw [hpc] at hw
    exact hw
  · intro hpc
    have hr := hinv.reader
    rw [hpc] at hr
    exact hr
  · rintro ⟨hw, hr⟩
    have hfull := full_of_blocked hinv hw
    have hempty := empty_of_blocked hinv hr
    have htwo := ring.slots_ge
    omega

def smallRing : Ring where
  slots := 2
  slotSize := minSlotSize
  total := 3
  slots_ge := by decide
  slots_le := by decide
  slotSize_ge := by decide
  slotSize_le := by decide
  total_pos := by decide
  total_le := by decide

/-- Two writes that share a frame, and reads up to the end of the stream. -/
def smallRun : List Action :=
  [.write [1, 2]] ++ List.replicate 5 .writer ++ [.write [3], .read 8] ++
    List.replicate 4 .writer ++ List.replicate 5 .reader ++ [.read 8]

theorem ring_correct_smallRun :
    (run smallRing .c .go smallRun).ended = true ∧ (run smallRing .c .go smallRun).given = [1, 2, 3] ∧
      (run smallRing .c .go smallRun).received = (run smallRing .c .go smallRun).given := by
  have hring : initializeRing 2 minSlotSize 3 = .ok smallRing := by rfl
  have hend : (run smallRing .c .go smallRun).ended = true := by decide +kernel
  have hall := ring_correct hring .c .go smallRun
  exact ⟨hend, by decide +kernel, hall.2.2.1 hend⟩

end HeteroCluster.RingCorrect
