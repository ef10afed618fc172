import HeteroCluster.TransactionServer

namespace HeteroCluster.TransactionCreation

open CallProgram TransactionServer
open RingModel (Ring initializeRing headerSize minSlotSize maxSlotSize maxStreamLength)

variable {cfg : Config} {s : System}

/-- The size of the ring files of a transaction with a number of streams. -/
def ringSize (cfg : Config) (streams : Nat) : Nat :=
  headerSize + defaultSlots * (slotBytes cfg streams).toNat

def Ample (cfg : Config) (streams : Nat) : Prop :=
  headerSize + defaultSlots * minSlotSize < (perStream cfg streams).toNat

def register (maps : Maps) (request : CreateRequest) (txn : Transaction) : Maps :=
  ⟨maps.transactions.insert request.id txn,
    maps.active.insert (activeKey request.job request.rank) request.id⟩

abbrev ownDir (cfg : Config) (request : CreateRequest) : Path :=
  directory cfg request.job request.rank request.id

section Creation

variable {maps : Maps} {request : CreateRequest} {log : FileLog}

/-- A creation works in the directory of a transaction that is not registered,
and makes the directory first. -/
structure Own (cfg : Config) (maps : Maps) (request : CreateRequest) (log : FileLog)
    (e : FileEvent) : Prop where
  fresh : maps.transactions.lookup request.id = none
  first : log = [] → e.1 = .mkdirAll (ownDir cfg request)
  call : match e.1 with
    | .mkdirAll dir => dir = ownDir cfg request
    | .newRing path size => (∃ name, path = ringPath (ownDir cfg request) name) ∧
        size = ringSize cfg request.streams.length
    | .removeAll dir => dir = ownDir cfg request

def Clean (log : FileLog) : Prop := ∀ e ∈ log, e.2 = none ∧ ∀ dir, e.1 ≠ .removeAll dir

theorem clean_snoc {e : FileEvent} :
    Clean (log ++ [e]) ↔ Clean log ∧ e.2 = none ∧ ∀ dir, e.1 ≠ .removeAll dir := by
  simp only [Clean, List.forall_mem_append, List.forall_mem_singleton]

/-- What the log of a creation shows of the streams it has opened. -/
structure Opened (cfg : Config) (request : CreateRequest) (log : FileLog)
    (streams : List (String × Path)) : Prop where
  made : (⟨.mkdirAll (ownDir cfg request), none⟩ : FileEvent) ∈ log
  clean : Clean log
  path : ∀ stream ∈ streams, stream.2 = ringPath (ownDir cfg request) stream.1
  ring : ∀ stream ∈ streams,
    (⟨.newRing stream.2 (ringSize cfg request.streams.length), none⟩ : FileEvent) ∈ log

theorem Opened.ne_nil {streams : List (String × Path)} (h : Opened cfg request log streams) :
    log ≠ [] := List.ne_nil_of_mem h.made

theorem Opened.add {streams : List (String × Path)} (h : Opened cfg request log streams)
    (name : String) : Opened cfg request
      (log ++ [⟨.newRing (ringPath (ownDir cfg request) name)
        (ringSize cfg request.streams.length), none⟩])
      ((name, ringPath (ownDir cfg request) name) :: streams) := by
  refine ⟨List.mem_append_left _ h.made, ?_, ?_, ?_⟩
  · rw [clean_snoc]
    exact ⟨h.clean, rfl, fun dir => FileCall.noConfusion⟩
  · rw [List.forall_mem_cons]
    exact ⟨rfl, h.path⟩
  · rw [List.forall_mem_cons]
    refine ⟨List.mem_append_right _ (List.mem_singleton_self _), ?_⟩
    intro stream hs
    exact List.mem_append_left _ (h.ring stream hs)

abbrev Ensured {α : Type} (cfg : Config) (maps : Maps) (request : CreateRequest)
    (p : FileProgram α) (log : FileLog) (post : α → FileLog → Prop) : Prop :=
  Ensures (fun _ _ => True) (Own cfg maps request) p log post

/-- A creation that gave up made no ring, or asked last for its directory to be
removed. -/
def Abandoned (cfg : Config) (request : CreateRequest) (log : FileLog) : Prop :=
  (∀ e ∈ log, ∀ path size, e.1 ≠ .newRing path size) ∨
    ∃ before r, log = before ++ [⟨.removeAll (ownDir cfg request), r⟩]

theorem abandon_spec (hf : maps.transactions.lookup request.id = none) (hl : log ≠ []) (e : String)
    (post : List (String × Path) → FileLog → Prop) :
    Ensured cfg maps request (abandon (ownDir cfg request) e) log
      (fun r log' => match r with
        | .ok out => post out log'
        | .error _ => Abandoned cfg request log') := by
  intro r _
  exact ⟨⟨hf, fun h => absurd h hl, rfl⟩, .inr ⟨log, r, rfl⟩⟩

theorem initializeRing_size {slots : Nat} {slotSize total : UInt64} {ring : Ring}
    (h : initializeRing slots slotSize.toNat total.toNat = .ok ring) :
    headerSize + ring.slots * ring.slotSize = headerSize + slots * slotSize.toNat := by
  unfold initializeRing at h
  split at h
  · cases h
  · split at h
    · cases h
    · obtain rfl := Except.ok.inj h
      rfl

theorem initializeFile_spec (hf : maps.transactions.lookup request.id = none) (hl : log ≠ [])
    (name : String) (total : UInt64) :
    Ensured cfg maps request (initializeFile (ringPath (ownDir cfg request) name)
      defaultSlots (slotBytes cfg request.streams.length) total) log
      (fun r log' => log' ≠ [] ∧ (r = none → log' = log ++
        [⟨.newRing (ringPath (ownDir cfg request) name)
          (ringSize cfg request.streams.length), none⟩])) := by
  unfold initializeFile
  split
  · exact ⟨hl, by rintro ⟨⟩⟩
  next ring hring =>
    intro r _
    rw [initializeRing_size hring]
    refine ⟨⟨hf, fun h => absurd h hl, ⟨name, rfl⟩, rfl⟩, by simp, ?_⟩
    rintro rfl
    rfl

theorem openStreams_spec (hf : maps.transactions.lookup request.id = none)
    (todo : List StreamRequest) (streams : List (String × Path))
    (h : Opened cfg request log streams) :
    Ensured cfg maps request (openStreams (ownDir cfg request)
      (slotBytes cfg request.streams.length) todo streams) log
      (fun r log' => match r with
        | .ok out => Opened cfg request log' out ∧ out.length = streams.length + todo.length
        | .error _ => Abandoned cfg request log') := by
  induction todo generalizing streams log with
  | nil => exact ⟨h, rfl⟩
  | cons stream todo ih =>
    rw [openStreams]
    split
    · exact abandon_spec hf h.ne_nil _ _
    · split
      · exact abandon_spec hf h.ne_nil _ _
      · refine (initializeFile_spec hf h.ne_nil stream.name stream.byteLength).bind ?_
        rintro r log' ⟨hl, hr⟩
        cases r with
        | some e => exact abandon_spec hf hl e _
        | none =>
          rw [hr rfl]
          refine (ih _ (h.add stream.name)).mono ?_
          intro r log' hpost
          cases r with
          | error e => exact hpost
          | ok out =>
            refine ⟨hpost.1, ?_⟩
            rw [hpost.2, List.length_cons, List.length_cons]
            omega

structure Added (cfg : Config) (maps : Maps) (request : CreateRequest) (log : FileLog)
    (streams : List (String × Path)) (maps' : Maps) : Prop where
  opened : Opened cfg request log streams
  length : streams.length = request.streams.length
  count : 1 ≤ streams.length ∧ streams.length ≤ 2
  fresh : maps.transactions.lookup request.id = none
  free : (maps.active.lookup (activeKey request.job request.rank)).getD "" = ""
  transactions : maps'.transactions = maps.transactions.insert request.id
    ⟨request.job, request.rank, ownDir cfg request, streams⟩

abbrev Outcome (cfg : Config) (maps : Maps) (request : CreateRequest)
    (r : Except String CreateResponse × Maps) (log : FileLog) : Prop :=
  r.2 = maps ∨ ∃ streams, Added cfg maps request log streams r.2

inductive Answered (cfg : Config) (maps : Maps) (request : CreateRequest) :
    Except String CreateResponse × Maps → FileLog → Prop
  | rejected {log : FileLog} (e : String) (h : Abandoned cfg request log) :
      Answered cfg maps request (.error e, maps) log
  | created {log : FileLog} {streams : List (String × Path)} (h : Opened cfg request log streams)
      (length : streams.length = request.streams.length)
      (count : 1 ≤ streams.length ∧ streams.length ≤ 2)
      (fresh : maps.transactions.lookup request.id = none)
      (free : (maps.active.lookup (activeKey request.job request.rank)).getD "" = "")
      (ample : Ample cfg request.streams.length) :
      Answered cfg maps request
        (.ok ⟨request.id, streams, defaultSlots, slotBytes cfg request.streams.length⟩,
          register maps request ⟨request.job, request.rank, ownDir cfg request, streams⟩) log

theorem createTransaction_answered (cfg : Config) (maps : Maps) (request : CreateRequest) :
    Ensured cfg maps request (createTransaction cfg maps request) []
      (Answered cfg maps request) := by
  unfold createTransaction
  split
  · exact .rejected _ (.inl (by simp))
  next hcount =>
    split
    · exact .rejected _ (.inl (by simp))
    next hfresh =>
      have hf : maps.transactions.lookup request.id = none := by simpa using hfresh
      dsimp only
      split
      · exact .rejected _ (.inl (by simp))
      next hfree =>
        split
        · exact .rejected _ (.inl (by simp))
        next hample =>
          intro r _
          refine ⟨⟨hf, fun _ => rfl, rfl⟩, ?_⟩
          cases r with
          | some e => exact .rejected e (.inl (by simp))
          | none =>
            have hopened : Opened cfg request [⟨.mkdirAll (ownDir cfg request), none⟩] [] :=
              ⟨List.mem_singleton_self _, by simp [Clean], by simp, by simp⟩
            refine (openStreams_spec hf request.streams [] hopened).bind ?_
            intro r log hpost
            cases r with
            | error e => exact .rejected e hpost
            | ok streams =>
              obtain ⟨ho, hlen⟩ := hpost
              rw [List.length_nil, Nat.zero_add] at hlen
              exact .created ho hlen (by omega) hf (not_not.mp hfree) (Nat.not_le.mp hample)

/-- A creation leaves the maps alone or adds a transaction with all its rings. -/
theorem createTransaction_spec (cfg : Config) (maps : Maps) (request : CreateRequest) :
    Ensured cfg maps request (createTransaction cfg maps request) []
      (Outcome cfg maps request) := by
  apply (createTransaction_answered cfg maps request).mono
  rintro r log (_ | ⟨hopened, hlen, hcount, hfresh, hfree, -⟩)
  · exact .inl rfl
  · exact .inr ⟨_, hopened, hlen, hcount, hfresh, hfree, rfl⟩

end Creation

theorem ringPath_not_above {dir dir' : Path} (hlen : dir.length = dir'.length) (name : String) :
    ¬ ringPath dir name <+: dir' := by
  intro h
  have hle := h.length_le
  rw [ringPath, List.length_append, List.length_singleton] at hle
  omega

section Sizes

variable {streams : Nat}

theorem sub_mod_toNat (x : UInt64) : (x - x % 4096).toNat = x.toNat / 4096 * 4096 := by
  have hle : x % 4096 ≤ x := UInt64.le_iff_toNat_le.mpr (by
    rw [UInt64.toNat_mod]
    exact Nat.mod_le _ _)
  rw [UInt64.toNat_sub_of_le _ _ hle, UInt64.toNat_mod]
  have h4096 : (4096 : UInt64).toNat = 4096 := rfl
  rw [h4096]
  omega

theorem slotBytes_toNat (h : headerSize ≤ (perStream cfg streams).toNat) :
    (slotBytes cfg streams).toNat =
      min (((perStream cfg streams).toNat - headerSize) / defaultSlots) maxSlotSize / 4096 * 4096 := by
  have hheader : (UInt64.ofNat headerSize).toNat = headerSize := rfl
  have hslots : (UInt64.ofNat defaultSlots).toNat = defaultSlots := rfl
  have hmax : (UInt64.ofNat maxSlotSize).toNat = maxSlotSize := rfl
  have hle : UInt64.ofNat headerSize ≤ perStream cfg streams := UInt64.le_iff_toNat_le.mpr h
  have hdiv : ((perStream cfg streams - UInt64.ofNat headerSize) / UInt64.ofNat defaultSlots).toNat =
      ((perStream cfg streams).toNat - headerSize) / defaultSlots := by
    rw [UInt64.toNat_div, UInt64.toNat_sub_of_le _ _ hle, hheader, hslots]
  unfold slotBytes
  dsimp only
  rw [sub_mod_toNat]
  split
  next hgt =>
    have hgt' := UInt64.lt_iff_toNat_lt.mp hgt
    rw [hdiv, hmax] at hgt'
    rw [hmax, Nat.min_eq_right hgt'.le]
  next hgt =>
    have hle' := UInt64.le_iff_toNat_le.mp (UInt64.not_lt.mp hgt)
    rw [hdiv, hmax] at hle'
    rw [hdiv, Nat.min_eq_left hle']

theorem slotBytes_bounds (h : Ample cfg streams) :
    minSlotSize ≤ (slotBytes cfg streams).toNat ∧ (slotBytes cfg streams).toNat ≤ maxSlotSize ∧
      ringSize cfg streams ≤ (perStream cfg streams).toNat := by
  have hp : headerSize ≤ (perStream cfg streams).toNat := by
    unfold Ample at h
    omega
  rw [ringSize, slotBytes_toNat hp]
  simp only [Ample, headerSize, defaultSlots, minSlotSize, maxSlotSize] at *
  omega

end Sizes

section Success

variable {maps : Maps} {request : CreateRequest} {stream : StreamRequest}

/-- A request for one stream that nothing in the server speaks against. -/
structure Creatable (cfg : Config) (maps : Maps) (request : CreateRequest)
    (stream : StreamRequest) : Prop where
  one : request.streams = [stream]
  fresh : maps.transactions.lookup request.id = none
  free : (maps.active.lookup (activeKey request.job request.rank)).getD "" = ""
  ample : Ample cfg 1
  name : streamPattern stream.name = true
  length : 1 ≤ stream.byteLength.toNat ∧ stream.byteLength.toNat ≤ maxStreamLength

theorem initializeRing_ok {slots : Nat} {slotSize total : UInt64} (hslots : 2 ≤ slots ∧ slots ≤ 64)
    (hsize : minSlotSize ≤ slotSize.toNat ∧ slotSize.toNat ≤ maxSlotSize)
    (htotal : 1 ≤ total.toNat ∧ total.toNat ≤ maxStreamLength) :
    ∃ ring, initializeRing slots slotSize.toNat total.toNat = .ok ring := by
  have hmul : slots * slotSize.toNat ≤ 64 * maxSlotSize := Nat.mul_le_mul hslots.2 hsize.2
  have hbounds : ¬ ((slots : Int) < 2 ∨ (slots : Int) > 64 ∨ slotSize.toNat < minSlotSize ∨
      slotSize.toNat > maxSlotSize ∨ total.toNat = 0 ∨ total.toNat > maxStreamLength) := by omega
  have hfits : ¬ headerSize + (slots : Int).toNat * slotSize.toNat > 2 ^ 63 - 1 := by
    rw [Int.toNat_natCast]
    simp only [headerSize, maxSlotSize] at *
    omega
  rw [initializeRing, dif_neg hbounds, if_neg hfits]
  exact ⟨_, rfl⟩

theorem initializeFile_eq (path : Path) {slotSize total : UInt64}
    (hsize : minSlotSize ≤ slotSize.toNat ∧ slotSize.toNat ≤ maxSlotSize)
    (htotal : 1 ≤ total.toNat ∧ total.toNat ≤ maxStreamLength) :
    initializeFile path defaultSlots slotSize total =
      ask (.newRing path (headerSize + defaultSlots * slotSize.toNat)) := by
  have hslots : 2 ≤ defaultSlots ∧ defaultSlots ≤ 64 := by decide
  obtain ⟨ring, hring⟩ := initializeRing_ok hslots hsize htotal
  unfold initializeFile
  rw [hring]
  dsimp only
  rw [initializeRing_size hring]

def oneStream (cfg : Config) (request : CreateRequest) (stream : StreamRequest) : Transaction :=
  ⟨request.job, request.rank, ownDir cfg request,
    [(stream.name, ringPath (ownDir cfg request) stream.name)]⟩

theorem Creatable.openStreams_eq (h : Creatable cfg maps request stream) :
    openStreams (ownDir cfg request) (slotBytes cfg 1) [stream] [] =
      .call (.newRing (ringPath (ownDir cfg request) stream.name) (ringSize cfg 1)) (fun r =>
        match r with
        | some e => abandon (ownDir cfg request) e
        | none => .done (.ok [(stream.name, ringPath (ownDir cfg request) stream.name)])) := by
  obtain ⟨hmin, hmax, -⟩ := slotBytes_bounds h.ample
  have hvalid : ¬ (streamPattern stream.name = false ∨ stream.byteLength = 0 ∨
      stream.byteLength.toNat > maxStreamLength) := by
    have hlen := h.length
    have hne : stream.byteLength ≠ 0 := by
      intro h0
      rw [h0] at hlen
      exact absurd hlen.1 (by decide)
    simp only [h.name, hne, Bool.true_eq_false, false_or]
    omega
  have hunused : ¬ (([] : List (String × Path)).lookup stream.name).isSome = true := by simp
  rw [openStreams, if_neg hvalid, if_neg hunused]
  dsimp only
  rw [initializeFile_eq _ ⟨hmin, hmax⟩ h.length, Program.perform_bind, ringSize]
  congr 1
  funext r
  cases r <;> rfl

theorem Creatable.createTransaction_eq (h : Creatable cfg maps request stream) :
    ∃ k k' response, createTransaction cfg maps request = .call (.mkdirAll (ownDir cfg request)) k ∧
      k none = .call (.newRing (ringPath (ownDir cfg request) stream.name) (ringSize cfg 1)) k' ∧
      k' none = .done (.ok response, register maps request (oneStream cfg request stream)) := by
  have hcount : ¬ (request.streams.length < 1 ∨ request.streams.length > 2) := by simp [h.one]
  have hfresh : ¬ (maps.transactions.lookup request.id).isSome = true := by simp [h.fresh]
  have hample : ¬ (perStream cfg request.streams.length).toNat ≤
      headerSize + defaultSlots * minSlotSize := by
    rw [h.one]
    exact Nat.not_le.mpr h.ample
  refine ⟨?_, ?_, ?_, ?_, ?_, ?_⟩
  rotate_left 3
  · rw [createTransaction, if_neg hcount, if_neg hfresh]
    dsimp only
    rw [if_neg (not_not.mpr h.free), if_neg hample]
    exact Program.perform_bind _ _
  · dsimp only
    rw [h.one, List.length_singleton, h.openStreams_eq]
    exact Program.call_bind _ _ _
  · rfl

variable {allowed : System → Action → Prop}

def madeDir (fs : FileSystem) (dir : Path) : FileSystem := fun path =>
  if path <+: dir then some .directory else fs path

def madeRing (cfg : Config) (fs : FileSystem) (request : CreateRequest) (stream : StreamRequest) :
    FileSystem :=
  Function.update (madeDir fs (ownDir cfg request))
    (ringPath (ownDir cfg request) stream.name) (some (.file (ringSize cfg 1)))

def Internal : Action → Prop
  | .call _ | .finish => True
  | _ => False

theorem Creatable.reaches (h : Creatable cfg s.maps request stream) (hr : Reaches cfg allowed s)
    (hb : s.busy = none)
    (hdir : ∀ path, path <+: ownDir cfg request → s.fs path = none ∨ s.fs path = some .directory)
    (hring : s.fs (ringPath (ownDir cfg request) stream.name) = none)
    (hcreate : allowed s (.create request))
    (hrest : ∀ s' a, s'.removals = s.removals → Internal a → allowed s' a) :
    Reaches cfg allowed { s with
      maps := register s.maps request (oneStream cfg request stream)
      fs := madeRing cfg s.fs request stream } := by
  obtain ⟨k, k', response, hcall, hk, hk'⟩ := h.createTransaction_eq
  have h1 := hr.step hcreate (.create request hb)
  rw [hcall] at h1
  have hmade : Serves s.fs ⟨.mkdirAll (ownDir cfg request), none⟩
      (madeDir s.fs (ownDir cfg request)) := by
    refine ⟨if_pos List.prefix_rfl, ?_⟩
    intro path
    by_cases hp : path <+: ownDir cfg request
    · rw [madeDir, if_pos hp]
      obtain hn | hd := hdir path hp
      · exact .inr ⟨hp, hn, rfl⟩
      · exact .inl hd.symm
    · exact .inl (if_neg hp)
  have hopened : Serves (madeDir s.fs (ownDir cfg request))
      ⟨.newRing (ringPath (ownDir cfg request) stream.name) (ringSize cfg 1), none⟩
      (madeRing cfg s.fs request stream) := by
    refine ⟨?_, ?_, rfl⟩
    · rw [ringPath, List.dropLast_concat]
      exact if_pos List.prefix_rfl
    · exact (if_neg (ringPath_not_above rfl stream.name)).trans hring
  have h2 := h1.step (hrest _ _ rfl (by trivial)) (.call none rfl hmade)
  rw [hk] at h2
  have h3 := h2.step (hrest _ _ rfl (by trivial)) (.call none rfl hopened)
  rw [hk'] at h3
  have h4 := h3.step (hrest _ _ rfl (by trivial)) (.finish rfl)
  rw [hb]
  exact h4

theorem madeRing_dir {fs : FileSystem} {path : Path} (hlen : path.length ≤ (ownDir cfg request).length)
    (h : fs path = none ∨ fs path = some .directory) :
    madeRing cfg fs request stream path = none ∨
      madeRing cfg fs request stream path = some .directory := by
  have hne : path ≠ ringPath (ownDir cfg request) stream.name := by
    rintro rfl
    rw [ringPath, List.length_append, List.length_singleton] at hlen
    omega
  rw [madeRing, Function.update_of_ne hne, madeDir]
  split
  · exact .inr rfl
  · exact h

def defaultConfig : Config := ⟨"/dev/shm/ai-orch", "cluster", 67108864, by decide, by decide⟩

def oneByte (id : String) (job : UInt64) (stream : String) : CreateRequest :=
  ⟨id, job, 0, [⟨stream, 1⟩]⟩

theorem creatable_oneByte (id : String) (job : UInt64) {name : String}
    (hname : streamPattern name = true)
    (hfresh : maps.transactions.lookup id = none)
    (hfree : (maps.active.lookup (activeKey job 0)).getD "" = "") :
    Creatable defaultConfig maps (oneByte id job name) ⟨name, 1⟩ := by
  have hlen : 1 ≤ (1 : UInt64).toNat ∧ (1 : UInt64).toNat ≤ maxStreamLength := by decide
  refine ⟨rfl, hfresh, hfree, ?_, hname, hlen⟩
  unfold Ample
  decide +kernel

end Success

end HeteroCluster.TransactionCreation
