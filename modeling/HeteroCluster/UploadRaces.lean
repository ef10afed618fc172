import HeteroCluster.JsonText
import HeteroCluster.LatestCheckpoint

namespace HeteroCluster.UploadRaces

open GoStrings CallProgram CheckpointCodec ObjectKeys ObjectStore CommitProtocol LatestCheckpoint
open JsonText (digitChar_inj)

variable (codec : Codec) (run : String) (step : UInt64) (storagePath : String) (source : Source)
  (size : UInt64)

/-- `upload`, and what is left in the source when it returns. -/
def uploadLeaving : Flusher (Except FlushError Receipt × Bytes) := do
  let key := objectKey run step storagePath
  match ← ask (.stat key) with
  | .ok existing => do
    let r ← compareExisting codec key existing storagePath source size
    return (r, [])
  | .error e =>
    if notFound e = false then
      return (.error (.wrapped "stat immutable object" (.response e)), source.data)
    else
      let body := source.data.take size.toNat
      match ← ask (.put key size.toNat body) with
      | .ok etag =>
        return (.ok ⟨storagePath, size, codec.sha256 body, trimQuotes etag⟩,
          source.data.drop size.toNat)
      | .error failure =>
        -- what the client did not take is copied to `io.Discard`, and not to the hash
        let failed := FlushError.wrapped "upload immutable object" (.response failure.response)
        if preconditionFailed failure.response then
          match ← ask (.stat key) with
          | .ok existing => do
            let r ← compareExistingHash codec key existing storagePath size
              (codec.sha256 (body.take failure.consumed))
            return (r, [])
          | .error _ => return (.error failed, [])
        else return (.error failed, [])

theorem upload_eq : upload codec run step storagePath source size =
    (uploadLeaving codec run step storagePath source size >>= fun r => .done r.1) := by
  unfold upload uploadLeaving
  simp only [Program.perform_bind, Program.call_bind]
  congr 1
  funext r
  cases r with
  | ok existing => exact (Program.bind_pure_fst _ _).symm
  | error e =>
    dsimp only
    split
    · rfl
    · simp only [Program.call_bind]
      congr 1
      funext r
      cases r with
      | ok etag => rfl
      | error failure =>
        dsimp only
        split
        · simp only [Program.call_bind]
          congr 1
          funext r
          cases r with
          | ok existing => exact (Program.bind_pure_fst _ _).symm
          | error e => rfl
        · rfl

theorem outcome_upload (answer : StoreLog → (c : StoreCall) → StoreReply c) :
    outcome answer (upload codec run step storagePath source size) =
      (outcome answer (uploadLeaving codec run step storagePath source size)).1 := by
  rw [upload_eq, outcome, serve_bind]
  rfl

/-- A store in which another writer puts an object after the first look at its
key. The put is refused after the client has taken some bytes. -/
def racing (stored : Bytes) (etag : String) (missing refused : ErrorResponse) (taken : Nat)
    (log : StoreLog) : (c : StoreCall) → StoreReply c
  | .stat _ => if log.isEmpty then .error missing else .ok ⟨stored.length, etag⟩
  | .get _ none => .ok stored
  | .get _ (some (offset, length)) => .ok ((stored.drop offset.toNat).take length.toNat)
  | .put _ _ _ => .error ⟨refused, taken⟩
  | .now => ""
  | .order objects => ⟨objects, List.Perm.refl objects⟩

/-- The errors that say that the stored object is another one. -/
def Conflict (storagePath : String) (e : FlushError) : Prop :=
  e = .text ("immutable object " ++ quote storagePath ++ " already exists with a different length") ∨
    e = .text ("immutable object " ++ quote storagePath ++ " already exists with different bytes")

/-- What should come of an upload that lost the race: the source is read to its
end, the object of the other writer counts if it is the same, and is a conflict
if it is not. -/
structure Settles (stored : Bytes) (r : Except FlushError Receipt) (left : Bytes) : Prop where
  drained : left = []
  success : (∃ receipt, r = .ok receipt) ↔ stored = source.data
  receipt : ∀ receipt, r = .ok receipt → receipt.storagePath = storagePath ∧
    receipt.byteLength = size ∧ receipt.sha256 = codec.sha256 source.data
  conflict : stored ≠ source.data → ∃ e, r = .error e ∧ Conflict storagePath e

section Race

variable {stored : Bytes} {etag : String} {missing refused : ErrorResponse} {taken : Nat}

theorem racing_first (key : String) :
    racing stored etag missing refused taken [] (.stat key) = .error missing := rfl

theorem racing_put (log : StoreLog) (key : String) (n : Nat) (body : Bytes) :
    racing stored etag missing refused taken log (.put key n body) = .error ⟨refused, taken⟩ := rfl

theorem racing_later (log : StoreLog) (e : StoreEvent) (key : String) :
    racing stored etag missing refused taken (log ++ [e]) (.stat key) =
      .ok ⟨stored.length, etag⟩ := by
  simp [racing]

def compared (stored : Bytes) (etag wantedHash : String) : Except FlushError Receipt :=
  if stored.length ≠ size.toNat then
    .error (.text ("immutable object " ++ quote storagePath ++
      " already exists with a different length"))
  else if size = 0 then .error (.text "cannot hash an empty object range")
  else if codec.sha256 stored ≠ wantedHash then
    .error (.text ("immutable object " ++ quote storagePath ++
      " already exists with different bytes"))
  else .ok ⟨storagePath, size, wantedHash, trimQuotes etag⟩

theorem serve_hashRange (key : String) (log : StoreLog) (hlen : stored.length = size.toNat) :
    (serve (racing stored etag missing refused taken)
      (fun l c => l ++ [⟨c, racing stored etag missing refused taken l c⟩])
      (hashRange codec key 0 size) log).1 =
        if size = 0 then .error (.text "cannot hash an empty object range")
        else .ok (codec.sha256 stored) := by
  unfold hashRange
  split
  · rfl
  · have hall : stored.take size.toNat = stored := List.take_of_length_le hlen.le
    simp [serve, racing, hall, hlen]

theorem serve_compareExistingHash (key wantedHash : String) (log : StoreLog) :
    (serve (racing stored etag missing refused taken)
      (fun l c => l ++ [⟨c, racing stored etag missing refused taken l c⟩])
      (compareExistingHash codec key ⟨stored.length, etag⟩ storagePath size wantedHash) log).1 =
        compared codec storagePath size stored etag wantedHash := by
  unfold compareExistingHash compared
  split
  · rfl
  next hlen =>
    rw [serve_bind, serve_hashRange codec size key log (not_not.mp hlen)]
    by_cases hzero : size = 0
    · rw [if_pos hzero, if_pos hzero]
      rfl
    · rw [if_neg hzero, if_neg hzero]
      dsimp only
      split <;> rfl

/-- An upload that lost the race has compared the object of the other writer with
the bytes that the client took. -/
theorem outcome_racing (hmissing : notFound missing = true)
    (hrefused : preconditionFailed refused = true) :
    outcome (racing stored etag missing refused taken)
      (uploadLeaving codec run step storagePath source size) =
        (compared codec storagePath size stored etag
          (codec.sha256 ((source.data.take size.toNat).take taken)), []) := by
  unfold outcome uploadLeaving
  simp only [Program.perform_bind, serve, racing_first, racing_put, racing_later, hmissing,
    hrefused, if_true, Bool.true_eq_false, if_false]
  rw [serve_bind]
  exact congrArg (fun r => (r, [])) (serve_compareExistingHash codec storagePath size _ _ _)

end Race

theorem compared_ne {stored : Bytes} (etag : String) {wantedHash : String}
    (hlen : stored.length = size.toNat) (hzero : size ≠ 0) (hne : codec.sha256 stored ≠ wantedHash) :
    compared codec storagePath size stored etag wantedHash =
      .error (.text ("immutable object " ++ quote storagePath ++
        " already exists with different bytes")) := by
  rw [compared, if_neg (not_not.mpr hlen), if_neg hzero, if_pos hne]

section Comparison

variable {source size} {stored : Bytes} {etag : String} {taken : Nat}

theorem size_eq_zero_iff (hsize : source.data.length = size.toNat) :
    size = 0 ↔ source.data = [] := by
  rw [← List.length_eq_zero_iff, hsize, ← UInt64.toNat_inj]
  rfl

theorem compared_whole (hsize : source.data.length = size.toNat) (hne : source.data ≠ []) :
    compared codec storagePath size source.data etag (codec.sha256 source.data) =
      .ok ⟨storagePath, size, codec.sha256 source.data, trimQuotes etag⟩ := by
  have hzero : size ≠ 0 := mt (size_eq_zero_iff hsize).mp hne
  rw [compared, if_neg (not_not.mpr hsize), if_neg hzero, if_neg (not_not.mpr rfl)]

theorem whole_of_compared (hhash : Function.Injective codec.sha256)
    (hsize : source.data.length = size.toNat) (htaken : taken ≤ source.data.length)
    {receipt : Receipt} (h : compared codec storagePath size source.data etag
      (codec.sha256 (source.data.take taken)) = .ok receipt) :
    taken = source.data.length ∧ source.data ≠ [] := by
  have hzero : size ≠ 0 := by
    intro hz
    simp [compared, hsize, hz] at h
  refine ⟨?_, mt (size_eq_zero_iff hsize).mpr hzero⟩
  by_contra hshort
  have hdiff : codec.sha256 source.data ≠ codec.sha256 (source.data.take taken) := by
    intro heq
    have hlen := congrArg List.length (hhash heq)
    rw [List.length_take] at hlen
    omega
  rw [compared_ne codec storagePath size etag hsize hzero hdiff] at h
  cases h

theorem compared_conflict (hhash : Function.Injective codec.sha256)
    (hsize : source.data.length = size.toNat) (hother : stored ≠ source.data) (taken : Nat) :
    ∃ e, compared codec storagePath size stored etag (codec.sha256 (source.data.take taken)) =
      .error e ∧ Conflict storagePath e := by
  by_cases hlen : stored.length = size.toNat
  · have hzero : size ≠ 0 := by
      intro hz
      apply hother
      rw [(size_eq_zero_iff hsize).mp hz, ← List.length_eq_zero_iff, hlen, hz]
      rfl
    refine ⟨_, compared_ne codec storagePath size etag hlen hzero ?_, .inr rfl⟩
    -- a prefix as long as the source is the source
    intro heq
    have hstart := hhash heq
    rw [List.take_of_length_le] at hstart
    · exact hother hstart
    · rw [hstart, List.length_take] at hlen
      omega
  · exact ⟨_, if_pos hlen, .inl rfl⟩

end Comparison

/-- The upload compares the stored object with what the client took, not with
the whole source. An empty source has no range to hash. -/
theorem settles_iff (stored : Bytes) (etag : String) (missing refused : ErrorResponse) (taken : Nat)
    (hhash : Function.Injective codec.sha256) (hsize : source.data.length = size.toNat)
    (hmissing : notFound missing = true) (hrefused : preconditionFailed refused = true)
    (htaken : taken ≤ source.data.length) :
    Settles codec storagePath source size stored
      (outcome (racing stored etag missing refused taken)
        (upload codec run step storagePath source size))
      (outcome (racing stored etag missing refused taken)
        (uploadLeaving codec run step storagePath source size)).2 ↔
      (stored = source.data → taken = source.data.length ∧ source.data ≠ []) := by
  have hall : source.data.take size.toNat = source.data := List.take_of_length_le hsize.le
  rw [outcome_upload, outcome_racing codec run step storagePath source size hmissing hrefused, hall]
  constructor
  · rintro h rfl
    obtain ⟨receipt, hok⟩ := h.success.mpr rfl
    exact whole_of_compared codec storagePath hhash hsize htaken hok
  · intro hcond
    by_cases hsame : stored = source.data
    · obtain ⟨rfl, hne⟩ := hcond hsame
      rw [hsame, List.take_length, compared_whole codec storagePath hsize hne]
      refine ⟨rfl, iff_of_true ⟨_, rfl⟩ rfl, ?_, fun h => absurd rfl h⟩
      rintro receipt ⟨⟩
      exact ⟨rfl, rfl, rfl⟩
    · obtain ⟨e, he, hc⟩ := compared_conflict codec storagePath hhash hsize hsame taken
      rw [he]
      exact ⟨rfl, iff_of_false (by simp) hsame, by simp, fun _ => ⟨e, rfl, hc⟩⟩

section Samples

theorem hexDigits_injective : Function.Injective hexDigits := by
  intro a
  induction a with
  | nil =>
    intro b h
    cases b with
    | nil => rfl
    | cons y b => simp [hexDigits] at h
  | cons x a ih =>
    intro b h
    cases b with
    | nil => simp [hexDigits] at h
    | cons y b =>
      simp only [hexDigits, List.flatMap_cons, List.cons_append, List.nil_append,
        List.cons.injEq] at h
      obtain ⟨hhigh, hlow, hrest⟩ := h
      have hx := x.toNat_lt
      have hy := y.toNat_lt
      have hhigh := digitChar_inj (by omega) (by omega) hhigh
      have hlow := digitChar_inj (by omega) (by omega) hlow
      rw [ih hrest, UInt8.toNat_inj.mp (show x.toNat = y.toNat by omega)]

theorem sampleHash_injective : Function.Injective sampleHash := by
  have hstrip : ∀ data, (sampleHash data).toList.dropWhile (· == '0') = '1' :: hexDigits data := by
    intro data
    have hdigits : hexDigits (1 :: data) = '0' :: '1' :: hexDigits data := rfl
    rw [sampleHash, String.toList_ofList, hdigits, List.leftpad]
    generalize 64 - _ = n
    induction n with
    | zero => rfl
    | succ n ih => rwa [List.replicate_succ, List.cons_append, List.dropWhile_cons_of_pos rfl]
  intro a b h
  have hlists := hstrip a
  rw [h, hstrip b] at hlists
  exact (hexDigits_injective (List.cons.inj hlists).2).symm

def absent : ErrorResponse := ⟨"NoSuchKey", 404, ""⟩

def exists412 : ErrorResponse := ⟨"PreconditionFailed", 412, ""⟩

theorem settles_whole : Settles sampleCodec "w.bin" ⟨[7, 8], none⟩ 2 [7, 8]
    (outcome (racing [7, 8] "" absent exists412 2)
      (upload sampleCodec "run" 7 "w.bin" ⟨[7, 8], none⟩ 2))
    (outcome (racing [7, 8] "" absent exists412 2)
      (uploadLeaving sampleCodec "run" 7 "w.bin" ⟨[7, 8], none⟩ 2)).2 :=
  (settles_iff sampleCodec "run" 7 "w.bin" ⟨[7, 8], none⟩ 2 [7, 8] "" absent exists412 2
    sampleHash_injective rfl (by decide) (by decide) (by decide)).mpr (by decide)

/-- The same bytes are stored, but the put was refused before the client took
any: the upload reports a conflict. -/
theorem same_bytes_conflict : sampleCodec.sha256.Injective ∧
    ∃ e, outcome (racing [7, 8] "" absent exists412 0)
        (upload sampleCodec "run" 7 "w.bin" ⟨[7, 8], none⟩ 2) = .error e ∧
      Conflict "w.bin" e ∧ ∀ left, ¬ Settles sampleCodec "w.bin" ⟨[7, 8], none⟩ 2 [7, 8]
        (outcome (racing [7, 8] "" absent exists412 0)
          (upload sampleCodec "run" 7 "w.bin" ⟨[7, 8], none⟩ 2)) left := by
  have hne : sampleCodec.sha256 [7, 8] ≠ sampleCodec.sha256 [] := by decide +kernel
  have herror : outcome (racing [7, 8] "" absent exists412 0)
      (upload sampleCodec "run" 7 "w.bin" ⟨[7, 8], none⟩ 2) = .error (.text ("immutable object " ++
        quote "w.bin" ++ " already exists with different bytes")) := by
    rw [outcome_upload, outcome_racing _ _ _ _ _ _ (by decide) (by decide)]
    exact compared_ne sampleCodec "w.bin" 2 "" rfl (by decide) hne
  refine ⟨sampleHash_injective, _, herror, .inr rfl, ?_⟩
  intro left h
  obtain ⟨receipt, hok⟩ := h.success.mpr rfl
  rw [herror] at hok
  cases hok

end Samples

end HeteroCluster.UploadRaces
