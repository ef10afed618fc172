import HeteroCluster.CommitEvidence
import HeteroCluster.Interleaving

namespace HeteroCluster.CommitProtocol

open GoStrings FailFast CallProgram Interleaving CheckpointManifest CheckpointCodec ObjectKeys
open ObjectStore CommitEvidence

def streamPattern : String → Bool :=
  hasForm isAlnum (fun c => isAlnum c || c == '.' || c == '_' || c == '-') 127

structure UploadRequest where
  run : String
  step : UInt64
  storagePath : String
  source : Source
  size : UInt64
  runValid : streamPattern run = true
  pathValid : validStoragePath storagePath = true

structure CommitRequest (codec : Codec) where
  data : Bytes
  manifest : Manifest
  jobID : UInt64
  decoded : decodeManifest codec data = .ok manifest

inductive Request (codec : Codec) where
  | upload (r : UploadRequest)
  | commit (r : CommitRequest codec)

inductive Outcome where
  | uploaded (r : Except FlushError Receipt)
  | committed (r : Except FlushError CommitMarker)

def flush (codec : Codec) : Request codec → Flusher Outcome
  | .upload r => do return .uploaded (← upload codec r.run r.step r.storagePath r.source r.size)
  | .commit r => do return .committed (← commit codec r.data r.manifest r.jobID)

def Fact : StoreEvent → Store String Bytes → Prop
  | ⟨.stat key, .ok info⟩, s => ∃ content, s key = some content ∧ content.length = info.size
  | ⟨.get key none, .ok data⟩, s => s key = some data
  | ⟨.get key (some (offset, length)), .ok data⟩, s =>
    ∃ content, s key = some content ∧ data = (content.drop offset.toNat).take length.toNat
  | ⟨.put key _ body, .ok _⟩, s => s key = some body
  | _, _ => True

/-- The range of an object lies in what is stored, and has the stated hash. -/
def StoredObject (codec : Codec) (s : Store String Bytes) (run : String) (step : UInt64)
    (object : Object) : Prop :=
  ∃ content, s (objectKey run step object.path) = some content ∧
    object.offset.toNat + object.length.toNat ≤ content.length ∧
    codec.sha256 ((content.drop object.offset.toNat).take object.length.toNat) = object.sha256

/-- A manifest that is stored together with all it refers to. -/
structure Complete (codec : Codec) (s : Store String Bytes) (data : Bytes) (manifest : Manifest) :
    Prop where
  stored : s (objectKey manifest.runID manifest.globalStep "manifest.json") = some data
  decoded : decodeManifest codec data = .ok manifest
  optimizer : ∃ optimizer state,
    s (objectKey manifest.runID manifest.globalStep
      manifest.state.optimizerMetadata.storagePath) = some optimizer ∧
    decodeOptimizerState codec optimizer manifest = .ok state
  objects : ∀ object ∈ manifest.objects,
    StoredObject codec s manifest.runID manifest.globalStep object

/-- The content of a marker refers to a complete manifest of its run and step. -/
def Committed (codec : Codec) (s : Store String Bytes) (run : String) (step : UInt64)
    (content : Bytes) : Prop :=
  ∃ marker data manifest, codec.decodeMarkerJSON content = .ok marker ∧
    manifest.runID = run ∧ manifest.globalStep = step ∧
    codec.sha256 data = marker.manifestSHA256 ∧ Complete codec s data manifest

def MarkersCommitted (codec : Codec) (s : Store String Bytes) : Prop :=
  ∀ run step content, idPattern run = true → s (markerKey run step) = some content →
    Committed codec s run step content

variable {codec : Codec} {s s' : Store String Bytes} {e : StoreEvent} {log : StoreLog}
variable {run : String} {step : UInt64} {data : Bytes} {manifest : Manifest}

theorem Fact.mono (h : Fact e s) (hs : Extends s s') : Fact e s' := by
  unfold Fact at h ⊢
  split at h
  · obtain ⟨content, hc, hl⟩ := h
    exact ⟨content, hs _ _ hc, hl⟩
  · exact hs _ _ h
  · obtain ⟨content, hc, hl⟩ := h
    exact ⟨content, hs _ _ hc, hl⟩
  · exact hs _ _ h
  · trivial

theorem Serves.fact (h : Serves s e s') : Fact e s' := by
  cases h with
  | stat h etag => exact ⟨_, h, rfl⟩
  | get h => exact h
  | getRange h offset length => exact ⟨_, h, rfl⟩
  | put h body etag => exact insert_self s _ body
  | getFailed key range e => cases range <;> trivial
  | _ => trivial

theorem StoredObject.mono {object : Object} (h : StoredObject codec s run step object)
    (hs : Extends s s') : StoredObject codec s' run step object := by
  obtain ⟨content, hc, hle, hh⟩ := h
  exact ⟨content, hs _ _ hc, hle, hh⟩

theorem Complete.mono (h : Complete codec s data manifest) (hs : Extends s s') :
    Complete codec s' data manifest where
  stored := hs _ _ h.stored
  decoded := h.decoded
  optimizer := by
    obtain ⟨optimizer, state, hc, hd⟩ := h.optimizer
    exact ⟨optimizer, state, hs _ _ hc, hd⟩
  objects := fun object ho => (h.objects object ho).mono hs

theorem Committed.mono {content : Bytes} (h : Committed codec s run step content)
    (hs : Extends s s') : Committed codec s' run step content := by
  obtain ⟨marker, data, manifest, hm, hr, hst, hh, hc⟩ := h
  exact ⟨marker, data, manifest, hm, hr, hst, hh, hc.mono hs⟩

theorem stored_of_shows {key : String} (hf : ∀ e ∈ log, Fact e s) (h : Shows log key data) :
    s key = some data := by
  obtain hg | ⟨size, etag, hp⟩ := h
  · exact hf _ hg
  · exact hf _ hp

theorem storedObject_of_verified {object : Object} (hf : ∀ e ∈ log, Fact e s)
    (h : Verified codec log run step object) : StoredObject codec s run step object := by
  obtain ⟨info, content, hstat, hget, hle, hh⟩ := h
  obtain ⟨stored, hs, hlen⟩ := hf _ hstat
  obtain ⟨stored', hs', hcontent⟩ := hf _ hget
  obtain rfl : stored = stored' := Option.some.inj (hs.symm.trans hs')
  refine ⟨stored, hs, by omega, ?_⟩
  rw [hcontent, List.take_take, Nat.min_self] at hh
  exact hh

theorem complete_of_ready (hf : ∀ e ∈ log, Fact e s) (hd : decodeManifest codec data = .ok manifest)
    (h : Ready codec log data manifest) : Complete codec s data manifest where
  stored := stored_of_shows hf h.stored
  decoded := hd
  optimizer := by
    obtain ⟨optimizer, state, hs, ho⟩ := h.optimizer
    exact ⟨optimizer, state, stored_of_shows hf hs, ho⟩
  objects := fun object ho => storedObject_of_verified hf (h.objects object ho)

theorem MarkersCommitted.insert {key : String} {body : Bytes} (h : MarkersCommitted codec s)
    (hf : ∀ e ∈ log, Fact e s) (hn : s key = none) (hp : Permitted codec log key body) :
    MarkersCommitted codec (insert s key body) := by
  have hext := insert_extends hn body
  intro run step content hr hc
  by_cases hk : markerKey run step = key
  · subst hk
    rw [insert_self, Option.some.injEq] at hc
    generalize hkey : markerKey run step = key at hp
    cases hp with
    | object hr' step' path body => exact absurd hkey (markerKey_ne_objectKey hr hr')
    | @marker data manifest marker hd hv hh hready =>
      have hr' := runID_of_valid (decodeManifest_valid codec hd)
      obtain ⟨rfl, rfl⟩ := markerKey_injective hr hr' hkey
      subst hc
      exact ⟨marker, data, manifest, codec.decode_marshal marker hv, rfl, rfl, hh.symm,
        (complete_of_ready hf hd hready).mono hext⟩
  · rw [insert_of_ne s body hk] at hc
    exact (h run step content hr hc).mono hext

section Flushers

variable {κ : Type} [DecidableEq κ] {requests : κ → Request codec}
variable {t : κ → Thread StoreReply Outcome}

def Invariant (codec : Codec) (s : Store String Bytes) (logs : κ → StoreLog) : Prop :=
  (∀ k, ∀ e ∈ logs k, Fact e s) ∧ MarkersCommitted codec s

theorem Invariant.call {logs : κ → StoreLog} {k : κ} (h : Invariant codec s logs)
    (hg : Good codec (logs k) e) (hs : Serves s e s') :
    Invariant codec s' (Function.update logs k (logs k ++ [e])) := by
  constructor
  · intro j f hf
    obtain hf | ⟨-, rfl⟩ := mem_update_snoc.mp hf
    · exact (h.1 j f hf).mono hs.extends
    · exact Serves.fact hs
  · obtain rfl | ⟨key, body, r, rfl, hn, rfl⟩ := Serves.cases_put hs
    · exact h.2
    · exact h.2.insert (h.1 k) hn hg

/-- A request that ended with a marker has seen its manifest stored. -/
def Returned (r : Request codec) (outcome : Outcome) (log : StoreLog) : Prop :=
  ∀ c marker, r = .commit c → outcome = .committed (.ok marker) →
    Shows log (objectKey c.manifest.runID c.manifest.globalStep "manifest.json") c.data

theorem flush_keeps (r : Request codec) : Keeps codec (flush codec r) [] (Returned r) := by
  cases r with
  | upload r =>
    apply (upload_keeps r.runValid r.step r.storagePath r.source r.size).bind
    rintro receipt log - c marker ⟨⟩
  | commit r =>
    apply (commit_keeps r.jobID r.decoded).bind
    rintro outcome log hc c marker ⟨⟩ ⟨⟩
    exact hc marker rfl

theorem invariant_of_reach
    (h : Reach Serves (fun _ _ => False) (fun _ => none) (fun k => flush codec (requests k)) s t) :
    Invariant codec s (fun k => (t k).log) := by
  apply h.invariant (fun k => flush_keeps (requests k)) (Invariant codec)
  · exact ⟨by simp, by simp [MarkersCommitted]⟩
  · intro _ _ _ _ hno
    exact hno.elim
  · intro s s' logs k e hI hg hs
    exact hI.call hg hs

theorem extends_of_reach {s₀ : Store String Bytes} {p : κ → Flusher Outcome}
    (h : Reach Serves (fun _ _ => False) s₀ p s t) : Extends s₀ s := by
  induction h with
  | start => exact Extends.refl _
  | interfere _ hno => exact hno.elim
  | call r _ _ hs ih => exact ih.trans hs.extends

end Flushers

/-- In every interleaving of uploads and commits, stopped anywhere: what is
stored stays, a marker refers to a complete manifest, and commits of one step
that returned a marker carried the same bytes. -/
theorem commit_protocol {κ : Type} [DecidableEq κ] (requests : κ → Request codec)
    {t : κ → Thread StoreReply Outcome}
    (h : Reach Serves (fun _ _ => False) (fun _ => none) (fun k => flush codec (requests k)) s t) :
    (∀ s' t', Reach Serves (fun _ _ => False) s (fun k => (t k).rest) s' t' → Extends s s') ∧
    (∀ run step content, idPattern run = true → s (markerKey run step) = some content →
      Committed codec s run step content) ∧
    ∀ k k' c c' marker marker', requests k = .commit c → requests k' = .commit c' →
      c.manifest.runID = c'.manifest.runID → c.manifest.globalStep = c'.manifest.globalStep →
      (t k).rest = .done (.committed (.ok marker)) →
      (t k').rest = .done (.committed (.ok marker')) → c.data = c'.data := by
  obtain ⟨hfacts, hmarkers⟩ := invariant_of_reach h
  have hstored : ∀ k c marker, requests k = .commit c →
      (t k).rest = .done (.committed (.ok marker)) →
      s (objectKey c.manifest.runID c.manifest.globalStep "manifest.json") = some c.data := by
    intro k c marker hk hdone
    have hr := h.ensures (fun k => flush_keeps (requests k)) k
    rw [hdone] at hr
    exact stored_of_shows (hfacts k) (hr c marker hk rfl)
  refine ⟨?_, hmarkers, ?_⟩
  · intro s' t' hnext
    exact extends_of_reach hnext
  · intro k k' c c' marker marker' hk hk' hrun hstep hdone hdone'
    have h1 := hstored k c marker hk hdone
    have h2 := hstored k' c' marker' hk' hdone'
    rw [hrun, hstep, h2] at h1
    exact (Option.some.inj h1).symm

def reliable (s : Store String Bytes) : (c : StoreCall) → StoreReply c × Store String Bytes
  | .stat key => match s key with
    | some content => (.ok ⟨content.length, ""⟩, s)
    | none => (.error ⟨"NoSuchKey", 404, ""⟩, s)
  | .get key none => match s key with
    | some content => (.ok content, s)
    | none => (.error ⟨"NoSuchKey", 404, ""⟩, s)
  | .get key (some (offset, length)) => match s key with
    | some content => (.ok ((content.drop offset.toNat).take length.toNat), s)
    | none => (.error ⟨"NoSuchKey", 404, ""⟩, s)
  | .put key size body => match s key with
    | some _ => (.error ⟨⟨"PreconditionFailed", 412, ""⟩, 0⟩, s)
    | none =>
      if size = body.length then (.ok "", insert s key body)
      else (.error ⟨⟨"IncompleteBody", 400, ""⟩, body.length⟩, s)
  | .now => ("2026-01-01T00:00:00Z", s)
  | .order objects => (⟨objects, List.Perm.refl objects⟩, s)

theorem reliable_serves (s : Store String Bytes) (c : StoreCall) :
    Serves s ⟨c, (reliable s c).1⟩ (reliable s c).2 := by
  cases c with
  | stat key =>
    cases hk : s key with
    | none => simpa only [reliable, hk] using .statFailed s key _
    | some content => simpa only [reliable, hk] using .stat hk ""
  | get key range =>
    obtain - | ⟨offset, length⟩ := range
    · cases hk : s key with
      | none => simpa only [reliable, hk] using .getFailed s key none _
      | some content => simpa only [reliable, hk] using .get hk
    · cases hk : s key with
      | none => simpa only [reliable, hk] using .getFailed s key _ _
      | some content => simpa only [reliable, hk] using .getRange hk offset length
  | put key size body =>
    cases hk : s key with
    | some content => simpa only [reliable, hk] using .putFailed s key size body _
    | none =>
      by_cases hsize : size = body.length
      · subst hsize
        simpa only [reliable, hk, if_true] using .put hk body ""
      · simpa only [reliable, hk, if_neg hsize] using .putFailed s key size body _
  | now => exact .now s _
  | order objects => exact .order s objects _

def encodeNumbers (numbers : List Nat) : Bytes := numbers.flatMap (fun n => List.replicate n 1 ++ [0])

def decodeNumbers : Bytes → Nat → List Nat
  | [], _ => []
  | b :: rest, n => if b = 0 then n :: decodeNumbers rest 0 else decodeNumbers rest (n + 1)

theorem decode_replicate (n m : Nat) (rest : Bytes) :
    decodeNumbers (List.replicate n 1 ++ 0 :: rest) m = (m + n) :: decodeNumbers rest 0 := by
  induction n generalizing m with
  | zero => simp [decodeNumbers]
  | succ n ih =>
    have hstep : decodeNumbers (List.replicate (n + 1) 1 ++ 0 :: rest) m =
        decodeNumbers (List.replicate n 1 ++ 0 :: rest) (m + 1) := by
      simp [List.replicate_succ, decodeNumbers]
    rw [hstep, ih]
    congr 1
    omega

theorem decode_encode (numbers : List Nat) : decodeNumbers (encodeNumbers numbers) 0 = numbers := by
  induction numbers with
  | nil => rfl
  | cons n numbers ih =>
    have hsplit : encodeNumbers (n :: numbers) =
        List.replicate n 1 ++ 0 :: encodeNumbers numbers := by
      simp [encodeNumbers]
    rw [hsplit, decode_replicate, ih, Nat.zero_add]

def markerNumbers (marker : CommitMarker) : List Nat :=
  [marker.checkpointVersion.toNat, marker.globalStep.toNat, marker.slurmJobID.toNat,
    marker.manifestSHA256.toList.length] ++
    (marker.manifestSHA256.toList ++ marker.committedAt.toList).map Char.toNat

def markerOfNumbers : List Nat → Except String CommitMarker
  | v :: step :: job :: n :: chars =>
    .ok ⟨v, UInt64.ofNat step, String.ofList ((chars.take n).map Char.ofNat),
      String.ofList ((chars.drop n).map Char.ofNat), UInt64.ofNat job⟩
  | _ => .error "invalid marker"

theorem markerOfNumbers_markerNumbers (marker : CommitMarker)
    (h : marker.checkpointVersion = version) :
    markerOfNumbers (markerNumbers marker) = .ok marker := by
  obtain ⟨v, step, hash, time, job⟩ := marker
  obtain rfl : v = 2 := h
  simp [markerOfNumbers, markerNumbers, Function.comp_def]

def hexDigits (data : Bytes) : List Char :=
  data.flatMap (fun b => [(b.toNat / 16).digitChar, (b.toNat % 16).digitChar])

/-- Stands in for SHA-256: the content itself, padded to the length of a hash. -/
def sampleHash (data : Bytes) : String := String.ofList (List.leftpad 64 '0' (hexDigits (1 :: data)))

def sampleManifest : Manifest :=
  singleRank ⟨[("w", ⟨"model_parameter", [1], "int8", "little", "C", none,
    [⟨"w.0", "w.bin", [(0, 1)], [1], 0, 1, sampleHash [7], 0⟩]⟩)], by decide⟩ 1
    ⟨"optimizer_state.json", 1, sampleHash [1]⟩ ⟨"rng/0.bin", 1, sampleHash [2]⟩

def sampleCodec : Codec where
  decodeManifestJSON data := if data = [42] then .ok sampleManifest else .error "invalid"
  decodeOptimizerJSON data := if data = [1] then .ok ⟨1, [], ⟨[], by decide⟩⟩ else .error "invalid"
  decodeMarkerJSON data := markerOfNumbers (decodeNumbers data 0)
  marshalMarker marker := encodeNumbers (markerNumbers marker)
  parseTime _ := .ok ()
  sha256 := sampleHash
  decode_marshal marker h := by rw [decode_encode, markerOfNumbers_markerNumbers marker h]

theorem decode_sampleManifest : decodeManifest sampleCodec [42] = .ok sampleManifest := by
  have hv : sampleManifest.validate sampleCodec.parseTime = .ok () := by decide +kernel
  simp only [decodeManifest, bind_eq_ok, exists_unit, pure_eq_ok, refuse_eq_ok, mapError_eq_ok]
  exact ⟨by decide, sampleManifest, rfl, hv, rfl⟩

def sampleUpload (path : String) (h : validStoragePath path = true) (b : UInt8) :
    Request sampleCodec :=
  .upload ⟨"run", 7, path, ⟨[b], none⟩, 1, by decide +kernel, h⟩

def sampleRequests : Fin 4 → Request sampleCodec
  | 0 => sampleUpload "w.bin" (by decide +kernel) 7
  | 1 => sampleUpload "optimizer_state.json" (by decide +kernel) 1
  | 2 => sampleUpload "rng/0.bin" (by decide +kernel) 2
  | 3 => .commit ⟨[42], sampleManifest, 1, decode_sampleManifest⟩

def sampleMoves : List (Fin 4 ⊕ (Store String Bytes → Store String Bytes)) :=
  [0, 0, 1, 1, 2, 2].map .inl ++ List.replicate 13 (.inl 3)

def sampleRun : Store String Bytes × (Fin 4 → Thread StoreReply Outcome) :=
  play reliable (fun _ => none) (fun k => flush sampleCodec (sampleRequests k)) sampleMoves

theorem sampleRun_reach : Reach Serves (fun _ _ => False) (fun _ => none)
    (fun k => flush sampleCodec (sampleRequests k)) sampleRun.1 sampleRun.2 := by
  apply play_reach reliable_serves sampleMoves
  intro f hf
  simp [sampleMoves] at hf

theorem commit_protocol_sampleRun : ∃ content, sampleRun.1 (markerKey "run" 7) = some content ∧
    Committed sampleCodec sampleRun.1 "run" 7 content := by
  have hsome : (sampleRun.1 (markerKey "run" 7)).isSome = true := by decide +kernel
  obtain ⟨content, hc⟩ := Option.isSome_iff_exists.mp hsome
  have hall := commit_protocol sampleRequests sampleRun_reach
  exact ⟨content, hc, hall.2.1 "run" 7 content (by decide +kernel) hc⟩

end HeteroCluster.CommitProtocol
