import HeteroCluster.CheckpointServer
import HeteroCluster.StoreAccess

namespace HeteroCluster.ServerRequests

open GoStrings CallProgram ProgramEmbedding CheckpointManifest CheckpointCodec ObjectKeys
open ObjectStore StoreAccess CheckpointServer
open TransactionServer (Path)
open TransactionOwners (requestIdentity handleTransaction)
open CommitProtocol (streamPattern)
open KeySpaces (manifestKey)
open CommitEvidence (Shows Verified readBounded_keeps)

def runOf (request : HttpRequest) : String := (pathParts request).getD 2 ""

def stepOf (request : HttpRequest) : Option UInt64 := parseUint ((pathParts request).getD 3 "")

def objectOf (request : HttpRequest) : String := (pathParts request).getD 5 ""

structure Claims (request : HttpRequest) (log : ServerLog) (job : UInt64) (rank : Int) : Prop where
  sender : identity request = .ok (job, rank)
  valid : streamPattern (runOf request) = true
  claimed : (⟨.claimRun (runOf request) job, .ok ()⟩ : ServerEvent) ∈ log

/-- The request was given a ring of a transaction of its own. -/
def HasRing (request : HttpRequest) (log : ServerLog) (path : Path) : Prop :=
  ∃ name job rank, identity request = .ok (job, rank) ∧
    (⟨.stream request.transaction name job rank, .ok path⟩ : ServerEvent) ∈ log

/-- What a request of a rank writes: what it reads from its ring, or for rank zero
the manifest in its body, once its objects are verified, and then the marker. -/
inductive Writes (codec : Codec) (request : HttpRequest) (rank : Int) (log : ServerLog) :
    String → Bytes → Prop
  | upload {step : UInt64} {path : Path} {ring : OpenedRing} (hm : request.method = .put)
      (hs : stepOf request = some step) (hp : validStoragePath request.storagePath = true)
      (ho : (⟨.openRing path false, .ok ring⟩ : ServerEvent) ∈ log) :
      Writes codec request rank log (objectKey (runOf request) step request.storagePath)
        (ring.source.data.take ring.total.toNat)
  | manifest {step : UInt64} {manifest : Manifest} (hr : rank = 0)
      (hs : stepOf request = some step)
      (hm : commitManifest codec request.body (runOf request) step = .ok manifest)
      (hv : ∀ object ∈ manifest.objects,
        Verified codec (storeCalls.log log) (runOf request) step object) :
      Writes codec request rank log (manifestKey (runOf request) step) request.body.data
  | marker {step : UInt64} {manifest : Manifest} {body : Bytes} (hr : rank = 0)
      (hs : stepOf request = some step)
      (hm : commitManifest codec request.body (runOf request) step = .ok manifest)
      (hstored : Shows (storeCalls.log log) (manifestKey (runOf request) step) request.body.data) :
      Writes codec request rank log (markerKey (runOf request) step) body

/-- What the calls of a request are limited to, after those it has made. -/
def Permitted (codec : Codec) (request : HttpRequest) (log : ServerLog) : ServerEvent → Prop
  | ⟨.claimRun run job, _⟩ => run = runOf request ∧ job ≠ 0
  | ⟨.create create, _⟩ => identity request = .ok (create.job, create.rank)
  | ⟨.delete _ job rank, _⟩ => identity request = .ok (job, rank)
  | ⟨.stream _ _ job rank, _⟩ => identity request = .ok (job, rank)
  | ⟨.openRing path _, _⟩ => HasRing request log path
  | ⟨.writeRing path _, _⟩ => HasRing request log path
  | ⟨.list run, _⟩ => run = runOf request ∧ ∃ job rank, Claims request log job rank
  | ⟨.store c, _⟩ => ∃ job rank, Claims request log job rank ∧
      Within (InRun (runOf request)) (Writes codec request rank log) c

abbrev Keeps {α : Type} (codec : Codec) (request : HttpRequest) (p : Handler α) (log : ServerLog)
    (post : α → ServerLog → Prop) : Prop :=
  Ensures (fun _ _ => True) (Permitted codec request) p log post

/-- What a request has seen when it answers with a committed checkpoint. -/
structure Loaded (codec : Codec) (log : StoreLog) (run : String) (step : UInt64)
    (result : LatestResult) : Prop where
  marker : ∃ data, Shows log (markerKey run step) data ∧ checkMarker codec step data = .ok result.marker
  manifest : ∃ data, Shows log (manifestKey run step) data ∧
    checkManifest codec run step result.marker data = .ok result.manifest

/-- What a request has done when it answers that an object is restored: the range
was read, it has the hash in the manifest, and all of it went to the ring. -/
structure Restored (codec : Codec) (log : ServerLog) (run : String) (step : UInt64) (object : Object)
    (ring : Path) (content : Bytes) (receipt : Receipt) : Prop where
  read : (⟨.get (objectKey run step object.path) (some (object.offset, object.length)),
    .ok content⟩ : StoreEvent) ∈ storeCalls.log log
  whole : (content.take object.length.toNat).length = object.length.toNat
  hash : codec.sha256 (content.take object.length.toNat) = object.sha256
  written : (⟨.writeRing ring (content.take object.length.toNat), .ok ()⟩ : ServerEvent) ∈ log
  receipt : receipt = ⟨object.path, object.length, object.sha256, ""⟩

def Answered (codec : Codec) (request : HttpRequest) (response : Response) (log : ServerLog) : Prop :=
  ∀ receipt, request.method = .get → response = ⟨200, .receipt receipt⟩ →
    ∃ job rank step ring result object content, Claims request log job rank ∧
      stepOf request = some step ∧ HasRing request log ring ∧
      Loaded codec (storeCalls.log log) (runOf request) step result ∧
      result.manifest.object (objectOf request) = .ok object ∧
      Restored codec log (runOf request) step object ring content receipt

variable {codec : Codec} {request : HttpRequest} {log log' : ServerLog} {run : String}
  {step : UInt64} {job : UInt64} {rank : Int}

theorem Claims.mono (h : Claims request log job rank) (hl : log ⊆ log') :
    Claims request log' job rank :=
  ⟨h.sender, h.valid, hl h.claimed⟩

theorem HasRing.mono {path : Path} (h : HasRing request log path) (hl : log ⊆ log') :
    HasRing request log' path := by
  obtain ⟨name, job, rank, hi, hm⟩ := h
  exact ⟨name, job, rank, hi, hl hm⟩

theorem Loaded.mono {log log' : StoreLog} {result : LatestResult}
    (h : Loaded codec log run step result) (hl : log ⊆ log') :
    Loaded codec log' run step result := by
  obtain ⟨⟨m, hm, hcm⟩, d, hd, hcd⟩ := h
  exact ⟨⟨m, hm.mono hl, hcm⟩, d, hd.mono hl, hcd⟩

theorem job_ne_zero (h : identity request = .ok (job, rank)) : job ≠ 0 := by
  unfold identity requestIdentity at h
  split at h
  · cases h
  · split at h
    · cases h
    next hne =>
      split at h
      · cases h
      · split at h
        · cases h
        · cases h
          exact hne

section Store

theorem onStore_keeps {α : Type} {p : Flusher α} {good : StoreLog → StoreEvent → Prop}
    {post : α → StoreLog → Prop} (hc : Claims request log job rank)
    (h : Ensures (fun _ _ => True) good p (storeCalls.log log) post)
    (hg : ∀ l e, log ⊆ l → good (storeCalls.log l) e →
      Within (InRun (runOf request)) (Writes codec request rank l) e.1) :
    Keeps codec request (onStore p) log
      (fun a log' => log ⊆ log' ∧ post a (storeCalls.log log')) := by
  refine storeCalls.ensures_program h (fun _ _ _ _ _ => trivial) ?_
  intro l e e₀ hl hback hgood
  obtain ⟨c, r⟩ := e
  cases c with
  | store c =>
    cases hback
    exact ⟨job, rank, hc.mono hl, hg l ⟨c, r⟩ hl hgood⟩
  | _ => cases hback

theorem onStore_reads {α : Type} {p : Flusher α} (hc : Claims request log job rank)
    (h : p.Calls (Within (InRun (runOf request)) nowhere)) :
    Keeps codec request (onStore p) log (fun _ log' => log ⊆ log') :=
  (onStore_keeps hc (h.ensures _) fun _ _ _ hw =>
    hw.imp (fun _ hk => hk) (fun _ _ hno => hno.elim)).mono fun _ _ hp => hp.1

theorem loadCommitted_loaded (log : StoreLog) :
    CommitEvidence.Keeps codec (loadCommitted codec run step) log
      (fun r log' => ∀ result, r = .ok result → Loaded codec log' run step result) := by
  refine (readBounded_keeps _).bind fun r log₁ hmarker => ?_
  split
  · exact fun _ h => by cases h
  next data =>
    split
    · exact fun _ h => by cases h
    next marker hm =>
      refine (readBounded_keeps _).bind fun r log₂ hmanifest => ?_
      split
      · exact fun _ h => by cases h
      next bytes =>
        split
        · exact fun _ h => by cases h
        next manifest hd =>
          rintro result ⟨⟩
          exact ⟨⟨data, (hmarker.2 data rfl).mono hmanifest.1, hm⟩, bytes, hmanifest.2 bytes rfl, hd⟩

end Store

section Handlers

theorem answered_of_method {response : Response} (h : request.method ≠ .get) :
    Answered codec request response log :=
  fun _ hm _ => absurd hm h

theorem answered_error (status : Nat) (code : String) (message : FlushError) :
    Answered codec request (writeError status code message) log := by
  rintro receipt - ⟨⟩

theorem answered_of_body {status : Nat} {body : Body} (h : ∀ receipt, body ≠ .receipt receipt) :
    Answered codec request ⟨status, body⟩ log := by
  intro receipt _ he
  cases he
  exact absurd rfl (h receipt)

theorem handleLatest_keeps (hc : Claims request log job rank) :
    Keeps codec request (handleLatest codec request (runOf request)) log
      (Answered codec request) := by
  unfold handleLatest
  split
  · exact answered_error _ _ _
  · split
    · exact answered_error _ _ _
    · refine Ensures.perform (fun _ _ => ⟨rfl, job, rank, hc⟩) fun listing _ => ?_
      refine (onStore_reads (hc.mono (List.subset_append_left _ _)) (latest_calls _ _ _ _)).bind
        fun r _ _ => ?_
      split
      · exact answered_error _ _ _
      · exact answered_of_body nofun

theorem commitManifest_ok {body : Source} {manifest : Manifest}
    (h : commitManifest codec body run step = .ok manifest) :
    decodeManifest codec body.data = .ok manifest ∧ manifest.runID = run ∧
      manifest.globalStep = step := by
  unfold commitManifest at h
  split at h
  · cases h
  · split at h
    · cases h
    next decoded hd =>
      split at h
      · cases h
      next hroute =>
        obtain rfl := Except.ok.inj h
        push Not at hroute
        exact ⟨hd, hroute.1, hroute.2.1⟩

theorem handleCommit_keeps (hc : Claims request log job rank) (hs : stepOf request = some step) :
    Keeps codec request (handleCommit codec request (runOf request) step job rank) log
      (Answered codec request) := by
  unfold handleCommit
  split
  · exact answered_error _ _ _
  next hr =>
    split
    · exact answered_error _ _ _
    next manifest hm =>
      obtain ⟨-, hrun, hstep⟩ := commitManifest_ok hm
      have hcommit : Commits codec manifest request.body.data
          (commit codec request.body.data manifest job) (storeCalls.log log) (fun _ _ => True) :=
        commit_commits (hrun ▸ hc.valid) job
      refine (onStore_keeps hc hcommit ?_).bind fun r _ _ => ?_
      · intro l e hl hw
        unfold CommitCall CommitWrites at hw
        rw [hrun, hstep] at hw
        refine hw.imp (fun _ hk => ⟨step, hk⟩) ?_
        rintro key body (⟨rfl, rfl, hv⟩ | ⟨rfl, hstored⟩)
        · exact .manifest (not_not.mp hr) hs hm hv
        · exact .marker (not_not.mp hr) hs hm hstored
      · split
        · exact answered_error _ _ _
        · exact answered_of_body nofun

theorem putChunk_keeps {path : Path} (hc : Claims request log job rank)
    (hs : stepOf request = some step) (hring : HasRing request log path)
    (hm : request.method = .put) :
    Keeps codec request (putChunk codec request (runOf request) step path) log
      (Answered codec request) := by
  have hmethod : request.method ≠ .get := by
    rw [hm]
    decide
  unfold putChunk
  split
  · exact answered_error _ _ _
  next hp =>
    refine Ensures.perform (fun _ _ => hring) fun r _ => ?_
    split
    · exact answered_error _ _ _
    next ring =>
      refine (onStore_keeps (hc.mono (List.subset_append_left _ _))
        ((upload_calls _ _ _ _ _).ensures _) ?_).bind fun r _ _ => ?_
      · intro l e hl hw
        refine hw.imp (fun _ hk => ⟨step, hk⟩) ?_
        rintro key body ⟨rfl, rfl⟩
        exact .upload hm hs (by simpa using hp) (hl (List.mem_append_right _ List.mem_cons_self))
      · split
        · exact answered_error _ _ _
        · exact answered_of_method hmethod

theorem restore_keeps {object : Object} {path : Path} (hc : Claims request log job rank)
    (hring : HasRing request log path) (step : UInt64) :
    Keeps codec request (restore codec (runOf request) step object path) log
      (fun r log' => log ⊆ log' ∧ ∀ receipt, r = .ok receipt → ∃ content,
        Restored codec log' (runOf request) step object path content receipt) := by
  have hkey : InRun (runOf request) (objectKey (runOf request) step object.path) :=
    ⟨step, .inr ⟨_, rfl⟩⟩
  refine Ensures.perform (fun _ _ => ⟨job, rank, hc, hkey⟩) fun r _ => ?_
  split
  · exact ⟨List.subset_append_left _ _, nofun⟩
  next content =>
    refine Ensures.perform (fun _ _ => hring.mono (List.subset_append_left _ _)) fun r _ => ?_
    rw [List.append_assoc]
    have hsub : log ⊆ log ++ ([⟨.store (.get (objectKey (runOf request) step object.path)
        (some (object.offset, object.length))), .ok content⟩] ++
        [⟨.writeRing path (content.take object.length.toNat), r⟩]) := List.subset_append_left _ _
    split
    · exact ⟨hsub, nofun⟩
    · split
      · exact ⟨hsub, nofun⟩
      next hlen =>
        split
        · exact ⟨hsub, nofun⟩
        next hhash =>
          have hhash := not_not.mp hhash
          refine ⟨hsub, ?_⟩
          rintro receipt ⟨⟩
          refine ⟨content, ?_, not_not.mp hlen, hhash, by simp, by rw [hhash]⟩
          refine storeCalls.mem_log.mpr ⟨_, List.mem_append_right _ List.mem_cons_self, rfl⟩

theorem getChunk_keeps {path : Path} (hc : Claims request log job rank)
    (hs : stepOf request = some step) (hring : HasRing request log path) :
    Keeps codec request (getChunk codec (runOf request) step (objectOf request) path) log
      (Answered codec request) := by
  unfold getChunk
  refine (onStore_keeps hc (((loadCommitted_calls (runOf request) step).ensures _).and
    (loadCommitted_loaded (storeCalls.log log))) ?_).bind fun r log₁ hpost => ?_
  · intro l e _ hw
    exact hw.1.imp (fun _ hk => ⟨step, hk⟩) (fun _ _ hno => hno.elim)
  obtain ⟨hsub₁, -, hloaded⟩ := hpost
  split
  · exact answered_error _ _ _
  next result =>
    split
    · exact answered_error _ _ _
    next object hobject =>
      split
      · exact answered_error _ _ _
      · refine Ensures.perform (fun _ _ => hring.mono hsub₁) fun r _ => ?_
        split
        · exact answered_error _ _ _
        next ring =>
          split
          · exact answered_error _ _ _
          · have hsub₂ := List.Subset.trans hsub₁
              (List.subset_append_left log₁ [⟨.openRing path true, .ok ring⟩])
            refine (restore_keeps (hc.mono hsub₂) (hring.mono hsub₂) step).bind fun r log₃ hpost => ?_
            obtain ⟨hsub₃, hrestored⟩ := hpost
            split
            · exact answered_error _ _ _
            next receipt =>
              have hsub := List.Subset.trans hsub₂ hsub₃
              rintro receipt' - ⟨⟩
              obtain ⟨content, hcontent⟩ := hrestored receipt rfl
              exact ⟨job, rank, step, path, result, object, content, hc.mono hsub, hs,
                hring.mono hsub, (hloaded result rfl).mono (storeCalls.log_subset
                  (List.Subset.trans (List.subset_append_left log₁ _) hsub₃)), hobject, hcontent⟩

theorem handleChunk_keeps (hc : Claims request log job rank) (hs : stepOf request = some step) :
    Keeps codec request (handleChunk codec request (runOf request) step (objectOf request) job rank)
      log (Answered codec request) := by
  unfold handleChunk
  refine Ensures.perform (fun _ _ => hc.sender) fun r _ => ?_
  split
  · exact answered_error _ _ _
  next path =>
    have hc' := hc.mono (List.subset_append_left log
      [⟨.stream request.transaction request.stream job rank, .ok path⟩])
    have hring : HasRing request (log ++
        [⟨.stream request.transaction request.stream job rank, .ok path⟩]) path :=
      ⟨request.stream, job, rank, hc.sender, by simp⟩
    split
    next hm => exact putChunk_keeps hc' hs hring hm
    · exact getChunk_keeps hc' hs hring
    · exact answered_error _ _ _

theorem handleRun_cases (codec : Codec) (request : HttpRequest) (job : UInt64) (rank : Int) :
    (∃ status code message, handleRun codec request (pathParts request) (runOf request) job rank =
      .done (writeError status code message)) ∨
    handleRun codec request (pathParts request) (runOf request) job rank =
      handleLatest codec request (runOf request) ∨
    ∃ step, stepOf request = some step ∧
      (handleRun codec request (pathParts request) (runOf request) job rank =
        handleChunk codec request (runOf request) step (objectOf request) job rank ∨
      handleRun codec request (pathParts request) (runOf request) job rank =
        handleCommit codec request (runOf request) step job rank) := by
  unfold handleRun
  split
  · exact .inr (.inl rfl)
  · split
    · exact .inl ⟨_, _, _, rfl⟩
    · split
      · exact .inl ⟨_, _, _, rfl⟩
      next step hs =>
        split
        · exact .inr (.inr ⟨step, hs, .inl rfl⟩)
        · split
          · exact .inr (.inr ⟨step, hs, .inr rfl⟩)
          · exact .inl ⟨_, _, _, rfl⟩

theorem handleRun_keeps (hc : Claims request log job rank) :
    Keeps codec request (handleRun codec request (pathParts request) (runOf request) job rank) log
      (Answered codec request) := by
  have hcases := handleRun_cases codec request job rank
  generalize handleRun codec request (pathParts request) (runOf request) job rank = p at hcases ⊢
  obtain ⟨status, code, message, rfl⟩ | rfl | ⟨step, hs, rfl | rfl⟩ := hcases
  · exact answered_error status code message
  · exact handleLatest_keeps hc
  · exact handleChunk_keeps hc hs
  · exact handleCommit_keeps hc hs

theorem handleCheckpoint_cases (codec : Codec) (request : HttpRequest) :
    (∃ status code message, handleCheckpoint codec request (pathParts request) =
      .done (writeError status code message)) ∨
    ∃ job rank next, identity request = .ok (job, rank) ∧ streamPattern (runOf request) = true ∧
      handleCheckpoint codec request (pathParts request) =
        .call (.claimRun (runOf request) job) next ∧
      (∀ e, next (.error e) = .done (writeError 403 "run_owner_mismatch" (.text e))) ∧
      next (.ok ()) = handleRun codec request (pathParts request) (runOf request) job rank := by
  unfold handleCheckpoint
  split
  · exact .inl ⟨_, _, _, rfl⟩
  next job rank hi =>
    dsimp only
    split
    · exact .inl ⟨_, _, _, rfl⟩
    next hv =>
      exact .inr ⟨job, rank, _, hi, Bool.eq_true_of_not_eq_false hv, rfl, fun _ => rfl, rfl⟩

theorem handleCheckpoint_keeps : Keeps codec request
    (handleCheckpoint codec request (pathParts request)) log (Answered codec request) := by
  have hcases := handleCheckpoint_cases codec request
  generalize handleCheckpoint codec request (pathParts request) = p at hcases ⊢
  obtain ⟨status, code, message, rfl⟩ | ⟨job, rank, next, hi, hv, rfl, herror, hok⟩ := hcases
  · exact answered_error status code message
  · intro r _
    refine ⟨⟨rfl, job_ne_zero hi⟩, ?_⟩
    cases r with
    | error e =>
      rw [herror]
      exact answered_error _ _ _
    | ok u =>
      rw [hok]
      exact handleRun_keeps ⟨hi, hv, List.mem_append_right _ List.mem_cons_self⟩

theorem handleTransaction_sender (http : TransactionOwners.HttpRequest) :
    (∀ create, handleTransaction http = .create create →
      requestIdentity http = .ok (create.job, create.rank)) ∧
    ∀ id job rank, handleTransaction http = .delete id job rank →
      requestIdentity http = .ok (job, rank) := by
  unfold handleTransaction
  split
  · split
    · simp
    · split
      · simp
      next job rank hi =>
        split
        · split
          · simp
          · simp [hi]
        · simp [hi]
        · simp
  · simp

theorem serveTransaction_keeps (parts : List String) :
    Keeps codec request (serveTransaction request parts) log (Answered codec request) := by
  obtain ⟨hcreate, hdelete⟩ := handleTransaction_sender (request.forTransaction parts)
  unfold serveTransaction
  split
  · exact answered_error _ _ _
  next create hr =>
    refine Ensures.perform (fun _ _ => hcreate create hr) fun r _ => ?_
    split
    · exact answered_error _ _ _
    · exact answered_of_body nofun
  next id job rank hr =>
    refine Ensures.perform (fun _ _ => hdelete id job rank hr) fun r _ => ?_
    split
    · exact answered_error _ _ _
    · exact answered_of_body nofun

theorem serveHTTP_cases (codec : Codec) (request : HttpRequest) :
    serveHTTP codec request = .done (writeError 404 "not_found" (.text "unknown endpoint")) ∨
    serveHTTP codec request = serveTransaction request (pathParts request) ∨
    serveHTTP codec request = handleCheckpoint codec request (pathParts request) := by
  unfold serveHTTP route
  split
  · exact .inr (.inl rfl)
  · split
    · exact .inr (.inr rfl)
    · exact .inl rfl

theorem serveHTTP_keeps (codec : Codec) (request : HttpRequest) :
    Keeps codec request (serveHTTP codec request) [] (Answered codec request) := by
  have hcases := serveHTTP_cases codec request
  generalize serveHTTP codec request = p at hcases ⊢
  obtain rfl | rfl | rfl := hcases
  · exact answered_error _ _ _
  · exact serveTransaction_keeps _
  · exact handleCheckpoint_keeps

end Handlers

end HeteroCluster.ServerRequests
