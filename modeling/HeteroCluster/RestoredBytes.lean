import HeteroCluster.LatestCheckpoint
import HeteroCluster.ServerIsolation

namespace HeteroCluster.RestoredBytes

open GoStrings CallProgram Interleaving CheckpointManifest CheckpointCodec ObjectKeys ObjectStore
open CheckpointServer ServerRequests ServerIsolation
open TransactionServer (Config Path ringPath directory)
open KeySpaces (manifestKey)
open CommitProtocol (Fact stored_of_shows)

variable {κ ω : Type} [DecidableEq κ] [DecidableEq ω] {cfg : ω → Config} {codec : Codec}
variable {host : κ → ω} {requests : κ → HttpRequest} {s : Cluster ω}
variable {t : κ → Thread (@ClusterReply ω) Response} {j k : κ}

/-- The bytes of an object of the manifest, in the content it points to. -/
def rangeOf (object : Object) (content : Bytes) : Bytes :=
  (content.drop object.offset.toNat).take object.length.toNat

theorem take_rangeOf (object : Object) (content : Bytes) :
    (rangeOf object content).take object.length.toNat = rangeOf object content := by
  rw [rangeOf, List.take_take, Nat.min_self]

/-- A request has sent the bytes to the store, as it read them from its ring. -/
structure UploadedBy (host : κ → ω) (requests : κ → HttpRequest)
    (t : κ → Thread (@ClusterReply ω) Response) (j : κ) (run : String) (step : UInt64) (path : String)
    (content : Bytes) : Prop where
  method : (requests j).method = .put
  ownRun : runOf (requests j) = run
  ownStep : stepOf (requests j) = some step
  ownPath : (requests j).storagePath = path
  read : ∃ place ring, (⟨.openRing place false, .ok ring⟩ : ServerEvent) ∈ seen host t j ∧
    content = ring.source.data.take ring.total.toNat

/-- A request of rank zero has committed the manifest in its body. -/
structure CommittedBy (codec : Codec) (requests : κ → HttpRequest) (j : κ) (job : UInt64)
    (run : String) (step : UInt64) (manifest : Manifest) : Prop where
  sender : identity (requests j) = .ok (job, 0)
  ownRun : runOf (requests j) = run
  ownStep : stepOf (requests j) = some step
  ownManifest : commitManifest codec (requests j).body run step = .ok manifest

omit [DecidableEq κ] [DecidableEq ω] in
theorem same_job {logs : κ → ServerLog} {job job' : UInt64} {rank rank' : Int}
    (h : Sound cfg codec host requests s logs) (hj : Claims (requests j) (logs j) job rank)
    (hk : Claims (requests k) (logs k) job' rank') (hrun : runOf (requests j) = runOf (requests k))
    (hw : host j = host k) : job = job' := by
  have hjob := (h.owners j _ job hj.claimed).1
  rw [hrun, hw, (h.owners k _ job' hk.claimed).1] at hjob
  exact hjob.symm

omit [DecidableEq κ] [DecidableEq ω] in
theorem committed_of_marker {logs : κ → ServerLog} {run : String} {step : UInt64} {content : Bytes}
    (h : Sound cfg codec host requests s logs) (hr : idPattern run = true)
    (hm : s.objects (markerKey run step) = some content) : ∃ j job manifest,
      Claims (requests j) (logs j) job 0 ∧ CommittedBy codec requests j job run step manifest ∧
      s.objects (manifestKey run step) = some (requests j).body.data := by
  obtain ⟨j, job, rank, before, hsub, hclaims, hwrites, -⟩ := h.written _ _ hm
  generalize hkey : markerKey run step = key at hwrites
  cases hwrites with
  | upload => exact absurd hkey (markerKey_ne_objectKey hr hclaims.valid)
  | manifest => exact absurd hkey (markerKey_ne_objectKey hr hclaims.valid)
  | marker hrank hs hmanifest hstored =>
    obtain ⟨rfl, rfl⟩ := markerKey_injective hr hclaims.valid hkey
    subst hrank
    exact ⟨j, job, _, hclaims.mono hsub, ⟨hclaims.sender, rfl, hs, hmanifest⟩,
      stored_of_shows (h.facts j) (hstored.mono (storeCalls.log_subset hsub))⟩

theorem mem_objects {manifest : Manifest} {id : String} {object : Object}
    (h : manifest.object id = .ok object) : object ∈ manifest.objects := by
  unfold Manifest.object at h
  split at h
  next found hfound =>
    rw [← Except.ok.inj h]
    exact List.mem_of_find?_eq_some hfound
  · cases h

omit [DecidableEq κ] in
/-- An object that the stored manifest lists was uploaded. It is not the manifest
itself: a commit looks for the objects before it stores the manifest, and does not
store it over another. -/
theorem uploaded_of_object (h : Sound cfg codec host requests s (seen host t)) {run : String}
    {step : UInt64} {manifest : Manifest} {bytes content : Bytes} {object : Object}
    (hr : idPattern run = true) (hbytes : s.objects (manifestKey run step) = some bytes)
    (hdecoded : decodeManifest codec bytes = .ok manifest) (hobject : object ∈ manifest.objects)
    (ho : s.objects (objectKey run step object.path) = some content) : ∃ j job rank,
      Claims (requests j) (seen host t j) job rank ∧
      UploadedBy host requests t j run step object.path content := by
  obtain ⟨j, job, rank, before, hsub, hclaims, hwrites, hunseen⟩ := h.written _ _ ho
  generalize hkey : objectKey run step object.path = key at hwrites
  cases hwrites with
  | upload hm hs hp hread =>
    obtain ⟨rfl, rfl, hpath⟩ := objectKey_injective hr hclaims.valid hkey
    exact ⟨j, job, rank, hclaims.mono hsub, hm, rfl, hs, hpath.symm, _, _, hsub hread, rfl⟩
  | @manifest _ own hrank hs hm hv =>
    obtain ⟨rfl, rfl, hpath⟩ := objectKey_injective hr hclaims.valid hkey
    have hself : own = manifest := by
      have hown := (commitManifest_ok hm).1
      rw [hpath] at ho
      rw [Option.some.inj (ho.symm.trans hbytes), hdecoded] at hown
      exact (Except.ok.inj hown).symm
    obtain ⟨info, -, hstat, -⟩ := hv object (hself ▸ hobject)
    exact absurd hstat (hunseen info)
  | marker => exact absurd hkey.symm (markerKey_ne_objectKey hclaims.valid hr)

/-- Whatever the flushers of a cluster do at the same time: an object that is answered
as restored was uploaded under its key, and a commit of rank zero listed it; the range
in the manifest, with the hash in the manifest, went to a ring of the one who asked.
Requests at the flusher of the one who asked are of the same job. -/
theorem restored_was_uploaded {receipt : Receipt} (h : Runs cfg codec host requests s t)
    (hm : (requests k).method = .get) (hdone : (t k).rest = .done ⟨200, .receipt receipt⟩) :
    ∃ job rank step name object content i jobᵢ rankᵢ j jobⱼ manifest,
      identity (requests k) = .ok (job, rank) ∧
      CommittedBy codec requests j jobⱼ (runOf (requests k)) step manifest ∧
      manifest.object (objectOf (requests k)) = .ok object ∧
      identity (requests i) = .ok (jobᵢ, rankᵢ) ∧
      UploadedBy host requests t i (runOf (requests k)) step object.path content ∧
      (⟨.writeRing (ringPath (directory (cfg (host k)) job rank (requests k).transaction) name)
        (rangeOf object content), .ok ()⟩ : ServerEvent) ∈ seen host t k ∧
      (rangeOf object content).length = object.length.toNat ∧
      codec.sha256 (rangeOf object content) = object.sha256 ∧
      receipt = ⟨object.path, object.length, object.sha256, ""⟩ ∧
      (host i = host k → jobᵢ = job) ∧ (host j = host k → jobⱼ = job) := by
  have hsound := sound_of_runs h
  have hanswer := h.ensures (fun k => clusterRequest_keeps codec (host k) (requests k)) k
  rw [hdone] at hanswer
  obtain ⟨job, rank, step, ring, result, object, data, hclaims, hs, ⟨name, job', rank', hi, hstream⟩,
    hloaded, hobject, hrestored⟩ := hanswer receipt hm rfl
  obtain ⟨rfl, rfl⟩ : job = job' ∧ rank = rank' := by simpa [hclaims.sender] using hi
  obtain rfl := hsound.streams k _ name job rank ring hstream
  -- The commit that the marker comes from carried the manifest that was loaded.
  obtain ⟨⟨markerBytes, hmarker, -⟩, bytes, hbytes, hcheck⟩ := hloaded
  obtain ⟨j, jobⱼ, manifest, hclaimsⱼ, hcommitted, hstored⟩ := committed_of_marker hsound
    hclaims.valid (stored_of_shows (hsound.facts k) hmarker)
  have hbytes := stored_of_shows (hsound.facts k) hbytes
  have hdecoded := (LatestCheckpoint.checkManifest_eq_ok.mp hcheck).2.1
  obtain rfl : manifest = result.manifest := by
    have hown := (commitManifest_ok hcommitted.ownManifest).1
    rw [Option.some.inj (hstored.symm.trans hbytes), hdecoded] at hown
    exact (Except.ok.inj hown).symm
  obtain ⟨content, hcontent, rfl⟩ := hsound.facts k _ hrestored.read
  obtain ⟨i, jobᵢ, rankᵢ, hclaimsᵢ, hupload⟩ := uploaded_of_object hsound hclaims.valid hbytes
    hdecoded (mem_objects hobject) hcontent
  have hwhole := hrestored.whole
  have hhash := hrestored.hash
  have hwritten := hrestored.written
  have htake := take_rangeOf object content
  unfold rangeOf at htake
  rw [htake] at hwhole hhash hwritten
  exact ⟨job, rank, step, name, object, content, i, jobᵢ, rankᵢ, j, jobⱼ, result.manifest,
    hclaims.sender, hcommitted, hobject, hclaimsᵢ.sender, hupload, hwritten, hwhole, hhash,
    hrestored.receipt, same_job hsound hclaimsᵢ hclaims hupload.ownRun,
    same_job hsound hclaimsⱼ hclaims hcommitted.ownRun⟩

section Sample

def restoredBy (thread : Thread (@ClusterReply Bool) Response) : Bool :=
  match thread.rest with
  | .done ⟨200, .receipt _⟩ => true
  | _ => false

theorem sampleRun_restored : restoredBy (sampleRun.2 6) = true := by decide +kernel

theorem rest_of_restoredBy {thread : Thread (@ClusterReply Bool) Response}
    (h : restoredBy thread = true) : ∃ receipt, thread.rest = .done ⟨200, .receipt receipt⟩ := by
  unfold restoredBy at h
  split at h
  next receipt hrest => exact ⟨receipt, hrest⟩
  · cases h

theorem restored_was_uploaded_sampleRun : ∃ receipt step object content i j job manifest,
    (sampleRun.2 6).rest = .done ⟨200, .receipt receipt⟩ ∧
    CommittedBy CommitProtocol.sampleCodec sampleRequests j job (runOf (sampleRequests 6)) step
      manifest ∧
    manifest.object (objectOf (sampleRequests 6)) = .ok object ∧
    UploadedBy sampleHost sampleRequests sampleRun.2 i (runOf (sampleRequests 6)) step object.path
      content ∧ receipt.sha256 = object.sha256 := by
  obtain ⟨receipt, hdone⟩ := rest_of_restoredBy sampleRun_restored
  obtain ⟨-, -, step, -, object, content, i, -, -, j, job, manifest, -, hcommitted, hobject, -,
    huploaded, -, -, -, hreceipt, -⟩ := restored_was_uploaded sampleRun_runs rfl hdone
  exact ⟨receipt, step, object, content, i, j, job, manifest, hdone, hcommitted, hobject, huploaded,
    by rw [hreceipt]⟩

end Sample

section Served

open LatestCheckpoint (Reliable Loads Intact loadCommitted_reads)

variable {objects : Store String Bytes} {run id : String} {step total : UInt64} {path : Path}
variable {log : ServerLog} {object : Object}

/-- The store shows what is in it, and the ring has a length and takes all. -/
def Answers (objects : Store String Bytes) (total : UInt64) : ServerEvent → Prop
  | ⟨.store c, r⟩ => Reliable objects ⟨c, r⟩
  | ⟨.openRing _ _, r⟩ => ∃ ring, r = .ok ring ∧ ring.total = total
  | ⟨.writeRing _ _, r⟩ => r = .ok ()
  | _ => True

abbrev Served {α : Type} (objects : Store String Bytes) (total : UInt64) (p : Handler α)
    (log : ServerLog) (post : α → ServerLog → Prop) : Prop :=
  Ensures (fun _ e => Answers objects total e) (fun _ _ => True) p log post

theorem restore_served (hz : object.length ≠ 0) :
    Served objects total (restore codec run step object path) log (fun r log' =>
      (∀ receipt, r = .ok receipt → Intact codec objects run step object ∧
        receipt = ⟨object.path, object.length, object.sha256, ""⟩ ∧
        ∃ content, objects (objectKey run step object.path) = some content ∧
          (⟨.writeRing path (rangeOf object content), .ok ()⟩ : ServerEvent) ∈ log') ∧
      (Intact codec objects run step object → ∃ receipt, r = .ok receipt)) := by
  refine Ensures.perform (fun _ _ => trivial) fun r hr => ?_
  have hr : Reliable objects ⟨.get (objectKey run step object.path)
    (some (object.offset, object.length)), r⟩ := hr
  cases hs : objects (objectKey run step object.path) with
  | none =>
    obtain ⟨e, rfl⟩ : ∃ e, r = .error e := by simpa only [Reliable, hs] using hr
    refine ⟨fun _ h => (by cases h), ?_⟩
    rintro ⟨-, content, hc, -⟩
    rw [hs] at hc
    cases hc
  | some content =>
    obtain rfl : r = .ok (rangeOf object content) := by
      simp only [Reliable, hs] at hr
      exact hr
    have hlen : (rangeOf object content).length = object.length.toNat ↔
        object.offset.toNat + object.length.toNat ≤ content.length := by
      have hpos : 0 < object.length.toNat := Nat.pos_of_ne_zero fun h =>
        hz (UInt64.toNat_inj.mp h)
      rw [rangeOf, List.length_take, List.length_drop]
      omega
    dsimp only
    rw [take_rangeOf]
    refine Ensures.perform (fun _ _ => trivial) fun r hw => ?_
    obtain rfl : r = .ok () := hw
    dsimp only
    split
    next hshort =>
      refine ⟨fun _ h => (by cases h), fun hi => ?_⟩
      exact absurd (hlen.mpr (hi.content hs).2.1) hshort
    next hwhole =>
      split
      next hhash =>
        refine ⟨fun _ h => (by cases h), fun hi => ?_⟩
        exact absurd (hi.content hs).2.2 hhash
      next hhash =>
        have hhash := not_not.mp hhash
        refine ⟨?_, fun _ => ⟨_, rfl⟩⟩
        rintro receipt ⟨⟩
        refine ⟨⟨hz, content, hs, hlen.mp (not_not.mp hwhole), hhash⟩, by rw [hhash], content, rfl, ?_⟩
        exact List.mem_append_right _ List.mem_cons_self

/-- The object a request asks for is there to be restored to a ring of this length. -/
def Available (codec : Codec) (objects : Store String Bytes) (run : String) (step : UInt64)
    (id : String) (total : UInt64) (object : Object) : Prop :=
  ∃ result, Loads codec objects run step result ∧ result.manifest.object id = .ok object ∧
    object.length = total ∧ Intact codec objects run step object

/-- What a request for an object is answered with, where nothing fails. -/
structure Outcome (codec : Codec) (objects : Store String Bytes) (run : String) (step : UInt64)
    (id : String) (total : UInt64) (path : Path) (response : Response) (log : ServerLog) : Prop where
  sound : response.status = 200 → ∃ object content,
    Available codec objects run step id total object ∧
    response = ⟨200, .receipt ⟨object.path, object.length, object.sha256, ""⟩⟩ ∧
    objects (objectKey run step object.path) = some content ∧
    (⟨.writeRing path (rangeOf object content), .ok ()⟩ : ServerEvent) ∈ log
  complete : ∀ object, Available codec objects run step id total object → response.status = 200

theorem outcome_refused {status : Nat} {code : String} {message : FlushError} (hs : status ≠ 200)
    (hno : ∀ object, ¬ Available codec objects run step id total object) :
    Outcome codec objects run step id total path (writeError status code message) log :=
  ⟨fun h => absurd h hs, fun object ha => absurd ha (hno object)⟩

theorem getChunk_served : Served objects total (getChunk codec run step id path) log
    (Outcome codec objects run step id total path) := by
  unfold getChunk
  have hload : Served objects total (onStore (loadCommitted codec run step)) log (fun r log' =>
      log ⊆ log' ∧ ∀ result, r = .ok result ↔ Loads codec objects run step result) := by
    refine storeCalls.ensures_program (loadCommitted_reads run step) ?_ (fun _ _ _ _ _ _ => trivial)
    intro l e e₀ hback ha
    obtain ⟨c, r⟩ := e
    cases c with
    | store c =>
      cases hback
      exact ha
    | _ => cases hback
  refine hload.bind fun r log₁ hpost => ?_
  obtain ⟨-, hr⟩ := hpost
  split
  next e =>
    refine outcome_refused (by decide) ?_
    rintro object ⟨result, hl, -⟩
    cases (hr result).mpr hl
  next result =>
    have hl := (hr result).mp rfl
    split
    next e he =>
      refine outcome_refused (by decide) ?_
      rintro object ⟨result', hl', ho, -⟩
      rw [← hl.unique hl', he] at ho
      cases ho
    next object ho =>
      -- Nothing else is available under this name.
      have hsame : ∀ {object'}, Available codec objects run step id total object' →
          object' = object ∧ object'.length = total ∧ Intact codec objects run step object' := by
        rintro object' ⟨result', hl', ho', hlen, hi⟩
        rw [← hl.unique hl', ho] at ho'
        exact ⟨(Except.ok.inj ho').symm, hlen, hi⟩
      split
      next hz =>
        refine outcome_refused (by decide) fun object' ha => ?_
        obtain ⟨rfl, -, hi⟩ := hsame ha
        exact hi.1 hz
      next hz =>
        refine Ensures.perform (fun _ _ => trivial) fun r hring => ?_
        obtain ⟨ring, rfl, htotal⟩ := hring
        dsimp only
        split
        next hne =>
          refine outcome_refused (by decide) fun object' ha => ?_
          obtain ⟨rfl, hlen, -⟩ := hsame ha
          exact hne (htotal.trans hlen.symm)
        next heq =>
          have hlen : object.length = total := (not_not.mp heq).symm.trans htotal
          refine (restore_served hz).bind fun r log₂ hpost => ?_
          obtain ⟨hok, hcomplete⟩ := hpost
          split
          next e =>
            refine outcome_refused (by decide) fun object' ha => ?_
            obtain ⟨rfl, -, hi⟩ := hsame ha
            obtain ⟨receipt, hreceipt⟩ := hcomplete hi
            cases hreceipt
          next receipt =>
            obtain ⟨hi, rfl, content, hc, hm⟩ := hok receipt rfl
            exact ⟨fun _ => ⟨object, content, ⟨result, hl, ho, hlen, hi⟩, rfl, hc, hm⟩, fun _ _ => rfl⟩

end Served

end HeteroCluster.RestoredBytes
