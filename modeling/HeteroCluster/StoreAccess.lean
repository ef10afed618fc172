import HeteroCluster.KeySpaces
import HeteroCluster.CommitEvidence

namespace HeteroCluster.StoreAccess

open GoStrings CallProgram CheckpointManifest CheckpointCodec ObjectKeys ObjectStore
open KeySpaces (manifestKey)
open CommitEvidence (Shows Verified Keeps verifyObjects_keeps putImmutable_keeps)

/-- A call that looks only at some keys, and writes only some bodies to some. -/
def Within (reads : String → Prop) (writes : String → Bytes → Prop) : StoreCall → Prop
  | .stat key => reads key
  | .get key _ => reads key
  | .put key _ body => writes key body
  | .now => True
  | .order _ => True

def InStep (run : String) (step : UInt64) (key : String) : Prop :=
  key = markerKey run step ∨ ∃ path, key = objectKey run step path

def InRun (run key : String) : Prop := ∃ step, InStep run step key

def nowhere (_ : String) (_ : Bytes) : Prop := False

variable {run run' key : String} {step : UInt64} {codec : Codec} {reads : String → Prop}
  {writes : String → Bytes → Prop}

theorem InRun.unique (hr : idPattern run = true) (hr' : idPattern run' = true)
    (h : InRun run key) (h' : InRun run' key) : run = run' := by
  obtain ⟨step, rfl | ⟨path, rfl⟩⟩ := h
  · obtain ⟨step', hk | ⟨path', hk⟩⟩ := h'
    · exact (markerKey_injective hr hr' hk).1
    · exact absurd hk (markerKey_ne_objectKey hr hr')
  · obtain ⟨step', hk | ⟨path', hk⟩⟩ := h'
    · exact absurd hk.symm (markerKey_ne_objectKey hr' hr)
    · exact (objectKey_injective hr hr' hk).1

theorem Within.imp {reads' : String → Prop} {writes' : String → Bytes → Prop} {c : StoreCall}
    (h : Within reads writes c) (hr : ∀ key, reads key → reads' key)
    (hw : ∀ key body, writes key body → writes' key body) : Within reads' writes' c := by
  cases c with
  | stat key => exact hr key h
  | get key range => exact hr key h
  | put key size body => exact hw key body h
  | now => trivial
  | order objects => trivial

section Programs

theorem readBounded_calls (hk : reads key) (limit : Nat) :
    (readBounded key limit).Calls (Within reads writes) := by
  refine .perform hk fun r => ?_
  split
  · trivial
  · dsimp only
    split <;> trivial

theorem readArtifact_calls (artifact : Artifact)
    (hk : reads (objectKey run step artifact.storagePath)) :
    (readArtifact run step artifact).Calls (Within reads writes) := by
  unfold readArtifact
  split
  · trivial
  · refine (readBounded_calls hk _).bind fun r => ?_
    split
    · trivial
    · split <;> trivial

theorem hashRange_calls (hk : reads key) (offset length : UInt64) :
    (hashRange codec key offset length).Calls (Within reads writes) := by
  unfold hashRange
  split
  · trivial
  · refine .perform hk fun r => ?_
    split
    · trivial
    · dsimp only
      split <;> trivial

theorem verifyObject_calls (object : Object) (hk : reads (objectKey run step object.path)) :
    (verifyObject codec run step object).Calls (Within reads writes) := by
  refine .perform hk fun r => ?_
  split
  · trivial
  · split
    · trivial
    · refine (hashRange_calls hk _ _).bind fun r => ?_
      split
      · trivial
      · split <;> trivial

theorem verifyObjects_calls (hk : ∀ path, reads (objectKey run step path)) (objects : List Object) :
    (verifyObjects codec run step objects).Calls (Within reads writes) := by
  induction objects with
  | nil => trivial
  | cons object rest ih =>
    refine (verifyObject_calls object (hk object.path)).bind fun r => ?_
    split
    · trivial
    · exact ih

theorem compareExistingHash_calls (hk : reads key) (info : ObjectInfo) (storagePath : String)
    (size : UInt64) (wanted : String) :
    (compareExistingHash codec key info storagePath size wanted).Calls (Within reads writes) := by
  unfold compareExistingHash
  split
  · trivial
  · refine (hashRange_calls hk 0 size).bind fun r => ?_
    split
    · trivial
    · split <;> trivial

def Uploads (run : String) (step : UInt64) (storagePath : String) (source : Source) (size : UInt64)
    (key : String) (body : Bytes) : Prop :=
  key = objectKey run step storagePath ∧ body = source.data.take size.toNat

theorem upload_calls (run : String) (step : UInt64) (storagePath : String) (source : Source)
    (size : UInt64) : (upload codec run step storagePath source size).Calls
      (Within (InStep run step) (Uploads run step storagePath source size)) := by
  have hk : InStep run step (objectKey run step storagePath) := .inr ⟨storagePath, rfl⟩
  refine .perform hk fun r => ?_
  split
  · unfold compareExisting
    split
    · trivial
    · exact compareExistingHash_calls hk _ _ _ _
  · split
    · trivial
    · refine .perform ⟨rfl, rfl⟩ fun r => ?_
      split
      · trivial
      · dsimp only
        split
        · refine .perform hk fun r => ?_
          split
          · exact compareExistingHash_calls hk _ _ _ _
          · trivial
        · trivial

theorem loadCommitted_calls (run : String) (step : UInt64) :
    (loadCommitted codec run step).Calls (Within (InStep run step) nowhere) := by
  refine (readBounded_calls (.inl rfl) _).bind fun r => ?_
  split
  · trivial
  · split
    · trivial
    · refine (readBounded_calls (.inr ⟨_, rfl⟩) _).bind fun r => ?_
      split
      · trivial
      · split <;> trivial

theorem scanSteps_calls (run : String) (want : Compatibility) (steps : List UInt64) :
    (scanSteps codec run want steps).Calls (Within (InRun run) nowhere) := by
  induction steps with
  | nil => trivial
  | cons step steps ih =>
    have hload : (loadCommitted codec run step).Calls (Within (InRun run) nowhere) :=
      (loadCommitted_calls run step).imp fun c hc => hc.imp (fun _ hk => ⟨step, hk⟩) (fun _ _ h => h)
    refine hload.bind fun r => ?_
    split
    · exact ih
    · split
      · exact ih
      · refine .perform trivial fun r => ?_
        refine (verifyObjects_calls (fun path => ⟨step, .inr ⟨path, rfl⟩⟩) _).bind fun r => ?_
        split
        · exact ih
        · trivial

theorem latest_calls (listing : Listing) (run : String) (want : Compatibility)
    (before : Option UInt64) :
    (latest codec listing run want before).Calls (Within (InRun run) nowhere) := by
  unfold latest
  split
  · trivial
  · split
    · trivial
    · exact scanSteps_calls run want _

theorem putImmutable_calls {data : Bytes} (hk : reads key) (hw : writes key data) :
    (putImmutable key data).Calls (Within reads writes) := by
  refine .perform hk fun r => ?_
  split
  · refine (readBounded_calls hk _).bind fun r => ?_
    split
    · split <;> trivial
    · trivial
  · split
    · trivial
    · refine .perform hw fun r => ?_
      split
      · trivial
      · split
        · refine (readBounded_calls hk _).bind fun r => ?_
          split
          · split <;> trivial
          · trivial
        · trivial

theorem putImmutableMarker_calls {data : Bytes} (marker : CommitMarker) (hk : reads key)
    (hw : writes key data) :
    (putImmutableMarker codec key data marker).Calls (Within reads writes) := by
  refine (putImmutable_calls hk hw).bind fun r => ?_
  split
  · trivial
  · refine (readBounded_calls hk _).bind fun r => ?_
    split
    · trivial
    · split
      · trivial
      · split <;> trivial

end Programs

section Commit

variable {log : StoreLog}

/-- The writes of a commit: the manifest, once its objects are verified, and the
marker, once the manifest is stored. -/
def CommitWrites (codec : Codec) (manifest : Manifest) (data : Bytes) (log : StoreLog) (key : String)
    (body : Bytes) : Prop :=
  key = manifestKey manifest.runID manifest.globalStep ∧ body = data ∧
      (∀ object ∈ manifest.objects,
        Verified codec log manifest.runID manifest.globalStep object) ∨
    key = markerKey manifest.runID manifest.globalStep ∧
      Shows log (manifestKey manifest.runID manifest.globalStep) data

abbrev CommitCall (codec : Codec) (manifest : Manifest) (data : Bytes) (log : StoreLog)
    (e : StoreEvent) : Prop :=
  Within (InStep manifest.runID manifest.globalStep) (CommitWrites codec manifest data log) e.1

abbrev Commits {α : Type} (codec : Codec) (manifest : Manifest) (data : Bytes) (p : Flusher α)
    (log : StoreLog) (post : α → StoreLog → Prop) : Prop :=
  Ensures (fun _ _ => True) (CommitCall codec manifest data) p log post

variable {data : Bytes} {manifest : Manifest}

theorem commits_of_reads {α : Type} {p : Flusher α}
    (h : p.Calls (Within (InStep manifest.runID manifest.globalStep) nowhere)) :
    Commits codec manifest data p log (fun _ _ => True) :=
  (h.ensures log).imp fun _ _ hc => hc.imp (fun _ hk => hk) (fun _ _ hno => hno.elim)

/-- Whether it is put or found, the manifest is shown when this ends well. -/
theorem putManifest_commits (hr : idPattern manifest.runID = true)
    (hv : ∀ object ∈ manifest.objects,
      Verified codec log manifest.runID manifest.globalStep object) :
    Commits codec manifest data
      (putImmutable (manifestKey manifest.runID manifest.globalStep) data) log
      (fun r log' => r = none → Shows log' (manifestKey manifest.runID manifest.globalStep) data) := by
  have hshown : Keeps codec (putImmutable (manifestKey manifest.runID manifest.globalStep) data) log
      (fun r log' => log ⊆ log' ∧
        (r = none → Shows log' (manifestKey manifest.runID manifest.globalStep) data)) :=
    putImmutable_keeps (.object hr manifest.globalStep "manifest.json" data)
  have hputs : (putImmutable (manifestKey manifest.runID manifest.globalStep) data).Calls
      (Within (InStep manifest.runID manifest.globalStep) (fun key body =>
        key = manifestKey manifest.runID manifest.globalStep ∧ body = data)) :=
    putImmutable_calls (.inr ⟨"manifest.json", rfl⟩) ⟨rfl, rfl⟩
  have hwrites : Commits codec manifest data
      (putImmutable (manifestKey manifest.runID manifest.globalStep) data) log
      (fun _ _ => True) := by
    apply ((hputs.ensures log).within ?_).mono fun _ _ _ => trivial
    intro l e hl hc
    apply hc.imp (fun _ hk => hk)
    rintro key body ⟨rfl, rfl⟩
    exact .inl ⟨rfl, rfl, fun object ho => (hv object ho).mono hl.subset⟩
  apply ((hwrites.and hshown).imp fun _ _ hg => hg.1).mono
  intro r log' hpost
  exact hpost.2.2

theorem putMarker_commits {marker : CommitMarker} {body : Bytes}
    (hstored : Shows log (manifestKey manifest.runID manifest.globalStep) data) :
    Commits codec manifest data (putImmutableMarker codec
      (markerKey manifest.runID manifest.globalStep) body marker) log (fun _ _ => True) := by
  have hputs : (putImmutableMarker codec (markerKey manifest.runID manifest.globalStep) body
      marker).Calls (Within (InStep manifest.runID manifest.globalStep)
        (fun key _ => key = markerKey manifest.runID manifest.globalStep)) :=
    putImmutableMarker_calls marker (.inl rfl) rfl
  apply ((hputs.ensures log).within ?_).mono fun _ _ _ => trivial
  intro l e hl hc
  exact hc.imp (fun _ hk => hk) (fun _ _ hw => .inr ⟨hw, hstored.mono hl.subset⟩)

theorem commit_commits (hr : idPattern manifest.runID = true) (jobID : UInt64) :
    Commits codec manifest data (commit codec data manifest jobID) log (fun _ _ => True) := by
  have hobject : ∀ path, InStep manifest.runID manifest.globalStep
      (objectKey manifest.runID manifest.globalStep path) := fun path => .inr ⟨path, rfl⟩
  refine (commits_of_reads (readArtifact_calls _ (hobject _))).bind fun r log₁ _ => ?_
  split
  · trivial
  · split
    · trivial
    · refine Ensures.perform (fun _ _ => trivial) fun order _ => ?_
      have hverified : Commits codec manifest data (verifyObjects codec manifest.runID
          manifest.globalStep order.val) (log₁ ++ [⟨.order manifest.objects, order⟩]) _ :=
        ((commits_of_reads (verifyObjects_calls hobject _)).and
          (verifyObjects_keeps order.val)).imp fun _ _ hg => hg.1
      refine hverified.bind fun r log₂ hpost => ?_
      split
      · trivial
      · have hv := fun object ho => hpost.2.2 rfl object (order.property.mem_iff.mpr ho)
        refine (putManifest_commits hr hv).bind fun r log₃ hshown => ?_
        split
        · trivial
        · refine Ensures.perform (fun _ _ => trivial) fun committedAt _ => ?_
          have hstored := (hshown rfl).mono (List.subset_append_left log₃ [⟨.now, committedAt⟩])
          refine (putMarker_commits hstored).bind fun r log₄ _ => ?_
          split <;> trivial

end Commit

end HeteroCluster.StoreAccess
