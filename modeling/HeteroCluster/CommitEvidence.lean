import HeteroCluster.ObjectStore

namespace HeteroCluster.CommitEvidence

open GoStrings CallProgram FailFast CheckpointManifest CheckpointCodec ObjectKeys ObjectStore

def Shows (log : StoreLog) (key : String) (data : Bytes) : Prop :=
  (⟨.get key none, .ok data⟩ : StoreEvent) ∈ log ∨
    ∃ size etag, (⟨.put key size data, .ok etag⟩ : StoreEvent) ∈ log

/-- The log shows the range of an object inside its stored length, and bytes
of that range with the stated hash. -/
def Verified (codec : Codec) (log : StoreLog) (run : String) (step : UInt64) (object : Object) :
    Prop :=
  ∃ info content, (⟨.stat (objectKey run step object.path), .ok info⟩ : StoreEvent) ∈ log ∧
    (⟨.get (objectKey run step object.path) (some (object.offset, object.length)), .ok content⟩ :
      StoreEvent) ∈ log ∧
    object.offset.toNat + object.length.toNat ≤ info.size ∧
    codec.sha256 (content.take object.length.toNat) = object.sha256

/-- What a commit has seen before it writes its marker. -/
structure Ready (codec : Codec) (log : StoreLog) (data : Bytes) (manifest : Manifest) : Prop where
  optimizer : ∃ optimizer state,
    Shows log (objectKey manifest.runID manifest.globalStep
      manifest.state.optimizerMetadata.storagePath) optimizer ∧
    decodeOptimizerState codec optimizer manifest = .ok state
  objects : ∀ object ∈ manifest.objects,
    Verified codec log manifest.runID manifest.globalStep object
  stored : Shows log (objectKey manifest.runID manifest.globalStep "manifest.json") data

/-- The puts of a flusher: objects of a run, and markers of commits that have
seen everything they need. -/
inductive Permitted (codec : Codec) (log : StoreLog) : String → Bytes → Prop
  | object {run : String} (hr : idPattern run = true) (step : UInt64) (path : String)
      (body : Bytes) : Permitted codec log (objectKey run step path) body
  | marker {data : Bytes} {manifest : Manifest} {marker : CommitMarker}
      (hd : decodeManifest codec data = .ok manifest) (hv : marker.checkpointVersion = version)
      (hh : marker.manifestSHA256 = codec.sha256 data) (hr : Ready codec log data manifest) :
      Permitted codec log (markerKey manifest.runID manifest.globalStep)
        (codec.marshalMarker marker)

def Good (codec : Codec) (log : StoreLog) : StoreEvent → Prop
  | ⟨.put key _ body, _⟩ => Permitted codec log key body
  | _ => True

abbrev Keeps {α : Type} (codec : Codec) (p : Flusher α) (log : StoreLog)
    (post : α → StoreLog → Prop) : Prop :=
  Ensures (fun _ _ => True) (Good codec) p log post

variable {codec : Codec} {log log' : StoreLog} {key run : String} {step : UInt64} {object : Object}

theorem Shows.mono {data : Bytes} (h : Shows log key data) (hl : log ⊆ log') :
    Shows log' key data := by
  obtain hg | ⟨size, etag, hp⟩ := h
  · exact .inl (hl hg)
  · exact .inr ⟨size, etag, hl hp⟩

theorem Verified.mono (h : Verified codec log run step object) (hl : log ⊆ log') :
    Verified codec log' run step object := by
  obtain ⟨info, content, hs, hg, hle, hh⟩ := h
  exact ⟨info, content, hl hs, hl hg, hle, hh⟩

theorem Ready.mono {data : Bytes} {manifest : Manifest} (h : Ready codec log data manifest)
    (hl : log ⊆ log') : Ready codec log' data manifest where
  optimizer := by
    obtain ⟨optimizer, state, hs, hd⟩ := h.optimizer
    exact ⟨optimizer, state, hs.mono hl, hd⟩
  objects := fun object hm => (h.objects object hm).mono hl
  stored := h.stored.mono hl

theorem Permitted.mono {body : Bytes} (h : Permitted codec log key body) (hl : log ⊆ log') :
    Permitted codec log' key body := by
  cases h with
  | object hr step path body => exact .object hr step path body
  | marker hd hv hh hr => exact .marker hd hv hh (hr.mono hl)

def puts : StoreCall → Bool
  | .put _ _ _ => true
  | _ => false

theorem Keeps.read {α : Type} {c : StoreCall} {f : StoreReply c → Flusher α}
    {post : α → StoreLog → Prop} (hc : puts c = false)
    (hf : ∀ r, Keeps codec (f r) (log ++ [⟨c, r⟩]) post) : Keeps codec (ask c >>= f) log post := by
  apply Ensures.perform
  · intro r _
    cases c with
    | put => cases hc
    | _ => trivial
  · intro r _
    exact hf r

theorem Keeps.put {α : Type} {size : Nat} {body : Bytes} {f : Except PutFailure String → Flusher α}
    {post : α → StoreLog → Prop} (hp : Permitted codec log key body)
    (hf : ∀ r, Keeps codec (f r) (log ++ [⟨.put key size body, r⟩]) post) :
    Keeps codec (ask (.put key size body) >>= f) log post := by
  apply Ensures.perform
  · intro r _
    exact hp
  · intro r _
    exact hf r

theorem readBounded_keeps (limit : Nat) : Keeps codec (readBounded key limit) log
    (fun r log' => log ⊆ log' ∧ ∀ data, r = .ok data → Shows log' key data) := by
  apply Keeps.read (by rfl)
  intro r
  split
  · simp
  · rename_i content
    dsimp only
    split
    · simp
    · rename_i hlen
      have hall : content.take (limit + 1) = content := by
        apply List.take_of_length_le
        rw [List.length_take] at hlen
        omega
      rw [hall]
      refine ⟨List.subset_append_left _ _, ?_⟩
      rintro data ⟨⟩
      exact .inl (by simp)

theorem readArtifact_keeps (artifact : Artifact) :
    Keeps codec (readArtifact run step artifact) log (fun r log' => log ⊆ log' ∧
      ∀ data, r = .ok data → Shows log' (objectKey run step artifact.storagePath) data) := by
  unfold readArtifact
  split
  · simp
  · apply (readBounded_keeps _).bind
    rintro r log' ⟨hsub, hr⟩
    cases r with
    | error e => exact ⟨hsub, by simp⟩
    | ok data =>
      dsimp only
      split
      · exact ⟨hsub, by simp⟩
      · refine ⟨hsub, ?_⟩
        rintro data ⟨⟩
        exact hr data rfl

theorem hashRange_keeps (offset length : UInt64) : Keeps codec (hashRange codec key offset length) log
    (fun r log' => log ⊆ log' ∧ ∀ digest, r = .ok digest → ∃ content,
      (⟨.get key (some (offset, length)), .ok content⟩ : StoreEvent) ∈ log' ∧
      codec.sha256 (content.take length.toNat) = digest) := by
  unfold hashRange
  split
  · simp
  · apply Keeps.read (by rfl)
    intro r
    split
    · simp
    · rename_i content
      dsimp only
      split
      · simp
      · refine ⟨List.subset_append_left _ _, ?_⟩
        rintro digest ⟨⟩
        exact ⟨content, by simp, rfl⟩

theorem verifyObject_keeps (object : Object) : Keeps codec (verifyObject codec run step object) log
    (fun r log' => log ⊆ log' ∧ (r = none → Verified codec log' run step object)) := by
  apply Keeps.read (by rfl)
  intro r
  split
  · simp
  · rename_i info
    split
    · simp
    · rename_i hrange
      apply (hashRange_keeps object.offset object.length).bind
      rintro r log' ⟨hsub, hr⟩
      have hlog := List.Subset.trans (List.subset_append_left log _) hsub
      cases r with
      | error e => exact ⟨hlog, by simp⟩
      | ok digest =>
        dsimp only
        split
        · exact ⟨hlog, by simp⟩
        · rename_i hdigest
          refine ⟨hlog, ?_⟩
          intro _
          obtain ⟨content, hget, hhash⟩ := hr digest rfl
          exact ⟨info, content, hsub (by simp), hget, by omega, hhash.trans (not_not.mp hdigest)⟩

theorem verifyObjects_keeps (objects : List Object) :
    Keeps codec (verifyObjects codec run step objects) log (fun r log' => log ⊆ log' ∧
      (r = none → ∀ object ∈ objects, Verified codec log' run step object)) := by
  induction objects generalizing log with
  | nil => simp [verifyObjects]
  | cons object rest ih =>
    apply (verifyObject_keeps object).bind
    rintro r log' ⟨hsub, hr⟩
    cases r with
    | some e => exact ⟨hsub, by simp⟩
    | none =>
      apply ih.mono
      rintro r log'' ⟨hsub', hrest⟩
      refine ⟨List.Subset.trans hsub hsub', ?_⟩
      intro hnone o ho
      obtain rfl | ho := List.mem_cons.mp ho
      · exact (hr rfl).mono hsub'
      · exact hrest hnone o ho

theorem putImmutable_keeps {data : Bytes} (hp : Permitted codec log key data) :
    Keeps codec (putImmutable key data) log
      (fun r log' => log ⊆ log' ∧ (r = none → Shows log' key data)) := by
  apply Keeps.read (by rfl)
  intro r
  split
  · apply (readBounded_keeps data.length).bind
    rintro r log' ⟨hsub, hr⟩
    have hlog := List.Subset.trans (List.subset_append_left log _) hsub
    cases r with
    | error e => exact ⟨hlog, by simp⟩
    | ok existing =>
      dsimp only
      split
      · rename_i heq
        subst heq
        exact ⟨hlog, fun _ => hr existing rfl⟩
      · exact ⟨hlog, by simp⟩
  · split
    · simp
    · apply Keeps.put (hp.mono (List.subset_append_left _ _))
      intro r
      split
      · refine ⟨List.Subset.trans (List.subset_append_left _ _) (List.subset_append_left _ _), ?_⟩
        intro _
        exact .inr ⟨data.length, _, List.mem_append_right _ List.mem_cons_self⟩
      · split
        · apply (readBounded_keeps data.length).bind
          rintro r log' ⟨hsub, hr⟩
          have hlog := List.Subset.trans (List.Subset.trans (List.subset_append_left log _)
            (List.subset_append_left _ _)) hsub
          cases r with
          | error e => exact ⟨hlog, by simp⟩
          | ok existing =>
            dsimp only
            split
            · rename_i heq
              subst heq
              exact ⟨hlog, fun _ => hr existing rfl⟩
            · exact ⟨hlog, by simp⟩
        · simp

theorem putImmutableMarker_keeps {data : Bytes} (marker : CommitMarker)
    (hp : Permitted codec log key data) :
    Keeps codec (putImmutableMarker codec key data marker) log (fun _ log' => log ⊆ log') := by
  apply (putImmutable_keeps hp).bind
  rintro r log' ⟨hsub, -⟩
  cases r with
  | none => exact hsub
  | some e =>
    apply (readBounded_keeps (64 <<< 10)).bind
    rintro r log'' ⟨hsub', -⟩
    have hlog := List.Subset.trans hsub hsub'
    cases r with
    | error e => exact hlog
    | ok existing =>
      dsimp only
      split
      · exact hlog
      · split <;> exact hlog

theorem runID_of_valid {parseTime : String → Except String Unit} {manifest : Manifest}
    (h : manifest.validate parseTime = .ok ()) : idPattern manifest.runID = true := by
  simp only [Manifest.validate, bind_eq_ok, exists_unit, refuse_eq_ok] at h
  simpa using h.2.1

theorem commit_keeps {data : Bytes} {manifest : Manifest} (jobID : UInt64)
    (hd : decodeManifest codec data = .ok manifest) :
    Keeps codec (commit codec data manifest jobID) log (fun r log' => ∀ marker, r = .ok marker →
      Shows log' (objectKey manifest.runID manifest.globalStep "manifest.json") data) := by
  have hrun := runID_of_valid (decodeManifest_valid codec hd)
  apply (readArtifact_keeps manifest.state.optimizerMetadata).bind
  rintro r log₁ ⟨-, hopt⟩
  cases r with
  | error e => simp
  | ok optimizer =>
    dsimp only
    split
    · simp
    · rename_i state hstate
      apply Keeps.read (by rfl)
      intro order
      apply (verifyObjects_keeps order.val).bind
      rintro r log₂ ⟨hsub₂, hverified⟩
      cases r with
      | some e => simp
      | none =>
        apply (putImmutable_keeps (.object hrun manifest.globalStep "manifest.json" data)).bind
        rintro r log₃ ⟨hsub₃, hstored⟩
        cases r with
        | some e => simp
        | none =>
          apply Keeps.read (by rfl)
          intro committedAt
          have hready : Ready codec log₃ data manifest := by
            refine ⟨⟨optimizer, state, ?_, hstate⟩, ?_, hstored rfl⟩
            · exact (hopt optimizer rfl).mono (List.Subset.trans
                (List.Subset.trans (List.subset_append_left _ _) hsub₂) hsub₃)
            · intro object ho
              exact (hverified rfl object (order.property.mem_iff.mpr ho)).mono hsub₃
          apply (putImmutableMarker_keeps _ (.marker hd rfl rfl
            (hready.mono (List.subset_append_left _ _)))).bind
          intro r log₄ hsub₄
          cases r with
          | some e => simp
          | none =>
            intro marker _
            exact hready.stored.mono (List.Subset.trans (List.subset_append_left _ _) hsub₄)

theorem upload_keeps (hr : idPattern run = true) (step : UInt64) (storagePath : String)
    (source : Source) (size : UInt64) :
    Keeps codec (upload codec run step storagePath source size) log (fun _ _ => True) := by
  have hcompare : ∀ (info : ObjectInfo) (wanted : String) (log : StoreLog),
      Keeps codec (compareExistingHash codec (objectKey run step storagePath) info storagePath size
        wanted) log (fun _ _ => True) := by
    intro info wanted log
    unfold compareExistingHash
    split
    · trivial
    · apply (hashRange_keeps 0 size).bind
      intro r log' _
      cases r with
      | error e => trivial
      | ok actual =>
        dsimp only
        split <;> trivial
  apply Keeps.read (by rfl)
  intro r
  split
  · unfold compareExisting
    split
    · trivial
    · exact hcompare _ _ _
  · split
    · trivial
    · apply Keeps.put (.object hr step storagePath _)
      intro r
      split
      · trivial
      · dsimp only
        split
        · apply Keeps.read (by rfl)
          intro r
          split
          · exact hcompare _ _ _
          · trivial
        · trivial

end HeteroCluster.CommitEvidence
