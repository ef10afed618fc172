import HeteroCluster.AcceptedManifest
import HeteroCluster.LatestCheckpoint

namespace HeteroCluster.CompatibleCheckpoints

open GoStrings FailFast CallProgram CheckpointManifest AcceptedManifest CheckpointCodec
open ObjectStore CommitProtocol LatestCheckpoint

def identity (m : Metadata) : List String :=
  [m.modelID, m.modelSchemaHash, m.datasetID, m.containerImageDigest, m.framework,
    m.frameworkVersion]

def wanted (want : Compatibility) : List String :=
  [want.modelID, want.modelSchemaHash, want.datasetID, want.containerImageDigest, want.framework,
    want.frameworkVersion]

/-- A manifest is what was asked for, and has every adapter that was asked for
in the version asked for. -/
structure Provides (m : Manifest) (want : Compatibility) : Prop where
  same : identity m.metadata = wanted want
  known : ∀ field ∈ wanted want, field ≠ ""
  adapters : ∀ entry ∈ want.adapterVersions.entries,
    m.metadata.adapterVersions.get? entry.1 = some entry.2

variable {m : Manifest} {want : Compatibility} {codec : Codec}

theorem compatible_eq_ok : m.compatible want = .ok () ↔
    (identity m.metadata = wanted want ∧ ∀ field ∈ wanted want, field ≠ "") ∧
      want.adapterVersions.len ≠ 0 ∧ ∀ entry ∈ want.adapterVersions.entries,
        (m.metadata.adapterVersions.get? entry.1).getD "" = entry.2 := by
  simp only [Manifest.compatible, bind_eq_ok, exists_unit, refuse_eq_ok, forM_eq_ok, not_or,
    not_not, List.forall_mem_cons, List.not_mem_nil, identity, wanted, List.cons.injEq]
  constructor
  · rintro ⟨⟨h1, h2, h3, h4, h5, h6, -⟩, hlen, hall⟩
    exact ⟨⟨⟨h1.2, h2.2, h3.2, h4.2, h5.2, h6.2, trivial⟩,
      h1.1, h2.1, h3.1, h4.1, h5.1, h6.1, by simp⟩, hlen, hall⟩
  · rintro ⟨⟨⟨e1, e2, e3, e4, e5, e6, -⟩, n1, n2, n3, n4, n5, n6, -⟩, hlen, hall⟩
    exact ⟨⟨⟨n1, e1⟩, ⟨n2, e2⟩, ⟨n3, e3⟩, ⟨n4, e4⟩, ⟨n5, e5⟩, ⟨n6, e6⟩, by simp⟩, hlen, hall⟩

theorem version_ne_empty (h : AcceptedMetadata m.metadata) {name version : String}
    (hl : m.metadata.adapterVersions.get? name = some version) : version ≠ "" := by
  obtain ⟨l₁, l₂, hentries, -⟩ := List.lookup_eq_some_iff.mp hl
  have hmem : (name, version) ∈ m.metadata.adapterVersions.entries := by
    rw [hentries]
    simp
  exact (h.adapter (name, version) hmem).2.1

/-- An adapter that the manifest lacks has the empty version to the lookup, and
so passes where the request has an empty version for it. -/
theorem provides_iff (hm : AcceptedMetadata m.metadata) (hc : m.compatible want = .ok ()) :
    Provides m want ↔ ∀ entry ∈ want.adapterVersions.entries, entry.2 ≠ "" := by
  obtain ⟨⟨hsame, hknown⟩, -, hall⟩ := compatible_eq_ok.mp hc
  constructor
  · intro h entry he
    exact version_ne_empty hm (h.adapters entry he)
  · intro hne
    refine ⟨hsame, hknown, ?_⟩
    intro entry he
    have hread := hall entry he
    cases hl : m.metadata.adapterVersions.get? entry.1 with
    | none =>
      rw [hl] at hread
      exact absurd hread.symm (hne entry he)
    | some version =>
      rw [hl] at hread
      exact congrArg some hread

section Latest

variable {run : String} {before : Option UInt64} {log : StoreLog}

/-- What holds of the result of a program however the store answers. -/
abbrev Returns {α : Type} (p : Flusher α) (post : α → Prop) : Prop :=
  ∀ log, Ensures (fun _ _ => True) (fun _ _ => True) p log (fun r _ => post r)

theorem Returns.bind {α β : Type} {p : Flusher α} {f : α → Flusher β} {mid : α → Prop}
    {post : β → Prop} (hp : Returns p mid) (hf : ∀ a, mid a → Returns (f a) post) :
    Returns (p >>= f) post :=
  fun log => (hp log).bind (fun a log' ha => hf a ha log')

theorem Returns.any {α β : Type} {p : Flusher α} {f : α → Flusher β} {post : β → Prop}
    (hf : ∀ a, Returns (f a) post) : Returns (p >>= f) post :=
  Returns.bind (fun log => ensures_trivial p log) (fun a _ => hf a)

theorem loadCommitted_returns (run : String) (step : UInt64) :
    Returns (loadCommitted codec run step) (fun r => ∀ result, r = .ok result →
      result.manifest.validate codec.parseTime = .ok ()) := by
  unfold loadCommitted
  apply Returns.any
  intro r
  cases r with
  | error e => exact fun _ => by simp
  | ok markerBytes =>
    dsimp only
    cases checkMarker codec step markerBytes with
    | error e => exact fun _ => by simp
    | ok marker =>
      apply Returns.any
      intro r
      cases r with
      | error e => exact fun _ => by simp
      | ok manifestBytes =>
        dsimp only
        cases hm : checkManifest codec run step marker manifestBytes with
        | error e => exact fun _ => by simp
        | ok manifest =>
          rintro _ result ⟨⟩
          exact decodeManifest_valid codec (checkManifest_eq_ok.mp hm).2.1

theorem scanSteps_returns (steps : List UInt64) :
    Returns (scanSteps codec run want steps) (fun r => ∀ result, r = .ok result →
      result.manifest.validate codec.parseTime = .ok () ∧
        result.manifest.compatible want = .ok ()) := by
  induction steps with
  | nil => exact fun _ => by simp [scanSteps]
  | cons step steps ih =>
    unfold scanSteps
    apply (loadCommitted_returns run step).bind
    intro r hr
    cases r with
    | error e => exact ih
    | ok result =>
      dsimp only
      cases hc : result.manifest.compatible want with
      | error e => exact ih
      | ok u =>
        apply Returns.any
        intro order
        apply Returns.any
        intro r
        cases r with
        | some e => exact ih
        | none =>
          rintro _ result' ⟨⟩
          exact ⟨hr result rfl, hc⟩

theorem latest_returns (listing : Listing) (run : String) (before : Option UInt64) :
    Returns (latest codec listing run want before) (fun r => ∀ result, r = .ok result →
      result.manifest.validate codec.parseTime = .ok () ∧
        result.manifest.compatible want = .ok ()) := by
  unfold latest
  cases collectSteps (runPrefix run) before listing.keys [] with
  | error e => exact fun _ => by simp
  | ok steps =>
    dsimp only
    cases listing.err with
    | some e => exact fun _ => by simp
    | none => exact scanSteps_returns _

end Latest

/-- What the check lets through, and what a request for the latest checkpoint
is answered with, is what was asked for exactly if no empty version was. -/
theorem compatible_provides (codec : Codec) (want : Compatibility) :
    (∀ m : Manifest, m.validate codec.parseTime = .ok () → m.compatible want = .ok () →
      (Provides m want ↔ ∀ entry ∈ want.adapterVersions.entries, entry.2 ≠ "")) ∧
    (∀ listing run before log result,
      Executes (fun _ _ => True) (latest codec listing run want before) [] log
        (some (.ok result)) →
      (Provides result.manifest want ↔ ∀ entry ∈ want.adapterVersions.entries, entry.2 ≠ "")) := by
  constructor
  · intro m hv hc
    exact provides_iff (manifest_accepted hv).metadata hc
  · intro listing run before log result he
    obtain ⟨hv, hc⟩ := (latest_returns listing run before []).result he result rfl
    exact provides_iff (manifest_accepted hv).metadata hc

section Samples

def blankWant : Compatibility :=
  { sampleWant with adapterVersions := ⟨[("nvidia-gpu", "")], List.nodup_singleton _⟩ }

theorem latest_sample (h : sampleManifest.compatible want = .ok ()) :
    ∃ log, Executes (fun _ _ => True) (latest sampleCodec sampleListing "run" want none) [] log
      (some (.ok sampleResult)) := by
  have husable : Usable sampleCodec sampleStore "run" want none 7 sampleResult :=
    ⟨sampleStore_usable.below, sampleStore_usable.loads, h, sampleStore_usable.objects⟩
  have hscan : ScanResult sampleCodec sampleStore "run" want _
      (outcome sampleAnswer (latest sampleCodec sampleListing "run" want none)) :=
    latest_scan (fun l c => reliable_reply sampleStore c) sampleListing_lists sampleStore_few want none
  obtain ⟨log, he⟩ := outcome_executes sampleAnswer
    (latest sampleCodec sampleListing "run" want none)
  cases hscan with
  | inl hfound =>
    obtain ⟨step, -, result, hr, hu, -⟩ := hfound
    obtain rfl := step_of_usable hu
    obtain rfl := hu.loads.unique husable.loads
    rw [hr] at he
    exact ⟨log, he⟩
  | inr hnone =>
    exact absurd husable (hnone.2 7 ((mem_listed sampleListing_lists).mp husable).1 sampleResult)

theorem compatible_provides_sample : Provides sampleManifest sampleWant ∧
    ∃ log, Executes (fun _ _ => True)
      (latest sampleCodec sampleListing "run" sampleWant none) [] log (some (.ok sampleResult)) ∧
      Provides sampleResult.manifest sampleWant := by
  have h := compatible_provides sampleCodec sampleWant
  have hne : ∀ entry ∈ sampleWant.adapterVersions.entries, entry.2 ≠ "" := by decide
  have hv := decodeManifest_valid sampleCodec decode_sampleManifest
  have hc := sampleStore_usable.compatible
  obtain ⟨log, he⟩ := latest_sample hc
  exact ⟨(h.1 sampleManifest hv hc).mpr hne,
    log, he, (h.2 sampleListing "run" none log sampleResult he).mpr hne⟩

/-- A checkpoint without any GPU adapter is compatible with the request, and is
what the request is answered with. -/
theorem blank_version_passes :
    (sampleManifest.validate sampleCodec.parseTime = .ok () ∧
      sampleManifest.compatible blankWant = .ok () ∧ ¬ Provides sampleManifest blankWant) ∧
    ∃ log, Executes (fun _ _ => True)
      (latest sampleCodec sampleListing "run" blankWant none) [] log (some (.ok sampleResult)) ∧
      sampleResult.manifest.metadata.adapterVersions.get? "nvidia-gpu" = none := by
  have hc : sampleManifest.compatible blankWant = .ok () := by decide +kernel
  have hlacks : sampleManifest.metadata.adapterVersions.get? "nvidia-gpu" = none := by decide
  obtain ⟨log, he⟩ := latest_sample hc
  refine ⟨⟨decodeManifest_valid sampleCodec decode_sampleManifest, hc, ?_⟩, log, he, hlacks⟩
  intro h
  have hlists := h.adapters ("nvidia-gpu", "") (by decide)
  rw [hlacks] at hlists
  cases hlists

end Samples

end HeteroCluster.CompatibleCheckpoints
