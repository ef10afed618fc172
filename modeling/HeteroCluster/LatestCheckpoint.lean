import HeteroCluster.CommitProtocol
import Mathlib.Data.List.Sort

namespace HeteroCluster.LatestCheckpoint

open GoStrings CallProgram CheckpointManifest CheckpointCodec ObjectKeys ObjectStore
open CommitProtocol

def Reliable (s : Store String Bytes) : StoreEvent → Prop
  | ⟨.stat key, r⟩ => match s key with
    | some content => ∃ etag, r = .ok ⟨content.length, etag⟩
    | none => ∃ e, r = .error e
  | ⟨.get key none, r⟩ => match s key with
    | some content => r = .ok content
    | none => ∃ e, r = .error e
  | ⟨.get key (some (offset, length)), r⟩ => match s key with
    | some content => r = .ok ((content.drop offset.toNat).take length.toNat)
    | none => ∃ e, r = .error e
  | _ => True

structure Lists (s : Store String Bytes) (run : String) (listing : Listing) : Prop where
  once : listing.keys.Nodup
  complete : ∀ key, key ∈ listing.keys ↔ hasPrefix key (runPrefix run) = true ∧ (s key).isSome
  reliable : listing.err = none

structure Loads (codec : Codec) (s : Store String Bytes) (run : String) (step : UInt64)
    (result : LatestResult) : Prop where
  marker : ∃ data, s (markerKey run step) = some data ∧ data.length ≤ 64 <<< 10 ∧
    codec.decodeMarkerJSON data = .ok result.marker
  current : result.marker.checkpointVersion = version
  markerStep : result.marker.globalStep = step
  hash : result.marker.manifestSHA256.utf8ByteSize = 64
  time : codec.parseTime result.marker.committedAt = .ok ()
  manifest : ∃ data, s (objectKey run step "manifest.json") = some data ∧
    data.length ≤ maxManifestBytes ∧ codec.sha256 data = result.marker.manifestSHA256 ∧
    decodeManifest codec data = .ok result.manifest
  ownRun : result.manifest.runID = run
  ownStep : result.manifest.globalStep = step

def Intact (codec : Codec) (s : Store String Bytes) (run : String) (step : UInt64)
    (object : Object) : Prop :=
  object.length ≠ 0 ∧ StoredObject codec s run step object

structure Usable (codec : Codec) (s : Store String Bytes) (run : String) (want : Compatibility)
    (before : Option UInt64) (step : UInt64) (result : LatestResult) : Prop where
  below : ∀ b, before = some b → step < b
  loads : Loads codec s run step result
  compatible : result.manifest.compatible want = .ok ()
  objects : ∀ object ∈ result.manifest.objects, Intact codec s run step object

variable {codec : Codec} {s : Store String Bytes} {run : String} {step : UInt64}
variable {want : Compatibility} {before : Option UInt64} {log : StoreLog}

section Reads

abbrev Reads {α : Type} (s : Store String Bytes) (p : Flusher α) (log : StoreLog)
    (post : α → Prop) : Prop :=
  Ensures (fun _ e => Reliable s e) (fun _ _ => True) p log (fun r _ => post r)

theorem Reads.ask {α : Type} {c : StoreCall} {f : StoreReply c → Flusher α} {post : α → Prop}
    (h : ∀ r, Reliable s ⟨c, r⟩ → Reads s (f r) (log ++ [⟨c, r⟩]) post) :
    Reads s (ask c >>= f) log post :=
  Ensures.perform (fun _ _ => trivial) h

theorem readBounded_reads (key : String) (limit : Nat) :
    Reads s (readBounded key limit) log
      (fun r => ∀ data, r = .ok data ↔ s key = some data ∧ data.length ≤ limit) := by
  apply Reads.ask
  intro r hr
  cases hs : s key with
  | none =>
    obtain ⟨e, rfl⟩ : ∃ e, r = .error e := by simpa only [Reliable, hs] using hr
    intro data
    simp
  | some content =>
    obtain rfl : r = .ok content := by simpa only [Reliable, hs] using hr
    dsimp only
    by_cases hlen : content.length ≤ limit
    · have hall : content.take (limit + 1) = content := List.take_of_length_le (by omega)
      rw [hall, if_neg (by omega)]
      intro data
      simp only [Except.ok.injEq, Option.some.injEq]
      constructor
      · rintro rfl
        exact ⟨rfl, hlen⟩
      · intro h
        exact h.1
    · have hlong : (content.take (limit + 1)).length > limit := by
        rw [List.length_take]
        omega
      rw [if_pos hlong]
      intro data
      simp only [reduceCtorEq, Option.some.injEq, false_iff]
      rintro ⟨rfl, hd⟩
      exact hlen hd

theorem hashRange_reads {key : String} {content : Bytes} (hs : s key = some content)
    {offset length : UInt64} (hrange : offset.toNat + length.toNat ≤ content.length) :
    Reads s (hashRange codec key offset length) log (fun r => ∀ digest, r = .ok digest ↔
      length ≠ 0 ∧ codec.sha256 ((content.drop offset.toNat).take length.toNat) = digest) := by
  unfold hashRange
  by_cases hzero : length = 0
  · rw [if_pos hzero]
    intro digest
    simp [hzero]
  · rw [if_neg hzero]
    apply Reads.ask
    intro r hr
    obtain rfl : r = .ok ((content.drop offset.toNat).take length.toNat) := by
      simpa only [Reliable, hs] using hr
    have hlen : ((content.drop offset.toNat).take length.toNat).length = length.toNat := by
      rw [List.length_take, List.length_drop]
      omega
    have htake : ((content.drop offset.toNat).take length.toNat).take length.toNat =
        (content.drop offset.toNat).take length.toNat := List.take_of_length_le (by omega)
    dsimp only
    rw [htake, if_neg (by simp [hlen])]
    intro digest
    simp [hzero]

theorem Intact.content {object : Object} {content : Bytes} (h : Intact codec s run step object)
    (hs : s (objectKey run step object.path) = some content) :
    object.length ≠ 0 ∧ object.offset.toNat + object.length.toNat ≤ content.length ∧
      codec.sha256 ((content.drop object.offset.toNat).take object.length.toNat) =
        object.sha256 := by
  obtain ⟨hlen, content', hs', hrange, hhash⟩ := h
  obtain rfl : content = content' := Option.some.inj (hs.symm.trans hs')
  exact ⟨hlen, hrange, hhash⟩

theorem verifyObject_reads (object : Object) :
    Reads s (verifyObject codec run step object) log
      (fun r => r = none ↔ Intact codec s run step object) := by
  unfold verifyObject
  apply Reads.ask
  intro r hr
  cases hs : s (objectKey run step object.path) with
  | none =>
    obtain ⟨e, rfl⟩ : ∃ e, r = .error e := by simpa only [Reliable, hs] using hr
    apply iff_of_false (by simp)
    rintro ⟨-, content, hc, -⟩
    rw [hs] at hc
    cases hc
  | some content =>
    obtain ⟨etag, rfl⟩ : ∃ etag, r = .ok ⟨content.length, etag⟩ := by
      simpa only [Reliable, hs] using hr
    dsimp only
    by_cases hrange : object.offset.toNat + object.length.toNat ≤ content.length
    · rw [if_neg (by omega)]
      apply (hashRange_reads hs hrange).bind
      intro r log' hr
      cases r with
      | error e =>
        apply iff_of_false (by simp)
        intro h
        obtain ⟨hlen, -, hhash⟩ := h.content hs
        have hok := (hr object.sha256).mpr ⟨hlen, hhash⟩
        cases hok
      | ok digest =>
        obtain ⟨hlen, hdigest⟩ := (hr digest).mp rfl
        dsimp only
        by_cases heq : digest = object.sha256
        · rw [if_neg (by simp [heq])]
          exact iff_of_true rfl ⟨hlen, content, hs, hrange, hdigest.trans heq⟩
        · rw [if_pos heq]
          apply iff_of_false (by simp)
          intro h
          obtain ⟨-, -, hhash⟩ := h.content hs
          exact heq (hdigest.symm.trans hhash)
    · rw [if_pos (by omega)]
      apply iff_of_false (by simp)
      intro h
      exact hrange (h.content hs).2.1

theorem verifyObjects_reads (objects : List Object) :
    Reads s (verifyObjects codec run step objects) log
      (fun r => r = none ↔ ∀ object ∈ objects, Intact codec s run step object) := by
  induction objects generalizing log with
  | nil => exact iff_of_true rfl (by simp)
  | cons object objects ih =>
    unfold verifyObjects
    apply (verifyObject_reads object).bind
    intro r log' hr
    cases r with
    | some e =>
      apply iff_of_false (by simp)
      intro hall
      have hok := hr.mpr (hall object (by simp))
      cases hok
    | none =>
      apply ih.mono
      intro r _ hrest
      apply hrest.trans
      simp [hr.mp rfl]

end Reads

section Load

theorem checkMarker_eq_ok {data : Bytes} {marker : CommitMarker} :
    checkMarker codec step data = .ok marker ↔ codec.decodeMarkerJSON data = .ok marker ∧
      marker.checkpointVersion = version ∧ marker.globalStep = step ∧
      marker.manifestSHA256.utf8ByteSize = 64 ∧ codec.parseTime marker.committedAt = .ok () := by
  unfold checkMarker
  cases hd : codec.decodeMarkerJSON data with
  | error e => simp
  | ok found =>
    dsimp only
    split
    next hbad =>
      apply iff_of_false (by simp)
      rintro ⟨⟨⟩, hv, hs, hh, -⟩
      simp [hv, hs, hh] at hbad
    next hgood =>
      simp only [not_or, not_not] at hgood
      cases ht : codec.parseTime found.committedAt with
      | error e =>
        apply iff_of_false (by simp)
        rintro ⟨⟨⟩, -, -, -, htime⟩
        rw [ht] at htime
        cases htime
      | ok u =>
        constructor
        · rintro ⟨⟩
          exact ⟨rfl, hgood.1, hgood.2.1, hgood.2.2, ht⟩
        · rintro ⟨⟨⟩, -⟩
          rfl

theorem checkManifest_eq_ok {marker : CommitMarker} {data : Bytes} {manifest : Manifest} :
    checkManifest codec run step marker data = .ok manifest ↔
      codec.sha256 data = marker.manifestSHA256 ∧ decodeManifest codec data = .ok manifest ∧
      manifest.runID = run ∧ manifest.globalStep = step := by
  unfold checkManifest
  split
  next hbad =>
    apply iff_of_false (by simp)
    rintro ⟨hh, -⟩
    exact hbad hh
  next hgood =>
    rw [not_not] at hgood
    cases hd : decodeManifest codec data with
    | error e => simp
    | ok found =>
      dsimp only
      split
      next hbad =>
        apply iff_of_false (by simp)
        rintro ⟨-, ⟨⟩, hr, hs⟩
        simp [hr, hs] at hbad
      next hsame =>
        simp only [not_or, not_not] at hsame
        constructor
        · rintro ⟨⟩
          exact ⟨hgood, rfl, hsame⟩
        · rintro ⟨-, ⟨⟩, -⟩
          rfl

theorem Loads.checkMarker {result : LatestResult} {data : Bytes}
    (h : Loads codec s run step result) (hs : s (markerKey run step) = some data) :
    checkMarker codec step data = .ok result.marker := by
  obtain ⟨data', hs', -, hd⟩ := h.marker
  obtain rfl : data = data' := Option.some.inj (hs.symm.trans hs')
  exact checkMarker_eq_ok.mpr ⟨hd, h.current, h.markerStep, h.hash, h.time⟩

theorem Loads.checkManifest {result : LatestResult} {data : Bytes}
    (h : Loads codec s run step result)
    (hs : s (objectKey run step "manifest.json") = some data) :
    checkManifest codec run step result.marker data = .ok result.manifest := by
  obtain ⟨data', hs', -, hsum, hd⟩ := h.manifest
  obtain rfl : data = data' := Option.some.inj (hs.symm.trans hs')
  exact checkManifest_eq_ok.mpr ⟨hsum, hd, h.ownRun, h.ownStep⟩

theorem Loads.unique {result result' : LatestResult} (h : Loads codec s run step result)
    (h' : Loads codec s run step result') : result = result' := by
  obtain ⟨data, hs, -⟩ := h.marker
  obtain ⟨bytes, hb, -⟩ := h.manifest
  have hmarker := (h.checkMarker hs).symm.trans (h'.checkMarker hs)
  have hmanifest := h.checkManifest hb
  rw [Except.ok.inj hmarker, h'.checkManifest hb] at hmanifest
  obtain ⟨marker, manifest⟩ := result
  obtain ⟨marker', manifest'⟩ := result'
  obtain rfl : marker = marker' := Except.ok.inj hmarker
  obtain rfl : manifest' = manifest := Except.ok.inj hmanifest
  rfl

theorem loadCommitted_reads (run : String) (step : UInt64) :
    Reads s (loadCommitted codec run step) log
      (fun r => ∀ result, r = .ok result ↔ Loads codec s run step result) := by
  unfold loadCommitted
  apply (readBounded_reads _ _).bind
  intro r log' hmarker
  cases r with
  | error e =>
    intro result
    apply iff_of_false (by simp)
    intro h
    obtain ⟨data, hs, hlen, -⟩ := h.marker
    have hok := (hmarker data).mpr ⟨hs, hlen⟩
    cases hok
  | ok markerBytes =>
    obtain ⟨hs, hlen⟩ := (hmarker markerBytes).mp rfl
    dsimp only
    cases hc : checkMarker codec step markerBytes with
    | error e =>
      intro result
      apply iff_of_false (by simp)
      intro h
      have hok := hc.symm.trans (h.checkMarker hs)
      cases hok
    | ok marker =>
      obtain ⟨hd, hversion, hstep, hhash, htime⟩ := checkMarker_eq_ok.mp hc
      apply (readBounded_reads _ _).bind
      intro r log'' hmanifest
      cases r with
      | error e =>
        intro result
        apply iff_of_false (by simp)
        intro h
        obtain ⟨data, hs', hlen', -⟩ := h.manifest
        have hok := (hmanifest data).mpr ⟨hs', hlen'⟩
        cases hok
      | ok manifestBytes =>
        obtain ⟨hs', hlen'⟩ := (hmanifest manifestBytes).mp rfl
        dsimp only
        cases hm : checkManifest codec run step marker manifestBytes with
        | error e =>
          intro result
          apply iff_of_false (by simp)
          intro h
          have hsame : marker = result.marker := Except.ok.inj (hc.symm.trans (h.checkMarker hs))
          rw [hsame] at hm
          have hok := hm.symm.trans (h.checkManifest hs')
          cases hok
        | ok manifest =>
          obtain ⟨hsum, hdecoded, hrun, hglobal⟩ := checkManifest_eq_ok.mp hm
          have hl : Loads codec s run step ⟨marker, manifest⟩ :=
            ⟨⟨markerBytes, hs, hlen, hd⟩, hversion, hstep, hhash, htime,
              ⟨manifestBytes, hs', hlen', hsum, hdecoded⟩, hrun, hglobal⟩
          intro result
          constructor
          · rintro ⟨⟩
            exact hl
          · intro h
            rw [hl.unique h]

end Load

section Scan

/-- What the scan of some steps, from high to low, ends with. -/
def ScanResult (codec : Codec) (s : Store String Bytes) (run : String) (want : Compatibility)
    (steps : List UInt64) (r : Except FlushError LatestResult) : Prop :=
  (∃ step ∈ steps, ∃ result, r = .ok result ∧ Usable codec s run want none step result ∧
    ∀ step' ∈ steps, ∀ result', Usable codec s run want none step' result' → step' ≤ step) ∨
  (∃ e, r = .error e) ∧ ∀ step ∈ steps, ∀ result, ¬ Usable codec s run want none step result

theorem ScanResult.skip {steps : List UInt64} {r : Except FlushError LatestResult}
    (h : ScanResult codec s run want steps r)
    (hskip : ∀ result, ¬ Usable codec s run want none step result) :
    ScanResult codec s run want (step :: steps) r := by
  cases h with
  | inl h =>
    obtain ⟨found, hmem, result, hr, hu, hmax⟩ := h
    refine Or.inl ⟨found, List.mem_cons_of_mem step hmem, result, hr, hu, ?_⟩
    intro step' hstep' result' hu'
    cases hstep' with
    | head => exact absurd hu' (hskip result')
    | tail _ hstep' => exact hmax step' hstep' result' hu'
  | inr h =>
    refine Or.inr ⟨h.1, ?_⟩
    intro step' hstep' result' hu'
    cases hstep' with
    | head => exact hskip result' hu'
    | tail _ hstep' => exact h.2 step' hstep' result' hu'

theorem scanSteps_reads {steps : List UInt64} (hsorted : steps.Pairwise (fun a b => b ≤ a)) :
    Reads s (scanSteps codec run want steps) log (ScanResult codec s run want steps) := by
  induction steps generalizing log with
  | nil => exact Or.inr ⟨⟨_, rfl⟩, by simp⟩
  | cons step steps ih =>
    obtain ⟨hle, hsorted⟩ := List.pairwise_cons.mp hsorted
    have hskip : ∀ {l}, (∀ result, ¬ Usable codec s run want none step result) →
        Reads s (scanSteps codec run want steps) l
          (ScanResult codec s run want (step :: steps)) := by
      intro l hskip
      apply (ih hsorted).mono
      intro r _ hr
      exact hr.skip hskip
    unfold scanSteps
    apply (loadCommitted_reads run step).bind
    intro r log' hload
    cases r with
    | error e =>
      apply hskip
      intro result hu
      have hok := (hload result).mpr hu.loads
      cases hok
    | ok result =>
      have hl : Loads codec s run step result := (hload result).mp rfl
      dsimp only
      cases hc : result.manifest.compatible want with
      | error e =>
        apply hskip
        intro result' hu
        rw [hl.unique hu.loads] at hc
        exact absurd (hc.symm.trans hu.compatible) (by simp)
      | ok u =>
        apply Reads.ask
        intro order _
        apply (verifyObjects_reads order.val).bind
        intro r log'' hverify
        cases r with
        | some e =>
          apply hskip
          intro result' hu
          have hall : ∀ object ∈ order.val, Intact codec s run step object := by
            intro object ho
            have hmem : object ∈ result'.manifest.objects := by
              rw [← hl.unique hu.loads]
              exact order.property.mem_iff.mp ho
            exact hu.objects object hmem
          have hok := hverify.mpr hall
          cases hok
        | none =>
          have hall : ∀ object ∈ result.manifest.objects, Intact codec s run step object := by
            intro object ho
            exact hverify.mp rfl object (order.property.mem_iff.mpr ho)
          refine Or.inl ⟨step, by simp, result, rfl, ⟨by simp, hl, hc, hall⟩, ?_⟩
          intro step' hstep' _ _
          cases hstep' with
          | head => exact UInt64.le_refl step
          | tail _ hstep' => exact hle step' hstep'

end Scan

section Listing

/-- A key of the store that names a step of the run. -/
def StepMarker (s : Store String Bytes) (run key : String) : Prop :=
  (s key).isSome ∧ (markedStep (runPrefix run) key).isSome

def AtMost (limit : Nat) (p : String → Prop) : Prop :=
  ∃ keys : List String, keys.length ≤ limit ∧ ∀ key, p key → key ∈ keys

theorem append_split {sep a b : String} (h : sep = a ++ b) (s t u v : String) :
    s ++ t ++ sep ++ u ++ v = s ++ t ++ a ++ (b ++ (u ++ v)) := by
  rw [h]
  simp only [String.append_assoc]

theorem markerKey_eq (run : String) (step : UInt64) :
    markerKey run step = runPrefix run ++ ("step_" ++ (stepText step ++ ".complete")) :=
  append_split slash_step "checkpoints/" run (stepText step) ".complete"

theorem markedStep_markerKey (run : String) (step : UInt64) :
    markedStep (runPrefix run) (markerKey run step) = some step := by
  rw [markedStep, markerKey_eq, ← String.append_assoc, cutPrefix_append, Option.bind_some,
    cutSuffix_append, Option.bind_some, parseUint_stepText]

theorem hasPrefix_markerKey (run : String) (step : UInt64) :
    hasPrefix (markerKey run step) (runPrefix run) = true := by
  rw [hasPrefix, markerKey_eq, cutPrefix_append]
  rfl

theorem listedStep_eq_some {start key : String} :
    listedStep start before key = some step ↔
      markedStep start key = some step ∧ ∀ b, before = some b → step < b := by
  rw [listedStep, Option.filter_eq_some_iff]
  apply and_congr_right
  intro _
  cases before with
  | none => simp
  | some b => simp [UInt64.not_le]

theorem collectSteps_eq {start : String} (keys : List String) (steps : List UInt64)
    (h : (steps ++ keys.filterMap (listedStep start before)).length ≤ 10000) :
    collectSteps start before keys steps =
      .ok (steps ++ keys.filterMap (listedStep start before)) := by
  induction keys generalizing steps with
  | nil => simp [collectSteps]
  | cons key keys ih =>
    unfold collectSteps
    cases hk : listedStep start before key with
    | none =>
      rw [List.filterMap_cons_none hk] at h ⊢
      exact ih steps h
    | some step =>
      have hcons : steps ++ (key :: keys).filterMap (listedStep start before) =
          (steps ++ [step]) ++ keys.filterMap (listedStep start before) := by
        rw [List.filterMap_cons_some hk, List.append_assoc, List.singleton_append]
      rw [hcons] at h ⊢
      have hroom : ¬ (steps ++ [step]).length > 10000 := by
        rw [List.length_append] at h
        omega
      dsimp only
      rw [if_neg hroom]
      exact ih (steps ++ [step]) h

theorem length_listed_le {listing : Listing} (hl : Lists s run listing)
    (hfew : AtMost 10000 (StepMarker s run)) :
    (listing.keys.filterMap (listedStep (runPrefix run) before)).length ≤ 10000 := by
  obtain ⟨markers, hlen, hall⟩ := hfew
  have hfilter : listing.keys.filterMap (listedStep (runPrefix run) before) =
      (listing.keys.filter (fun key => (listedStep (runPrefix run) before key).isSome)).filterMap
        (listedStep (runPrefix run) before) := by
    rw [List.filterMap_filter]
    apply List.filterMap_congr
    intro key _
    cases listedStep (runPrefix run) before key <;> rfl
  have hsub : listing.keys.filter (fun key => (listedStep (runPrefix run) before key).isSome) ⊆
      markers := by
    intro key hkey
    obtain ⟨hmem, hsome⟩ := List.mem_filter.mp hkey
    obtain ⟨step, hstep⟩ := Option.isSome_iff_exists.mp hsome
    refine hall key ⟨((hl.complete key).mp hmem).2, ?_⟩
    rw [(listedStep_eq_some.mp hstep).1]
    rfl
  have hcount := (List.subperm_of_subset (hl.once.filter _) hsub).length_le
  rw [hfilter]
  exact (List.length_filterMap_le _ _).trans (hcount.trans hlen)

theorem mem_listed {listing : Listing} (hl : Lists s run listing) {result : LatestResult} :
    Usable codec s run want before step result ↔
      step ∈ listing.keys.filterMap (listedStep (runPrefix run) before) ∧
        Usable codec s run want none step result := by
  constructor
  · intro h
    refine ⟨?_, by simp, h.loads, h.compatible, h.objects⟩
    obtain ⟨data, hs, -⟩ := h.loads.marker
    have hkey : markerKey run step ∈ listing.keys :=
      (hl.complete _).mpr ⟨hasPrefix_markerKey run step, by rw [hs]; rfl⟩
    exact List.mem_filterMap.mpr
      ⟨_, hkey, listedStep_eq_some.mpr ⟨markedStep_markerKey run step, h.below⟩⟩
  · rintro ⟨hmem, h⟩
    obtain ⟨key, -, hkey⟩ := List.mem_filterMap.mp hmem
    exact ⟨(listedStep_eq_some.mp hkey).2, h.loads, h.compatible, h.objects⟩

theorem pairwise_descending (steps : List UInt64) :
    (steps.mergeSort (fun a b => decide (a ≤ b))).reverse.Pairwise (fun a b => b ≤ a) := by
  have hpair : (steps.mergeSort (fun a b => decide (a ≤ b))).Pairwise
      (fun a b => decide (a ≤ b) = true) := by
    apply List.pairwise_mergeSort
    · intro a b c hab hbc
      rw [decide_eq_true_eq] at hab hbc ⊢
      exact UInt64.le_trans hab hbc
    · intro a b
      simpa using UInt64.le_total a b
  rw [List.pairwise_reverse]
  simpa using hpair

end Listing

theorem latest_reads {listing : Listing} (hl : Lists s run listing)
    (hfew : AtMost 10000 (StepMarker s run)) :
    Reads s (latest codec listing run want before) log (ScanResult codec s run want
      (listing.keys.filterMap (listedStep (runPrefix run) before))) := by
  have hlen : ([] ++ listing.keys.filterMap (listedStep (runPrefix run) before)).length ≤ 10000 :=
    length_listed_le hl hfew
  unfold latest
  rw [collectSteps_eq listing.keys [] hlen, hl.reliable]
  dsimp only
  rw [List.nil_append]
  generalize listing.keys.filterMap (listedStep (runPrefix run) before) = steps
  have hsorted := pairwise_descending steps
  have hmem : ∀ step, step ∈ (steps.mergeSort (fun a b => decide (a ≤ b))).reverse ↔
      step ∈ steps := by simp
  apply (scanSteps_reads hsorted).mono
  intro r _ hr
  simpa only [ScanResult, hmem] using hr

def outcome {α : Type} (answer : StoreLog → (c : StoreCall) → StoreReply c) (p : Flusher α) : α :=
  (serve answer (fun l c => l ++ [⟨c, answer l c⟩]) p []).1

theorem outcome_executes {α : Type} (answer : StoreLog → (c : StoreCall) → StoreReply c)
    (p : Flusher α) : ∃ log, Executes (fun _ _ => True) p [] log (some (outcome answer p)) :=
  ⟨_, serve_executes (fun _ _ => trivial) p []⟩

theorem latest_scan {listing : Listing} {answer : StoreLog → (c : StoreCall) → StoreReply c}
    (ha : ∀ l c, Reliable s ⟨c, answer l c⟩) (hl : Lists s run listing)
    (hfew : AtMost 10000 (StepMarker s run)) (want : Compatibility) (before : Option UInt64) :
    ScanResult codec s run want (listing.keys.filterMap (listedStep (runPrefix run) before))
      (outcome answer (latest codec listing run want before)) := by
  have hreads : Reads s (latest codec listing run want before) [] _ := latest_reads hl hfew
  exact hreads.serve (fun l c => ha l c)

/-- The latest checkpoint is the usable one with the greatest step, and there is
an error exactly if there is none. -/
theorem latest_greatest {listing : Listing} {answer : StoreLog → (c : StoreCall) → StoreReply c}
    (ha : ∀ l c, Reliable s ⟨c, answer l c⟩) (hl : Lists s run listing)
    (hfew : AtMost 10000 (StepMarker s run)) (want : Compatibility) (before : Option UInt64) :
    (∀ result, outcome answer (latest codec listing run want before) = .ok result ↔
      ∃ step, Usable codec s run want before step result ∧
        ∀ step' result', Usable codec s run want before step' result' → step' ≤ step) ∧
    ((∃ e, outcome answer (latest codec listing run want before) = .error e) ↔
      ∀ step result, ¬ Usable codec s run want before step result) := by
  have hscan : ScanResult codec s run want _ _ := latest_scan ha hl hfew want before
  generalize outcome answer (latest codec listing run want before) = r at hscan ⊢
  cases hscan with
  | inl h =>
    obtain ⟨step, hstep, result, rfl, hu, hmax⟩ := h
    have hbest : Usable codec s run want before step result := (mem_listed hl).mpr ⟨hstep, hu⟩
    have hgreatest : ∀ step' result', Usable codec s run want before step' result' →
        step' ≤ step := by
      intro step' result' hu'
      obtain ⟨hmem, hu''⟩ := (mem_listed hl).mp hu'
      exact hmax step' hmem result' hu''
    constructor
    · intro result'
      constructor
      · rintro ⟨⟩
        exact ⟨step, hbest, hgreatest⟩
      · rintro ⟨step', hu', hmax'⟩
        obtain rfl : step = step' :=
          UInt64.le_antisymm (hmax' step result hbest) (hgreatest step' result' hu')
        rw [hbest.loads.unique hu'.loads]
    · apply iff_of_false (by simp)
      intro hnone
      exact hnone step result hbest
  | inr h =>
    obtain ⟨⟨e, rfl⟩, hnone⟩ := h
    have hall : ∀ step result, ¬ Usable codec s run want before step result := by
      intro step result hu
      obtain ⟨hmem, hu'⟩ := (mem_listed hl).mp hu
      exact hnone step hmem result hu'
    constructor
    · intro result
      apply iff_of_false (by simp)
      rintro ⟨step, hu, -⟩
      exact hall step result hu
    · exact iff_of_true ⟨e, rfl⟩ hall

section Samples

theorem reliable_reply (s : Store String Bytes) (c : StoreCall) :
    Reliable s ⟨c, (reliable s c).1⟩ := by
  cases c with
  | stat key =>
    cases hk : s key with
    | none => simp [Reliable, reliable, hk]
    | some content => simp [Reliable, reliable, hk]
  | get key range =>
    cases range with
    | none => cases hk : s key <;> simp [Reliable, reliable, hk]
    | some range => cases hk : s key <;> simp [Reliable, reliable, hk]
  | _ => trivial

def sampleResult : LatestResult := ⟨⟨version, 7, sampleHash [42], "", 0⟩, sampleManifest⟩

/-- A complete checkpoint of step 7, and a damaged marker of step 9. -/
def sampleContents : List (String × Bytes) :=
  [(markerKey "run" 7, sampleCodec.marshalMarker sampleResult.marker),
    (objectKey "run" 7 "manifest.json", [42]), (objectKey "run" 7 "w.bin", [7]),
    (objectKey "run" 7 "optimizer_state.json", [1]), (objectKey "run" 7 "rng/0.bin", [2]),
    (markerKey "run" 9, [])]

def sampleStore : Store String Bytes := fun key => sampleContents.lookup key

def sampleListing : Listing := ⟨sampleContents.map Prod.fst, none⟩

def sampleWant : Compatibility :=
  ⟨"model", zeroHash, "data", "sha256:" ++ zeroHash, "torch", "2",
    ⟨[("cpu", "1")], List.nodup_singleton _⟩⟩

theorem mem_sampleContents {key : String} :
    key ∈ sampleContents.map Prod.fst ↔ (sampleStore key).isSome = true := by
  rw [sampleStore, List.lookup_isSome_iff]
  simp

theorem sampleListing_lists : Lists sampleStore "run" sampleListing where
  once := by decide +kernel
  complete key := by
    constructor
    · intro hkey
      have hall : ∀ key ∈ sampleContents.map Prod.fst, hasPrefix key (runPrefix "run") = true := by
        decide +kernel
      exact ⟨hall key hkey, mem_sampleContents.mp hkey⟩
    · intro hkey
      exact mem_sampleContents.mpr hkey.2
  reliable := rfl

def sampleAnswer (_ : StoreLog) (c : StoreCall) : StoreReply c := (reliable sampleStore c).1

theorem sampleStore_usable :
    Usable sampleCodec sampleStore "run" sampleWant none 7 sampleResult := by
  have hlen : (sampleCodec.marshalMarker sampleResult.marker).length ≤ 64 <<< 10 := by
    decide +kernel
  have hverify : (outcome sampleAnswer
      (verifyObjects sampleCodec "run" 7 sampleManifest.objects)).isNone = true := by
    decide +kernel
  have hreads : Reads sampleStore (verifyObjects sampleCodec "run" 7 sampleManifest.objects) [] _ :=
    verifyObjects_reads _
  refine ⟨by simp,
    ⟨⟨_, ?_, hlen, sampleCodec.decode_marshal _ rfl⟩, rfl, rfl, ?_, rfl, ?_, rfl, rfl⟩, ?_, ?_⟩
  · decide +kernel
  · decide +kernel
  · exact ⟨[42], by decide +kernel, by decide +kernel, rfl, decode_sampleManifest⟩
  · decide +kernel
  · exact (hreads.serve (fun l c => reliable_reply sampleStore c)).mp
      (Option.isNone_iff_eq_none.mp hverify)

theorem sampleStore_few : AtMost 10000 (StepMarker sampleStore "run") :=
  ⟨sampleContents.map Prod.fst, by decide, fun _ hkey => mem_sampleContents.mpr hkey.1⟩

theorem step_of_usable {result : LatestResult}
    (h : Usable sampleCodec sampleStore "run" want none step result) : step = 7 := by
  have hsteps : sampleListing.keys.filterMap (listedStep (runPrefix "run") none) = [7, 9] := by
    decide +kernel
  have hmem := ((mem_listed sampleListing_lists).mp h).1
  rw [hsteps, List.mem_cons, List.mem_singleton] at hmem
  obtain rfl | rfl := hmem
  · rfl
  · obtain ⟨data, hs, -, hd⟩ := h.loads.marker
    have hempty : sampleStore (markerKey "run" 9) = some [] := by decide +kernel
    rw [hempty, Option.some.injEq] at hs
    rw [← hs] at hd
    cases hd

theorem latest_greatest_sample :
    outcome sampleAnswer (latest sampleCodec sampleListing "run" sampleWant none) =
      .ok sampleResult := by
  refine ((latest_greatest (fun l c => reliable_reply sampleStore c) sampleListing_lists
    sampleStore_few sampleWant none).1 sampleResult).mpr ⟨7, sampleStore_usable, ?_⟩
  intro step result hu
  rw [step_of_usable hu]
  exact UInt64.le_refl 7

end Samples

end HeteroCluster.LatestCheckpoint
