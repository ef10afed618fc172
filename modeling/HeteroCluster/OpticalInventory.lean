import HeteroCluster.FailFast
import HeteroCluster.InventoryPublication
import HeteroCluster.JsonText
import Mathlib.Data.List.AList

namespace HeteroCluster.OpticalInventory

open GoStrings FailFast JsonText InventoryPublication OperatorCalls Retries

def driverName : String := "orchestration.optical.gputpu.io"

def annotationKeys : AnnotationKeys where
  inventory := "orchestration.gputpu.io/optical-inventory-v1"
  hash := "orchestration.gputpu.io/optical-inventory-hash"
  bootID := "orchestration.gputpu.io/optical-inventory-boot-id"

inductive Kind where
  | switch
  | cpoPhotonic
  | physicalAsic
  deriving DecidableEq, Repr

def Kind.text : Kind → String
  | .switch => "switch"
  | .cpoPhotonic => "cpo-photonic"
  | .physicalAsic => "physical-asic"

/-- A device, with the text of its kind as the annotation has it or with the
kind that was parsed. -/
structure LocalDevice (κ : Type) where
  name : String
  kind : κ
  numa : Int
  model : String
  vendor : String
  partNumber : String
  formFactor : String
  protocol : String
  componentRole : String
  management : String
  sourceID : String
  linkID : String
  topology : String
  location : String
  ports : Int
  bandwidthGbps : Int
  wavelengthNM : Int
  fullDuplex : Bool
  lanes : Int
  reachMeters : Int
  outputPowerDBm : Int
  deriving DecidableEq, Repr

structure Inventory where
  nodeName : String
  devices : AList (fun _ : String => LocalDevice Kind)

section Json

def deviceText (device : LocalDevice Kind) : String :=
  jsonObject ([("name", jsonString device.name), ("kind", jsonString device.kind.text),
      ("numaNode", toString device.numa), ("model", jsonString device.model)] ++
    omitEmpty "" "vendor" device.vendor jsonString ++
    omitEmpty "" "partNumber" device.partNumber jsonString ++
    omitEmpty "" "formFactor" device.formFactor jsonString ++
    omitEmpty "" "protocol" device.protocol jsonString ++
    omitEmpty "" "componentRole" device.componentRole jsonString ++
    omitEmpty "" "managementInterface" device.management jsonString ++
    omitEmpty "" "sourceId" device.sourceID jsonString ++
    omitEmpty "" "linkId" device.linkID jsonString ++
    [("topology", jsonString device.topology), ("location", jsonString device.location),
      ("ports", toString device.ports), ("bandwidthGbps", toString device.bandwidthGbps)] ++
    omitEmpty 0 "wavelengthNm" device.wavelengthNM toString ++
    omitEmpty false "fullDuplex" device.fullDuplex toString ++
    omitEmpty 0 "lanes" device.lanes toString ++
    omitEmpty 0 "reachMeters" device.reachMeters toString ++
    omitEmpty 0 "outputPowerDbm" device.outputPowerDBm toString)

def devicesText (inv : Inventory) : String :=
  jsonSlice ((inv.devices.keys.mergeSort (· ≤ ·)).filterMap
    (fun name => (inv.devices.lookup name).map deviceText))

def summaryText (inv : Inventory) (bootID : String) : String :=
  jsonObject [("version", "1"), ("driver", jsonString driverName), ("bootID", jsonString bootID),
    ("devices", devicesText inv)]

end Json

/-- `sha256` is the hash in hexadecimal digits. -/
def summary (sha256 : String → String) (inv : Inventory) : Summary String := fun bootID =>
  if bootID = "" then .error "Kubernetes bootID is empty"
  else .ok (summaryText inv bootID, devicesText inv, sha256 (summaryText inv bootID))

def publish (retries : Backoff) (sha256 : String → String) (inv : Inventory) :
    Publisher (Option ClientError) :=
  publishInventory retries annotationKeys (summary sha256 inv)

theorem annotationKeys_apart : annotationKeys.Apart := by
  unfold AnnotationKeys.Apart
  decide

variable {retries : Backoff} {sha256 : String → String} {inv : Inventory}
variable {bootID bootID' value value' hash hash' : String}

abbrev StoresFor (retries : Backoff) (sha256 : String → String) (inv : Inventory) :=
  Stores annotationKeys (publish retries sha256 inv)

theorem stores_summary_iff : StoresFor retries sha256 inv bootID value hash ↔
    bootID ≠ "" ∧ value = devicesText inv ∧ hash = sha256 (summaryText inv bootID) := by
  rw [StoresFor, publish, stores_iff retries annotationKeys_apart]
  unfold summary
  split
  next h => simp [h]
  next h =>
    simp only [Except.ok.injEq, Prod.mk.injEq]
    constructor
    · rintro ⟨t, -, rfl, rfl⟩
      exact ⟨h, rfl, rfl⟩
    · rintro ⟨-, rfl, rfl⟩
      exact ⟨_, rfl, rfl, rfl⟩

theorem summaryText_inj (h : summaryText inv bootID = summaryText inv bootID') :
    bootID = bootID' := by
  apply jsonString_injective
  exact jsonObject_field_inj [("version", "1"), ("driver", jsonString driverName)] h

/-- The contract of `PublishInventory`: the hash is that of the devices alone, and
the inventory is the whole summary. -/
structure Honours (retries : Backoff) (sha256 : String → String) (inv : Inventory) : Prop where
  same : ∀ bootID value hash bootID' value' hash', StoresFor retries sha256 inv bootID value hash →
    StoresFor retries sha256 inv bootID' value' hash' → hash = hash'
  apart : ∀ inv' bootID value hash bootID' value' hash', inv.devices.lookup ≠ inv'.devices.lookup →
    StoresFor retries sha256 inv bootID value hash →
    StoresFor retries sha256 inv' bootID' value' hash' → hash ≠ hash'
  complete : ∀ bootID value hash, StoresFor retries sha256 inv bootID value hash →
    value = summaryText inv bootID

theorem stored_hash_ne (hs : Function.Injective sha256)
    (h : StoresFor retries sha256 inv bootID value hash)
    (h' : StoresFor retries sha256 inv bootID' value' hash') (hne : bootID ≠ bootID') :
    hash ≠ hash' := by
  obtain ⟨-, -, rfl⟩ := stores_summary_iff.mp h
  obtain ⟨-, -, rfl⟩ := stores_summary_iff.mp h'
  intro heq
  exact hne (summaryText_inj (hs heq))

theorem stored_value_ne (h : StoresFor retries sha256 inv bootID value hash) :
    value ≠ summaryText inv bootID := by
  obtain ⟨-, rfl, -⟩ := stores_summary_iff.mp h
  exact jsonSlice_ne_jsonObject _ _

theorem stores_of_ne (retries : Backoff) (sha256 : String → String) (inv : Inventory)
    (h : bootID ≠ "") :
    StoresFor retries sha256 inv bootID (devicesText inv) (sha256 (summaryText inv bootID)) :=
  stores_summary_iff.mpr ⟨h, rfl, rfl⟩

/-- The summary hands its values to the publisher in the wrong places: the
contract fails for every inventory. -/
theorem contract_broken (sha256 : String → String) (hs : Function.Injective sha256)
    (inv : Inventory) : ¬ Honours retries sha256 inv := by
  intro h
  have h1 := stores_of_ne retries sha256 inv (show "boot-1" ≠ "" by decide)
  have h2 := stores_of_ne retries sha256 inv (show "boot-2" ≠ "" by decide)
  exact stored_hash_ne hs h1 h2 (by decide) (h.same _ _ _ _ _ _ h1 h2)

def opticalSwitch : LocalDevice Kind where
  name := "ocs-1"
  kind := .switch
  numa := 0
  model := "ocs"
  vendor := ""
  partNumber := ""
  formFactor := ""
  protocol := ""
  componentRole := ""
  management := ""
  sourceID := ""
  linkID := ""
  topology := "ring"
  location := "rack-1"
  ports := 32
  bandwidthGbps := 400
  wavelengthNM := 0
  fullDuplex := false
  lanes := 0
  reachMeters := 0
  outputPowerDBm := 0

def oneSwitch : Inventory := ⟨"node", AList.singleton "ocs-1" opticalSwitch⟩

theorem contract_broken_oneSwitch : ¬ Honours ⟨5, by decide⟩ id oneSwitch :=
  contract_broken id Function.injective_id oneSwitch

theorem switch_summary_lost :
    ¬ ∃ retries, ∀ sha256 inv, Function.Injective sha256 → Honours retries sha256 inv := by
  rintro ⟨retries, h⟩
  have hstored := stores_of_ne retries id oneSwitch (show "boot-1" ≠ "" by decide)
  exact stored_value_ne hstored ((h id oneSwitch Function.injective_id).complete _ _ _ hstored)

end HeteroCluster.OpticalInventory
