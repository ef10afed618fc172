import HeteroCluster.ComputeDriver
import HeteroCluster.DeviceOperations

namespace HeteroCluster.DeviceExclusivity

open CallProgram FailFast ExclusiveTable DevicePlugin DeviceOperations ComputeDriver

section Runs

variable (p : Plugin)

/-- The state directory and, while the plugin runs, its prepared claims. A
crash may come before or after any call of an operation. -/
inductive Reaches : Disk p → Option Prepared → Prop
  | install : Reaches ∅ none
  | restart {d : Disk p} {o : Option Prepared} {m : Prepared} (h : Reaches d o)
      (hn : newPlugin p d = .ok m) : Reaches d (some m)
  | operation {d : Disk p} {m m' : Prepared} {op : Operation} {log : PluginLog p}
      (h : Reaches d (some m))
      (he : Executes (allowed p d) (perform p m op) [] log (some m')) :
      Reaches (after p d log) (some m')
  | crash {d : Disk p} {m : Prepared} {op : Operation} {log : PluginLog p}
      (h : Reaches d (some m)) (he : Executes (allowed p d) (perform p m op) [] log none) :
      Reaches (after p d log) none

def diskRecords (d : Disk p) : List PreparedClaim :=
  d.entries.filterMap (fun file => p.format.decode file.2)

end Runs

def memoryRecords (m : Prepared) : List PreparedClaim := m.entries.map Sigma.snd

/-- No device is held by two records with different claim UIDs. -/
def DevicesApart (records : List PreparedClaim) : Prop :=
  ∀ a ∈ records, ∀ b ∈ records, ∀ name, name ∈ a.devices → name ∈ b.devices → a.uid = b.uid

variable {p : Plugin} {d : Disk p} {o : Option Prepared} {m : Prepared} {claim : ResourceClaim}

section Restart

/-- The owners that `New` noted hold their devices on disk. -/
def Owned (d : Disk p) (held : Held) : Prop :=
  ∀ name owner, held.lookup name = some owner →
    ∃ record, stored p d owner = some record ∧ name ∈ record.devices

/-- What `New` has found. The records it took are those of the files it read. -/
structure Loaded (d : Disk p) (files : List (Sigma fun _ : String => p.format.Data))
    (state : Held × Prepared) : Prop where
  held : Owned d state.1
  prepared : ∀ uid record, state.2.lookup uid = some record → stored p d uid = some record
  read : ∀ file ∈ files, ∃ uid, file.1 = p.path uid ∧ (state.2.lookup uid).isSome

theorem holdDevice_ok (hc : Consistent p d) {record : PreparedClaim}
    (hr : stored p d record.uid = some record) {held : Held} {name : String}
    (hh : Owned d held) (hn : name ∈ record.devices) :
    holdDevice p record.uid held name = .ok (held.insert name record.uid) := by
  have hpresent := (hc.exclusive.valid record.uid record hr).present name hn
  have howner : (held.lookup name).getD record.uid = record.uid := by
    cases ho : held.lookup name with
    | none => rfl
    | some owner =>
      obtain ⟨r, hs, hin⟩ := hh name owner ho
      exact hc.exclusive.apart owner record.uid r record name hs hr hin hn
  simp only [holdDevice, bind_eq_ok, exists_unit, pure_eq_ok, refuse_eq_ok]
  exact ⟨by simpa using hpresent, by simpa using howner, trivial⟩

theorem holdDevices_ok (hc : Consistent p d) {record : PreparedClaim}
    (hr : stored p d record.uid = some record) {held : Held} (hh : Owned d held) :
    ∃ held', record.devices.foldlM (holdDevice p record.uid) held = .ok held' ∧
      Owned d held' := by
  apply foldlM_succeeds (fun _ held => Owned d held) hh
  intro done name s hn hs
  refine ⟨s.insert name record.uid, holdDevice_ok hc hr hs hn, ?_⟩
  intro other owner ho
  by_cases he : other = name
  · rw [he, AList.lookup_insert] at ho
    rw [he, ← Option.some.inj ho]
    exact ⟨record, hr, hn⟩
  · rw [AList.lookup_insert_ne he] at ho
    exact hs other owner ho

/-- `New` accepts a file of a consistent directory. -/
theorem loadRecord_ok (hc : Consistent p d) {done : List (Sigma fun _ : String => p.format.Data)}
    {state : Held × Prepared} (h : Loaded d done state)
    {file : Sigma fun _ : String => p.format.Data} (hf : file ∈ d.entries) :
    ∃ state', loadRecord p state file = .ok state' ∧ Loaded d (done ++ [file]) state' := by
  have hl : d.lookup file.1 = some file.2 := AList.mem_lookup_iff.mpr hf
  obtain ⟨record, hpath, hdata⟩ := hc.written file.1 file.2 hl
  have hdecode : p.format.decode file.2 = some record := by
    rw [hdata, p.format.decode_encode]
  have hr : stored p d record.uid = some record := by
    rw [stored, view, ← hpath, hl, Option.bind_some, hdecode]
  have hv := hc.exclusive.valid record.uid record hr
  obtain ⟨held, hheld, hh⟩ := holdDevices_ok hc hr h.held
  refine ⟨(held, state.2.insert record.uid record), ?_, hh, ?_, ?_⟩
  · simp only [loadRecord, hdecode, bind_eq_ok, exists_unit, pure_eq_ok, refuse_eq_ok]
    refine ⟨?_, held, hheld, by simp [hv.inventory], rfl⟩
    simp [hv.version, hv.named]
  · intro uid r hu
    by_cases he : uid = record.uid
    · rw [he, AList.lookup_insert] at hu
      rw [he, hr, hu]
    · rw [AList.lookup_insert_ne he] at hu
      exact h.prepared uid r hu
  · intro f hfile
    obtain hfile | hfile := List.mem_append.mp hfile
    · obtain ⟨uid, hp, hsome⟩ := h.read f hfile
      refine ⟨uid, hp, ?_⟩
      by_cases he : uid = record.uid
      · rw [he, AList.lookup_insert]
        rfl
      · rwa [AList.lookup_insert_ne he]
    · rw [List.mem_singleton.mp hfile]
      exact ⟨record.uid, hpath, by rw [AList.lookup_insert]; rfl⟩

theorem newPlugin_ok (hc : Consistent p d) : ∃ m, newPlugin p d = .ok m ∧ Mirrors p m d := by
  have hstart : Loaded d [] ((∅, ∅) : Held × Prepared) :=
    ⟨by simp [Owned], by simp, by simp⟩
  obtain ⟨state, hload, h⟩ := foldlM_succeeds (Loaded d) hstart
    (fun done file s hf hs => loadRecord_ok hc hs hf)
  refine ⟨state.2, by simp only [newPlugin, bind_eq_ok, pure_eq_ok]; exact ⟨state, hload, rfl⟩, ?_⟩
  intro uid
  cases hs : stored p d uid with
  | none =>
    cases hu : state.2.lookup uid with
    | none => rfl
    | some r => rw [h.prepared uid r hu] at hs; cases hs
  | some record =>
    -- the record comes from a file that was read
    obtain ⟨data, hl, -⟩ := Option.bind_eq_some_iff.mp hs
    obtain ⟨other, hp, hsome⟩ := h.read ⟨p.path uid, data⟩ (AList.mem_lookup_iff.mp hl)
    rw [← path_injective hp] at hsome
    obtain ⟨r, hu⟩ := Option.isSome_iff_exists.mp hsome
    rw [hu, ← hs, h.prepared uid r hu]

theorem newPlugin_mirrors (hc : Consistent p d) (hn : newPlugin p d = .ok m) : Mirrors p m d := by
  obtain ⟨m', hn', hm⟩ := newPlugin_ok hc
  rw [hn] at hn'
  rwa [Except.ok.inj hn']

end Restart

theorem consistent_empty : Consistent p ∅ := by
  have hstored : stored p ∅ = fun _ => none := by
    funext uid
    rw [stored, view, AList.lookup_empty, Option.bind_none]
  constructor
  · simp
  · rw [hstored]
    exact exclusive_empty

theorem reaches_inv (h : Reaches p d o) : Consistent p d ∧ ∀ m, o = some m → Mirrors p m d := by
  induction h with
  | install => exact ⟨consistent_empty, nofun⟩
  | restart _ hn ih =>
    refine ⟨ih.1, ?_⟩
    intro m hm
    rw [← Option.some.inj hm]
    exact newPlugin_mirrors ih.1 hn
  | @operation d m m' op log _ he ih =>
    have hstart : Synced d m [] := ⟨ih.1, ih.2 m rfl⟩
    have hs := (perform_ensures op hstart).result he
    refine ⟨hs.consistent, ?_⟩
    intro m'' hm
    rw [← Option.some.inj hm]
    exact hs.mirrors
  | @crash d m op log _ he ih =>
    have hstart : Synced d m [] := ⟨ih.1, ih.2 m rfl⟩
    have hrun := perform_ensures op hstart
    refine ⟨?_, nofun⟩
    apply hrun.invariant he (fun log => Consistent p (after p d log))
    · intro l e _ _ hg
      rw [after_snoc]
      exact hg
    · exact ih.1

theorem mem_diskRecords (hc : Consistent p d) {record : PreparedClaim} :
    record ∈ diskRecords p d ↔ stored p d record.uid = some record := by
  constructor
  · intro h
    obtain ⟨file, hf, hd⟩ := List.mem_filterMap.mp h
    have hl : d.lookup file.1 = some file.2 := AList.mem_lookup_iff.mpr hf
    obtain ⟨r, hpath, hdata⟩ := hc.written file.1 file.2 hl
    have hr : r = record := by
      rw [hdata, p.format.decode_encode] at hd
      exact Option.some.inj hd
    rw [stored, view, ← hr, ← hpath, hl, Option.bind_some, hdata, p.format.decode_encode]
  · intro h
    obtain ⟨data, hl, hd⟩ := Option.bind_eq_some_iff.mp h
    exact List.mem_filterMap.mpr ⟨⟨p.path record.uid, data⟩, AList.mem_lookup_iff.mp hl, hd⟩

theorem mem_memoryRecords (hc : Consistent p d) (hm : Mirrors p m d) {record : PreparedClaim} :
    record ∈ memoryRecords m ↔ stored p d record.uid = some record := by
  rw [← hm]
  constructor
  · intro h
    obtain ⟨entry, he, rfl⟩ := List.mem_map.mp h
    have hl : m.lookup entry.1 = some entry.2 := AList.mem_lookup_iff.mpr he
    have hs : stored p d entry.1 = some entry.2 := by rw [← hm, hl]
    rwa [(hc.exclusive.valid entry.1 entry.2 hs).own]
  · intro h
    exact List.mem_map.mpr ⟨⟨record.uid, record⟩, AList.mem_lookup_iff.mp h, rfl⟩

theorem devicesApart_of_stored (hc : Consistent p d) {records : List PreparedClaim}
    (h : ∀ record ∈ records, stored p d record.uid = some record) : DevicesApart records := by
  intro a ha b hb name hna hnb
  exact hc.exclusive.apart a.uid b.uid a b name (h a ha) (h b hb) hna hnb

theorem lookup_of_stored {d' : Disk p} (hc : Consistent p d) (hc' : Consistent p d')
    (h : stored p d' = stored p d) (path : String) : d'.lookup path = d.lookup path := by
  have hfile : ∀ {d : Disk p}, Consistent p d → ∀ data, d.lookup path = some data ↔
      ∃ record, path = p.path record.uid ∧ data = p.format.encode record ∧
        stored p d record.uid = some record := by
    intro d hc data
    constructor
    · intro hl
      obtain ⟨record, hp, hd⟩ := hc.written path data hl
      refine ⟨record, hp, hd, ?_⟩
      rw [stored, view, ← hp, hl, Option.bind_some, hd, p.format.decode_encode]
    · rintro ⟨record, hp, rfl, hs⟩
      obtain ⟨data, hl, hd⟩ := Option.bind_eq_some_iff.mp hs
      obtain ⟨r, -, hdata⟩ := hc.written _ data hl
      rw [hdata, p.format.decode_encode] at hd
      rw [hp, hl, hdata, Option.some.inj hd]
  apply Option.ext
  intro data
  rw [hfile hc', hfile hc, h]

section Claims

variable (p)

/-- The claim is allocated as it was when the record was made. -/
structure SameAllocation (old : PreparedClaim) (claim : ResourceClaim) : Prop where
  nonempty : claim.allocation.getD [] ≠ []
  hash : old.hash = p.allocationHash (claim.allocation.getD [])
  nameSpace : old.nameSpace = claim.nameSpace
  name : old.name = claim.name

/-- A claim that is reported as failed leaves the map and the files alone. -/
def FailureKeeps (d : Disk p) (m : Prepared) : Prop :=
  ∀ claim log r m', Executes (allowed p d) (prepareClaim p m claim) [] log (some (r, m')) →
    r.err.isSome → m' = m ∧ after p d log = d

/-- The same of a claim in a batch that names each claim once. -/
def BatchFailureKeeps (d : Disk p) (m : Prepared) : Prop :=
  ∀ claims log results m',
    Executes (allowed p d) (prepareResourceClaims p m claims) [] log (some (results, m')) →
    (claims.map ResourceClaim.uid).Nodup → ∀ uid result, results.lookup uid = some result →
    result.err.isSome →
    m'.lookup uid = m.lookup uid ∧ stored p (after p d log) uid = stored p d uid

/-- To prepare a prepared claim changes nothing, whether or not it is
interrupted, and fails only if the file cannot be written. -/
def RepeatKeeps (d : Disk p) (m : Prepared) : Prop :=
  ∀ claim old, m.lookup claim.uid = some old → SameAllocation p old claim → ∀ log o,
    Executes (allowed p d) (prepareClaim p m claim) [] log o →
    (∀ path, (after p d log).lookup path = d.lookup path) ∧
    ∀ r, o = some r → (∀ uid, r.2.lookup uid = m.lookup uid) ∧
      ∀ err, r.1.err = some err → ∃ path data, ⟨.atomicJSON path data, some err⟩ ∈ log

variable {p}

theorem failureKeeps (h : Synced d m []) : FailureKeeps p d m := by
  intro claim log r m' he herr
  exact ((prepareClaim_ensures claim h).result he).failed herr

theorem batchFailureKeeps (h : Synced d m []) : BatchFailureKeeps p d m := by
  intro claims log results m' he hnodup uid result hres herr
  have hr := (prepareClaims_ensures claims ∅ h).result he
  have hsame : m'.lookup uid = m.lookup uid := by
    by_cases hu : uid ∈ claims.map ResourceClaim.uid
    · exact hr.failed hnodup uid hu result hres herr
    · exact (hr.others uid hu).2
  exact ⟨hsame, by rw [← hr.synced.mirrors, hsame, h.mirrors, after_nil]⟩

theorem prepare_again {old : PreparedClaim} (h : Synced d m [])
    (hold : m.lookup claim.uid = some old) (hs : SameAllocation p old claim) :
    prepare p m claim = .ok (old, p.config.claimDevices (claim.allocation.getD [])) := by
  have hinv : old.inventory = p.inventoryHash old.devices := by
    have hstored : stored p d claim.uid = some old := by rw [← hold, h.mirrors, after_nil]
    exact (h.consistent.exclusive.valid claim.uid old hstored).inventory.symm
  have hrecord : recordFor p m claim (claim.allocation.getD []) = .ok old := by
    rw [recordFor, hold]
    simp only [keepRecord, bind_eq_ok, exists_unit, pure_eq_ok, refuse_eq_ok]
    exact ⟨by simp [← hs.hash, ← hinv, hs.nameSpace, hs.name], trivial⟩
  simp only [prepare, bind_eq_ok, exists_unit, pure_eq_ok, refuse_eq_ok]
  exact ⟨hs.nonempty, old, hrecord, rfl⟩

theorem prepareClaim_again {old : PreparedClaim} (h : Synced d m [])
    (hold : m.lookup claim.uid = some old) (hs : SameAllocation p old claim) :
    Ensures (allowed p d)
      (fun log e => good d log e ∧ stored p (effect p (after p d log) e) = stored p (after p d log))
      (prepareClaim p m claim) []
      (fun r log => (∀ uid, r.2.lookup uid = m.lookup uid) ∧
        ∀ err, r.1.err = some err → ∃ path data, ⟨.atomicJSON path data, some err⟩ ∈ log) := by
  have hp := prepare_again h hold hs
  have hstored : stored p d claim.uid = some old := by rw [← hold, h.mirrors, after_nil]
  apply prepareClaim_rule
  · intro err he
    rw [hp] at he
    cases he
  · intro record devices hok reply e
    rw [hp] at hok
    cases hok
    cases reply with
    | some err =>
      refine ⟨⟨h.consistent, rfl⟩, fun _ => rfl, ?_⟩
      intro err' he
      cases he
      exact ⟨p.path claim.uid, p.format.encode old, by simp [e]⟩
    | none =>
      have heffect : stored p (effect p (after p d []) e) = stored p (after p d []) := by
        have he : effect p (after p d []) e = d.insert (p.path claim.uid) (p.format.encode old) := rfl
        rw [he, stored_insert, ← hstored, Function.update_eq_self, after_nil]
      obtain ⟨hv, hfree⟩ := recordFor_spec h.consistent h.mirrors (prepare_ok hp)
      refine ⟨⟨h.consistent.insert hv hfree, heffect⟩, ?_, nofun⟩
      intro uid
      by_cases hu : uid = claim.uid
      · rw [hu, hold]
        exact AList.lookup_insert m
      · exact AList.lookup_insert_ne hu

theorem repeatKeeps (h : Synced d m []) : RepeatKeeps p d m := by
  intro claim old hold hs log o he
  have hrun := prepareClaim_again h hold hs
  have hkeep : Consistent p (after p d log) ∧ stored p (after p d log) = stored p d := by
    apply hrun.invariant he (fun log => Consistent p (after p d log) ∧
      stored p (after p d log) = stored p d)
    · intro l e hl _ hg
      rw [after_snoc]
      exact ⟨hg.1, hg.2.trans hl.2⟩
    · exact ⟨h.consistent, rfl⟩
  obtain ⟨-, -, -, hpost⟩ := hrun.executes he
  exact ⟨lookup_of_stored h.consistent hkeep.1 hkeep.2, hpost⟩

end Claims

/-- No device is held twice, on disk or in memory, whatever operations, restarts
and crashes came before. The map and the files agree between operations, and
`New` accepts what was written. -/
theorem devices_exclusive (h : Reaches p d o) :
    DevicesApart (diskRecords p d) ∧ (∃ m, newPlugin p d = .ok m) ∧
    ∀ m, o = some m → DevicesApart (memoryRecords m) ∧
      (∀ uid, m.lookup uid = stored p d uid) ∧
      (∀ record, record ∈ memoryRecords m ↔ record ∈ diskRecords p d) ∧
      FailureKeeps p d m ∧ BatchFailureKeeps p d m ∧ RepeatKeeps p d m := by
  obtain ⟨hc, hall⟩ := reaches_inv h
  have hdisk : DevicesApart (diskRecords p d) :=
    devicesApart_of_stored hc (fun record => (mem_diskRecords hc).mp)
  obtain ⟨m, hn, -⟩ := newPlugin_ok hc
  refine ⟨hdisk, ⟨m, hn⟩, ?_⟩
  intro m hm
  have hmirror := hall m hm
  have hs : Synced d m [] := ⟨hc, hmirror⟩
  refine ⟨?_, hmirror, ?_, failureKeeps hs, batchFailureKeeps hs, repeatKeeps hs⟩
  · exact devicesApart_of_stored hc (fun record => (mem_memoryRecords hc hmirror).mp)
  · intro record
    rw [mem_memoryRecords hc hmirror, mem_diskRecords hc]

def sampleCPU : LocalDevice where
  name := "cpu-0"
  kind := .cpu
  numa := 0
  cpu := 4
  socket := 0
  core := 4
  unitBytes := 0
  uuid := ""
  model := ""
  vramMiB := 0
  pci := ""
  path := ""
  profile := ""
  matrixSize := 0
  cpuCores := 0
  memoryBytes := 0
  sharedMemory := 0

def samplePlugin : Plugin where
  dir := stateDir
  config := pluginConfig ⟨"node-a", AList.singleton "cpu-0" sampleCPU⟩ (fun _ => "inventory")
  format := ⟨PreparedClaim, id, some, fun _ => rfl, fun _ => "allocation"⟩

def sampleClaim : ResourceClaim where
  uid := "5d1c"
  nameSpace := "jobs"
  name := "worker"
  allocation := some [⟨"cpus", driverName, "node-a", "cpu-0"⟩]
  uid_ne := by decide
  uid_plain := by decide

def sampleRecord : PreparedClaim where
  version := 2
  uid := "5d1c"
  nameSpace := "jobs"
  name := "worker"
  hash := "allocation"
  inventory := "inventory"
  devices := ["cpu-0"]
  cpus := [4]
  numa := 0

theorem prepare_sampleClaim : prepare samplePlugin ∅ sampleClaim = .ok (sampleRecord, []) := by
  decide +kernel

def sampleWrite : PluginEvent samplePlugin :=
  ⟨.atomicJSON (samplePlugin.path "5d1c") sampleRecord, none⟩

theorem sample_reaches :
    Reaches samplePlugin (after samplePlugin ∅ [sampleWrite])
      (some (AList.insert "5d1c" sampleRecord ∅)) := by
  have hstart : Reaches samplePlugin ∅ (some ∅) := Reaches.restart .install rfl
  have hrun : Executes (allowed samplePlugin ∅) (perform samplePlugin ∅ (.prepare [sampleClaim]))
      [] [sampleWrite] (some (AList.insert "5d1c" sampleRecord ∅)) := by
    simp only [perform, prepareResourceClaims, prepareClaims, prepareClaim, prepare_sampleClaim]
    exact Executes.call none trivial (Executes.done _ _)
  exact Reaches.operation hstart hrun

theorem devices_exclusive_sample :
    DevicesApart (diskRecords samplePlugin (after samplePlugin ∅ [sampleWrite])) ∧
    (∃ m, newPlugin samplePlugin (after samplePlugin ∅ [sampleWrite]) = .ok m) ∧
    ∀ record, record ∈ memoryRecords (AList.insert "5d1c" sampleRecord ∅) ↔
      record ∈ diskRecords samplePlugin (after samplePlugin ∅ [sampleWrite]) := by
  obtain ⟨hdisk, hnew, hmemory⟩ := devices_exclusive sample_reaches
  exact ⟨hdisk, hnew, (hmemory _ rfl).2.2.1⟩

end HeteroCluster.DeviceExclusivity
