import HeteroCluster.DeviceExclusivity
import HeteroCluster.RequestTraces

namespace HeteroCluster.ClaimLookup

open CallProgram GoStrings RequestTraces DevicePlugin DeviceOperations DeviceExclusivity
open ComputeDriver

section Containers

variable (p : Plugin)

def preparedFor (prepared : Prepared) (nameSpace name : String) : Run p (Option PreparedClaim) := do
  let order ← ask p (.order prepared.entries)
  return (order.1.map Sigma.snd).find?
    (fun record => record.nameSpace = nameSpace ∧ record.name = name)

def claimAnnotation : String := "orchestration.gputpu.io/resource-claim"

structure PodSandbox where
  id : String
  nameSpace : String
  annotations : StringMap

structure Container where
  id : String
  podSandboxId : String

structure Pinning where
  cpus : String
  mems : String
  deriving DecidableEq

structure ContainerUpdate where
  containerId : String
  pinning : Pinning
  deriving DecidableEq

variable (cpuset : List Int → String)

/-- The CPUs are written as the `cpuset` package prints them. -/
def pinning (record : PreparedClaim) : Pinning := ⟨cpuset record.cpus, toString record.numa⟩

def createContainer (prepared : Prepared) (pod : PodSandbox) :
    Run p (Except String (Option Pinning)) :=
  let claim := get pod.annotations claimAnnotation
  if claim = "" then return .ok none
  else do
    match ← preparedFor p prepared pod.nameSpace claim with
    | none => return .error ("prepared claim " ++ pod.nameSpace ++ "/" ++ claim ++ " is missing")
    | some record => return .ok (some (pinning cpuset record))

abbrev Sandboxes := AList (fun _ : String => PodSandbox)

def byID (pods : List PodSandbox) : Sandboxes :=
  pods.foldl (fun byID pod => byID.insert pod.id pod) ∅

/-- The namespace and the name of the claim a container's pod asks for. -/
def claimOf (byID : Sandboxes) (container : Container) : Option (String × String) := do
  let pod ← byID.lookup container.podSandboxId
  let claim := get pod.annotations claimAnnotation
  if claim = "" then none else some (pod.nameSpace, claim)

/-- The loop of `Synchronize`. The lock is taken anew for each container, which
stands here with the map that is found for it. -/
def updateContainers (byID : Sandboxes) : List (Prepared × Container) → List ContainerUpdate →
    Run p (Except String (List ContainerUpdate))
  | [], updates => return .ok updates
  | (prepared, container) :: containers, updates =>
    match claimOf byID container with
    | none => updateContainers byID containers updates
    | some (nameSpace, claim) => do
      match ← preparedFor p prepared nameSpace claim with
      | none => return .error ("prepared claim " ++ nameSpace ++ "/" ++ claim ++
          " is missing during synchronization")
      | some record =>
        updateContainers byID containers (updates ++ [⟨container.id, pinning cpuset record⟩])

def synchronize (pods : List PodSandbox) (containers : List (Prepared × Container)) :
    Run p (Except String (List ContainerUpdate)) :=
  updateContainers p cpuset (byID pods) containers []

end Containers

section Histories

variable (p : Plugin)

/-- The runs of the plugin with all calls they made. A crash may come before or
after any call of an operation. -/
inductive Runs : PluginLog p → Option Prepared → Prop
  | install : Runs [] none
  | restart {history : PluginLog p} {o : Option Prepared} {m : Prepared} (h : Runs history o)
      (hn : newPlugin p (after p ∅ history) = .ok m) : Runs history (some m)
  | operation {history history' : PluginLog p} {m m' : Prepared} {op : Operation}
      (h : Runs history (some m))
      (he : Executes (allowed p ∅) (perform p m op) history history' (some m')) :
      Runs history' (some m')
  | crash {history history' : PluginLog p} {m : Prepared} {op : Operation}
      (h : Runs history (some m))
      (he : Executes (allowed p ∅) (perform p m op) history history' none) : Runs history' none

def preparation (record : PreparedClaim) : PluginEvent p :=
  ⟨.atomicJSON (p.path record.uid) (p.format.encode record), none⟩

/-- The claim is unprepared, by the kubelet or in `Recover`. -/
def Unprepares (uid : String) : PluginEvent p → Prop
  | ⟨.remove _, .failed _⟩ => False
  | ⟨.remove path, _⟩ => path = p.path uid
  | _ => False

def NotUnprepared (history : PluginLog p) (record : PreparedClaim) : Prop :=
  StillOpen (· = preparation p record) (Unprepares p record.uid) history

def SameName (a b : PreparedClaim) : Prop := a.nameSpace = b.nameSpace ∧ a.name = b.name

/-- The claim is the last one prepared under its name, and not yet unprepared. -/
def LastPrepared (history : PluginLog p) (record : PreparedClaim) : Prop :=
  ∃ before after, history = before ++ preparation p record :: after ∧
    (∀ e ∈ after, ¬ Unprepares p record.uid e) ∧
    ∀ other, preparation p other ∈ after → ¬ SameName other record

/-- The claim's record is found and its containers are pinned to its devices,
in whatever order the map is gone through. -/
structure Pins (cpuset : List Int → String) (history : PluginLog p) (m : Prepared)
    (record : PreparedClaim) : Prop where
  preparedFor : ∀ log r,
    Executes (allowed p ∅) (preparedFor p m record.nameSpace record.name) history log (some r) →
    r = some record
  createContainer : ∀ pod, pod.nameSpace = record.nameSpace →
    get pod.annotations claimAnnotation = record.name → record.name ≠ "" → ∀ log r,
    Executes (allowed p ∅) (createContainer p cpuset m pod) history log (some r) →
    r = .ok (some (pinning cpuset record))
  synchronize : ∀ pods containers container, (m, container) ∈ containers →
    claimOf (byID pods) container = some (record.nameSpace, record.name) → ∀ log updates,
    Executes (allowed p ∅) (synchronize p cpuset pods containers) history log (some (.ok updates)) →
    ⟨container.id, pinning cpuset record⟩ ∈ updates

end Histories

variable {p : Plugin} {d : Disk p} {m : Prepared} {log history : PluginLog p} {e : PluginEvent p}
  {record : PreparedClaim} {cpuset : List Int → String}

section Writes

/-- A record that is written where there is one is the same. -/
def Kept (d : Disk p) (log : PluginLog p) : PluginEvent p → Prop
  | ⟨.atomicJSON path data, none⟩ =>
    ∃ record, path = p.path record.uid ∧ data = p.format.encode record ∧
      ∀ old, stored p (after p d log) record.uid = some old → old = record
  | _ => True

theorem prepareClaim_kept (claim : ResourceClaim) (h : Synced d m log) :
    Ensures (allowed p d) (Kept d) (prepareClaim p m claim) log (fun _ _ => True) := by
  apply prepareClaim_rule
  · intro err _
    trivial
  · intro record devices hp reply
    refine ⟨?_, trivial⟩
    cases reply with
    | some err => trivial
    | none =>
      have hrecord := prepare_ok hp
      have hown := (recordFor_spec h.consistent h.mirrors hrecord).1.own
      refine ⟨record, by rw [hown], rfl, ?_⟩
      intro old hold
      rw [hown, ← h.mirrors] at hold
      exact (recordFor_again hrecord hold).symm

/-- A call after which the state directory is consistent, and holds the records
it held and was told to hold. -/
def Careful (d : Disk p) (log : PluginLog p) (e : PluginEvent p) : Prop := good d log e ∧ Kept d log e

theorem prepareClaims_careful (claims : List ResourceClaim) (results : PrepareResults)
    (h : Synced d m log) :
    Ensures (allowed p d) (Careful d) (prepareClaims p claims results m) log
      (fun r log' => Synced d r.2 log') := by
  induction claims generalizing m log results with
  | nil => exact h
  | cons claim claims ih =>
    apply ((prepareClaim_ensures claim h).and (prepareClaim_kept claim h)).bind
    intro r log' hr
    exact ih _ hr.1.synced

theorem unprepareClaims_kept (uids : List String) (results : UnprepareResults) :
    Ensures (allowed p d) (Kept d) (unprepareClaims p uids results m) log (fun _ _ => True) := by
  induction uids generalizing m log results with
  | nil => trivial
  | cons uid uids ih =>
    apply Ensures.perform
    · intro reply _
      trivial
    · intro reply _
      cases reply <;> exact ih _

theorem recoverRecords_kept (entries : List (Sigma fun _ : String => PreparedClaim)) :
    Ensures (allowed p d) (Kept d) (recoverRecords p entries m) log (fun _ _ => True) := by
  induction entries generalizing m log with
  | nil => trivial
  | cons entry entries ih =>
    apply Ensures.perform
    · intro answer _
      trivial
    · intro answer _
      split
      · apply Ensures.perform
        · intro reply _
          trivial
        · intro reply _
          cases reply with
          | failed err => trivial
          | removed | notExist => exact ih
      · split
        · trivial
        · exact ih

theorem perform_careful (op : Operation) (h : Synced d m log) :
    Ensures (allowed p d) (Careful d) (perform p m op) log (fun m' log' => Synced d m' log') := by
  cases op with
  | prepare claims =>
    apply (prepareClaims_careful claims ∅ h).bind
    intro r log' hr
    exact hr
  | unprepare uids =>
    have hkept : Ensures (allowed p d) (Kept d) (perform p m (.unprepare uids)) log
        (fun _ _ => True) := (unprepareClaims_kept uids ∅).bind fun _ _ _ => trivial
    exact ((perform_ensures _ h).and hkept).mono fun _ _ hr => hr.1
  | recover =>
    have hrecover : Ensures (allowed p d) (Kept d) (recover p m) log (fun _ _ => True) :=
      Ensures.perform (fun _ _ => trivial) (fun order _ => recoverRecords_kept order.1)
    have hkept : Ensures (allowed p d) (Kept d) (perform p m .recover) log (fun _ _ => True) :=
      hrecover.bind fun _ _ _ => trivial
    exact ((perform_ensures _ h).and hkept).mono fun _ _ hr => hr.1

end Writes

section Recorded

theorem preparation_injective {other : PreparedClaim} (h : preparation p record = preparation p other) :
    record = other := by
  have hdata : p.format.encode record = p.format.encode other := by
    simp only [preparation, Sigma.mk.injEq, PluginCall.atomicJSON.injEq] at h
    exact h.1.2
  have hsome : some record = some other := by
    rw [← p.format.decode_encode record, hdata, p.format.decode_encode]
  exact Option.some.inj hsome

/-- The records on disk are those of the claims that were prepared and not
unprepared since. -/
structure Recorded (history : PluginLog p) : Prop where
  consistent : Consistent p (after p ∅ history)
  stored_iff : ∀ record, stored p (after p ∅ history) record.uid = some record ↔
    NotUnprepared p history record

theorem recorded_nil : Recorded (p := p) [] := by
  refine ⟨consistent_empty, ?_⟩
  intro record
  refine iff_of_false ?_ not_stillOpen_nil
  simp [stored, ExclusiveTable.view]

theorem Recorded.quiet (h : Recorded history)
    (heffect : effect p (after p ∅ history) e = after p ∅ history)
    (hprepares : ∀ record, e ≠ preparation p record) (hkeeps : ∀ uid, ¬ Unprepares p uid e) :
    Recorded (history ++ [e]) := by
  have hafter : after p ∅ (history ++ [e]) = after p ∅ history :=
    (after_snoc p ∅ history e).trans heffect
  constructor
  · rw [hafter]
    exact h.consistent
  · intro record
    rw [hafter, h.stored_iff, NotUnprepared, NotUnprepared, stillOpen_snoc]
    simp [hprepares, hkeeps]

theorem Recorded.prepared (h : Recorded history)
    (hgood : good ∅ history (preparation p record))
    (hkept : ∀ old, stored p (after p ∅ history) record.uid = some old → old = record) :
    Recorded (history ++ [preparation p record]) := by
  have hafter : after p ∅ (history ++ [preparation p record]) =
      (after p ∅ history).insert (p.path record.uid) (p.format.encode record) :=
    after_snoc p ∅ history _
  refine ⟨(after_snoc p ∅ history _).symm ▸ hgood, ?_⟩
  intro other
  rw [hafter, stored_insert, NotUnprepared, stillOpen_snoc, ← NotUnprepared, ← h.stored_iff]
  by_cases huid : other.uid = record.uid
  · rw [huid, Function.update_self]
    constructor
    · intro hsame
      rw [Option.some.inj hsame]
      exact .inl rfl
    · rintro (hsame | ⟨hold, -⟩)
      · rw [preparation_injective hsame]
      · rw [hkept other hold]
  · rw [Function.update_of_ne huid]
    constructor
    · intro hother
      exact .inr ⟨hother, id⟩
    · rintro (hsame | ⟨hother, -⟩)
      · exact absurd (congrArg PreparedClaim.uid (preparation_injective hsame).symm) huid
      · exact hother

theorem stored_of_removed {d' : Disk p} {path : String} (hgone : d'.lookup path = none)
    (hrest : ∀ other, other ≠ path → d'.lookup other = d.lookup other) (uid : String) :
    stored p d' uid = if path = p.path uid then none else stored p d uid := by
  split
  next hpath => rw [stored, ExclusiveTable.view, ← hpath, hgone, Option.bind_none]
  next hpath =>
    rw [stored, ExclusiveTable.view, hrest _ (Ne.symm hpath), stored, ExclusiveTable.view]

theorem Recorded.unprepared (h : Recorded history) {path : String} {reply : RemoveReply}
    (hreply : ∀ err, reply ≠ .failed err) (hp : Possible p (after p ∅ history) ⟨.remove path, reply⟩)
    (hgood : good ∅ history ⟨.remove path, reply⟩) :
    Recorded (history ++ [⟨.remove path, reply⟩]) := by
  have hafter := after_snoc p ∅ history ⟨.remove path, reply⟩
  have hunprepares : ∀ uid, Unprepares p uid ⟨.remove path, reply⟩ ↔ path = p.path uid := by
    intro uid
    cases reply with
    | failed err => exact absurd rfl (hreply err)
    | removed | notExist => exact Iff.rfl
  have hstored : ∀ uid, stored p (after p ∅ (history ++ [⟨.remove path, reply⟩])) uid =
      if path = p.path uid then none else stored p (after p ∅ history) uid := by
    rw [hafter]
    cases reply with
    | failed err => exact absurd rfl (hreply err)
    | removed =>
      exact stored_of_removed (AList.lookup_erase _ _) fun _ hne => AList.lookup_erase_ne hne
    | notExist => exact stored_of_removed (AList.lookup_eq_none.mpr hp) fun _ _ => rfl
  refine ⟨hafter.symm ▸ hgood, ?_⟩
  intro record
  rw [hstored, NotUnprepared, stillOpen_snoc, ← NotUnprepared, ← h.stored_iff, hunprepares]
  split
  next hpath => simp [hpath, preparation]
  next hpath => simp [hpath, preparation]

theorem Recorded.snoc (h : Recorded history) (hp : Possible p (after p ∅ history) e)
    (hcareful : Careful ∅ history e) : Recorded (history ++ [e]) := by
  obtain ⟨hgood, hkept⟩ := hcareful
  obtain ⟨call, reply⟩ := e
  cases call with
  | atomicJSON path data =>
    cases reply with
    | none =>
      obtain ⟨record, rfl, rfl, hold⟩ := hkept
      exact h.prepared hgood hold
    | some err => exact h.quiet rfl (by simp [preparation]) (fun _ => id)
  | remove path =>
    cases reply with
    | failed err => exact h.quiet rfl (by simp [preparation]) (fun _ => id)
    | removed | notExist => exact h.unprepared nofun hp hgood
  | getClaim => exact h.quiet rfl (by simp [preparation]) (fun _ => id)
  | order => exact h.quiet rfl (by simp [preparation]) (fun _ => id)

theorem runs_inv {o : Option Prepared} (h : Runs p history o) :
    Recorded history ∧ ∀ m, o = some m → Mirrors p m (after p ∅ history) := by
  induction h with
  | install => exact ⟨recorded_nil, nofun⟩
  | restart _ hn ih =>
    refine ⟨ih.1, ?_⟩
    intro m hm
    rw [← Option.some.inj hm]
    exact newPlugin_mirrors ih.1.consistent hn
  | @operation history history' m m' op _ he ih =>
    have hrun := perform_careful op ⟨ih.1.consistent, ih.2 m rfl⟩
    refine ⟨hrun.invariant he Recorded (fun l e hl hp hg => hl.snoc hp hg) ih.1, ?_⟩
    intro m'' hm
    rw [← Option.some.inj hm]
    exact (hrun.result he).mirrors
  | @crash history history' m op _ he ih =>
    have hrun := perform_careful op ⟨ih.1.consistent, ih.2 m rfl⟩
    exact ⟨hrun.invariant he Recorded (fun l e hl hp hg => hl.snoc hp hg) ih.1, nofun⟩

end Recorded

section Lookup

/-- The map has one record under the claim's name, which is the claim's. -/
structure Alone (m : Prepared) (record : PreparedClaim) : Prop where
  present : m.lookup record.uid = some record
  unique : ∀ uid other, m.lookup uid = some other → SameName other record → other = record

theorem preparedFor_ensures (h : Alone m record) (log : PluginLog p) :
    Ensures (allowed p d) (fun _ _ => True) (preparedFor p m record.nameSpace record.name) log
      (fun r _ => r = some record) := by
  intro order _
  refine ⟨trivial, ?_⟩
  have hmem : ∀ r, r ∈ order.1.map Sigma.snd ↔ ∃ uid, m.lookup uid = some r := by
    intro r
    simp only [List.mem_map, order.2.mem_iff]
    constructor
    · rintro ⟨entry, hentry, rfl⟩
      exact ⟨entry.1, AList.mem_lookup_iff.mpr hentry⟩
    · rintro ⟨uid, hr⟩
      exact ⟨⟨uid, r⟩, AList.mem_lookup_iff.mp hr, rfl⟩
  change List.find? _ _ = some record
  cases hfind : List.find? _ (order.1.map Sigma.snd) with
  | none =>
    rw [List.find?_eq_none] at hfind
    exact absurd (by simp) (hfind record ((hmem record).mpr ⟨record.uid, h.present⟩))
  | some r =>
    obtain ⟨uid, hr⟩ := (hmem r).mp (List.mem_of_find?_eq_some hfind)
    rw [h.unique uid r hr (by simpa [SameName] using List.find?_some hfind)]

theorem preparedFor_own (h : Alone m record) (prepared : Prepared) (nameSpace name : String)
    (log : PluginLog p) :
    Ensures (allowed p d) (fun _ _ => True) (preparedFor p prepared nameSpace name) log
      (fun r _ => prepared = m → (nameSpace, name) = (record.nameSpace, record.name) →
        r = some record) := by
  by_cases hown : prepared = m ∧ (nameSpace, name) = (record.nameSpace, record.name)
  · obtain ⟨rfl, hname⟩ := hown
    obtain ⟨rfl, rfl⟩ := Prod.mk.inj hname
    exact (preparedFor_ensures h log).mono fun _ _ hr _ _ => hr
  · exact (ensures_trivial _ log).mono fun _ _ _ hm hname => absurd ⟨hm, hname⟩ hown

theorem createContainer_ensures (h : Alone m record) {pod : PodSandbox}
    (hspace : pod.nameSpace = record.nameSpace)
    (hclaim : get pod.annotations claimAnnotation = record.name) (hname : record.name ≠ "")
    (log : PluginLog p) :
    Ensures (allowed p d) (fun _ _ => True) (createContainer p cpuset m pod) log
      (fun r _ => r = .ok (some (pinning cpuset record))) := by
  unfold createContainer
  rw [hclaim, if_neg hname, hspace]
  apply (preparedFor_ensures h log).bind
  rintro r log' rfl
  rfl

/-- A container of the claim's pod that is still to come will be pinned, and the
updates that were made stay. -/
theorem updateContainers_ensures (h : Alone m record) {byID : Sandboxes}
    (containers : List (Prepared × Container)) (updates : List ContainerUpdate) (log : PluginLog p) :
    Ensures (allowed p d) (fun _ _ => True) (updateContainers p cpuset byID containers updates) log
      (fun r _ => ∀ updates', r = .ok updates' → updates ⊆ updates' ∧
        ∀ container, (m, container) ∈ containers →
          claimOf byID container = some (record.nameSpace, record.name) →
          ⟨container.id, pinning cpuset record⟩ ∈ updates') := by
  induction containers generalizing updates log with
  | nil =>
    rintro updates' ⟨⟩
    exact ⟨List.Subset.refl updates, by simp⟩
  | cons first containers ih =>
    obtain ⟨prepared, container⟩ := first
    unfold updateContainers
    cases hclaim : claimOf byID container with
    | none =>
      apply (ih updates log).mono
      intro r _ hr updates' hok
      refine ⟨(hr updates' hok).1, ?_⟩
      intro other hother hnamed
      obtain hfirst | hrest := List.mem_cons.mp hother
      · cases hfirst
        rw [hclaim] at hnamed
        cases hnamed
      · exact (hr updates' hok).2 other hrest hnamed
    | some claim =>
      obtain ⟨nameSpace, name⟩ := claim
      apply (preparedFor_own h prepared nameSpace name log).bind
      intro r log' hr
      cases r with
      | none => exact fun _ hok => nomatch hok
      | some found =>
        apply (ih _ log').mono
        intro r' _ hr' updates' hok
        obtain ⟨hsub, hrest⟩ := hr' updates' hok
        refine ⟨fun _ hx => hsub (List.mem_append_left _ hx), ?_⟩
        intro other hother hnamed
        obtain hfirst | hlater := List.mem_cons.mp hother
        · obtain ⟨rfl, rfl⟩ := Prod.mk.inj hfirst
          have hsame := hr rfl (Option.some.inj (hclaim.symm.trans hnamed))
          rw [← Option.some.inj hsame]
          exact hsub (by simp)
        · exact hrest other hlater hnamed

theorem pins_of_alone (h : Alone m record) : Pins p cpuset history m record := by
  constructor
  · intro log r he
    exact (preparedFor_ensures h history).result he
  · intro pod hspace hclaim hname log r he
    exact (createContainer_ensures h hspace hclaim hname history).result he
  · intro pods containers container hmem hclaim log updates he
    exact ((updateContainers_ensures h containers [] history).result he updates rfl).2 container hmem
      hclaim

theorem preparedFor_first {uid : String} {other : PreparedClaim} (h : m.lookup uid = some other)
    (hname : SameName other record) :
    ∃ log, Executes (allowed p d) (preparedFor p m record.nameSpace record.name) history log
      (some (some other)) := by
  have hmem : ⟨uid, other⟩ ∈ m.entries := AList.mem_lookup_iff.mp h
  have hperm : (⟨uid, other⟩ :: m.entries.erase ⟨uid, other⟩).Perm m.entries :=
    (List.perm_cons_erase hmem).symm
  have hfind : ((⟨uid, other⟩ :: m.entries.erase ⟨uid, other⟩).map Sigma.snd).find?
      (fun r => r.nameSpace = record.nameSpace ∧ r.name = record.name) = some other := by
    rw [List.map_cons, List.find?_cons_of_pos (by simpa [SameName] using hname)]
  refine ⟨history ++ [⟨.order m.entries, ⟨_, hperm⟩⟩], Executes.call ⟨_, hperm⟩ trivial ?_⟩
  rw [← hfind]
  exact Executes.done _ _

end Lookup

/-- The lookup by name finds the claim prepared last, and the containers are pinned
to its devices, exactly if no other claim of that name is still prepared. -/
theorem current_claim_found_iff (cpuset : List Int → String) (h : Runs p history (some m))
    (hlast : LastPrepared p history record) : Pins p cpuset history m record ↔
      ∀ other, NotUnprepared p history other → SameName other record → other.uid = record.uid := by
  obtain ⟨hrecorded, hmirrors⟩ := runs_inv h
  have hmirrors := hmirrors m rfl
  have hlookup : ∀ other, m.lookup other.uid = some other ↔ NotUnprepared p history other := by
    intro other
    rw [hmirrors, hrecorded.stored_iff]
  have hpresent : m.lookup record.uid = some record := by
    obtain ⟨before, after, rfl, hkeeps, -⟩ := hlast
    exact (hlookup record).mpr ⟨before, _, after, rfl, rfl, hkeeps⟩
  constructor
  · intro hpins other hother hname
    obtain ⟨log, he⟩ := preparedFor_first (p := p) ((hlookup other).mpr hother) hname
    rw [Option.some.inj (hpins.preparedFor log _ he)]
  · intro hunique
    refine pins_of_alone ⟨hpresent, ?_⟩
    intro uid other hother hname
    have hstored := (hmirrors uid).symm.trans hother
    obtain rfl := (hrecorded.consistent.exclusive.valid uid other hstored).own
    have huid := hunique other ((hlookup other).mp hother) hname
    rw [huid, hpresent] at hother
    exact (Option.some.inj hother).symm

theorem Runs.prepare {claim : ResourceClaim} (h : Runs p history (some m))
    (hown : record.uid = claim.uid)
    (hp : DevicePlugin.prepare p m claim = .ok (record, [])) :
    Runs p (history ++ [preparation p record]) (some (m.insert claim.uid record)) := by
  have hrun : Executes (allowed p ∅) (perform p m (.prepare [claim])) history
      (history ++ [preparation p record]) (some (m.insert claim.uid record)) := by
    rw [preparation, hown]
    simp only [perform, prepareResourceClaims, prepareClaims, prepareClaim, hp]
    exact Executes.call none trivial (Executes.done _ _)
  exact Runs.operation h hrun

section Recreated

variable {other : PreparedClaim}

def secondCPU : LocalDevice :=
  { sampleCPU with name := "cpu-1", numa := 1, cpu := 5, socket := 1, core := 5 }

def twoCPUs : Plugin where
  dir := stateDir
  config := pluginConfig
    ⟨"node-a", AList.insert "cpu-1" secondCPU (AList.singleton "cpu-0" sampleCPU)⟩
    (fun _ => "inventory")
  format := samplePlugin.format

/-- The claim was deleted and created again, and has another CPU now. -/
def recreatedClaim : ResourceClaim :=
  { sampleClaim with
    uid := "7e2f"
    allocation := some [⟨"cpus", driverName, "node-a", "cpu-1"⟩]
    uid_ne := by decide
    uid_plain := by decide }

def recreatedRecord : PreparedClaim :=
  { sampleRecord with uid := "7e2f", devices := ["cpu-1"], cpus := [5], numa := 1 }

def recreatedMap : Prepared := (AList.insert "5d1c" sampleRecord ∅).insert "7e2f" recreatedRecord

def recreatedHistory : PluginLog twoCPUs :=
  [preparation twoCPUs sampleRecord, preparation twoCPUs recreatedRecord]

theorem prepare_before : prepare twoCPUs ∅ sampleClaim = .ok (sampleRecord, []) := by
  decide +kernel

theorem prepare_recreated :
    prepare twoCPUs (AList.insert "5d1c" sampleRecord ∅) recreatedClaim =
      .ok (recreatedRecord, []) := by
  decide +kernel

theorem runs_recreated : Runs twoCPUs recreatedHistory (some recreatedMap) :=
  ((Runs.restart .install rfl).prepare rfl prepare_before).prepare rfl prepare_recreated

def release : PluginEvent twoCPUs := ⟨.remove (twoCPUs.path "5d1c"), .removed⟩

def replacedHistory : PluginLog twoCPUs :=
  [preparation twoCPUs sampleRecord, release, preparation twoCPUs recreatedRecord]

def replacedMap : Prepared :=
  ((AList.insert "5d1c" sampleRecord ∅ : Prepared).erase "5d1c").insert "7e2f" recreatedRecord

theorem prepare_replaced :
    prepare twoCPUs ((AList.insert "5d1c" sampleRecord ∅ : Prepared).erase "5d1c") recreatedClaim =
      .ok (recreatedRecord, []) := by
  decide +kernel

theorem runs_replaced : Runs twoCPUs replacedHistory (some replacedMap) := by
  have hfirst : Runs twoCPUs [preparation twoCPUs sampleRecord]
      (some (AList.insert "5d1c" sampleRecord ∅)) :=
    (Runs.restart .install rfl).prepare rfl prepare_before
  have hstored : twoCPUs.path "5d1c" ∈ after twoCPUs ∅ [preparation twoCPUs sampleRecord] := by
    decide +kernel
  have hrelease : Executes (allowed twoCPUs ∅)
      (perform twoCPUs (AList.insert "5d1c" sampleRecord ∅) (.unprepare ["5d1c"]))
      [preparation twoCPUs sampleRecord] [preparation twoCPUs sampleRecord, release]
      (some ((AList.insert "5d1c" sampleRecord ∅ : Prepared).erase "5d1c")) :=
    Executes.call .removed hstored (Executes.done _ _)
  exact (Runs.operation hfirst hrelease).prepare rfl prepare_replaced

/-- The old claim is unprepared before the new one of its name comes. -/
theorem replaced_alone (h : NotUnprepared twoCPUs replacedHistory other) :
    other = recreatedRecord := by
  obtain hlast | ⟨hbefore, -⟩ :=
    (stillOpen_snoc (t := [preparation twoCPUs sampleRecord, release])).mp h
  · exact (preparation_injective hlast).symm
  · obtain hremove | ⟨hfirst, hkept⟩ :=
      (stillOpen_snoc (t := [preparation twoCPUs sampleRecord])).mp hbefore
    · cases hremove
    · obtain hprepared | ⟨hnone, -⟩ := (stillOpen_snoc (t := [])).mp hfirst
      · obtain rfl := preparation_injective hprepared
        exact absurd rfl hkept
      · exact absurd hnone not_stillOpen_nil

theorem current_claim_found_replaced :
    LastPrepared twoCPUs replacedHistory recreatedRecord ∧
    Pins twoCPUs toString replacedHistory replacedMap recreatedRecord := by
  have hlast : LastPrepared twoCPUs replacedHistory recreatedRecord :=
    ⟨[preparation twoCPUs sampleRecord, release], [], rfl, by simp, by simp⟩
  refine ⟨hlast, (current_claim_found_iff toString runs_replaced hlast).mpr ?_⟩
  intro other hother _
  rw [replaced_alone hother]

def workerPod : PodSandbox := ⟨"sandbox", "jobs", set [] claimAnnotation "worker"⟩

/-- The new claim has CPU 5 on NUMA node 1, and its container gets CPU 4 on node 0,
which is the old claim's. -/
theorem recreated_claim_missed :
    Runs twoCPUs recreatedHistory (some recreatedMap) ∧
    LastPrepared twoCPUs recreatedHistory recreatedRecord ∧
    (∃ log, Executes (allowed twoCPUs ∅) (preparedFor twoCPUs recreatedMap "jobs" "worker")
      recreatedHistory log (some (some sampleRecord))) ∧
    ∀ cpuset, ∃ log, Executes (allowed twoCPUs ∅)
      (createContainer twoCPUs cpuset recreatedMap workerPod) recreatedHistory log
      (some (.ok (some ⟨cpuset [4], "0"⟩))) := by
  have hperm : [⟨"5d1c", sampleRecord⟩, ⟨"7e2f", recreatedRecord⟩].Perm recreatedMap.entries :=
    List.Perm.swap _ _ _
  refine ⟨runs_recreated, ⟨[preparation twoCPUs sampleRecord], [], rfl, by simp, by simp⟩, ?_, ?_⟩
  · exact ⟨_, Executes.call ⟨_, hperm⟩ trivial (Executes.done _ _)⟩
  · intro cpuset
    exact ⟨_, Executes.call ⟨_, hperm⟩ trivial (Executes.done _ _)⟩

end Recreated

end HeteroCluster.ClaimLookup
