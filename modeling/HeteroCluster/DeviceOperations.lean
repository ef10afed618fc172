import HeteroCluster.DevicePlugin
import HeteroCluster.ExclusiveTable

namespace HeteroCluster.DeviceOperations

open CallProgram FailFast ExclusiveTable DevicePlugin

variable (p : Plugin)

/-- What a call does to the state directory. A file operation that fails
leaves its file as it was. -/
def effect (d : Disk p) : PluginEvent p → Disk p
  | ⟨.atomicJSON path data, none⟩ => d.insert path data
  | ⟨.remove path, .removed⟩ => d.erase path
  | _ => d

def after (d : Disk p) (log : PluginLog p) : Disk p := log.foldl (effect p) d

/-- A file is removed if it exists, and reported absent if it does not. Every
other reply is possible at any time. -/
def Possible (d : Disk p) : PluginEvent p → Prop
  | ⟨.remove path, .removed⟩ => path ∈ d
  | ⟨.remove path, .notExist⟩ => path ∉ d
  | _ => True

def allowed (d : Disk p) (log : PluginLog p) (e : PluginEvent p) : Prop := Possible p (after p d log) e

@[simp] theorem after_nil (d : Disk p) : after p d [] = d := rfl

@[simp] theorem after_snoc (d : Disk p) (log : PluginLog p) (e : PluginEvent p) :
    after p d (log ++ [e]) = effect p (after p d log) e := by
  simp [after]

/-- The records on disk by the UID their file is named after. -/
def stored (d : Disk p) : String → Option PreparedClaim := view p.path p.format.decode d

/-- What `New` checks of a record. -/
structure Valid (uid : String) (record : PreparedClaim) : Prop where
  own : record.uid = uid
  named : uid ≠ ""
  version : record.version = p.config.version
  present : ∀ name ∈ record.devices, p.config.hasDevice name = true
  inventory : p.inventoryHash record.devices = record.inventory

structure Consistent (d : Disk p) : Prop where
  written : ∀ path data, d.lookup path = some data →
    ∃ record, path = p.path record.uid ∧ data = p.format.encode record
  exclusive : Exclusive (Valid p) PreparedClaim.devices (stored p d)

def Mirrors (m : Prepared) (d : Disk p) : Prop := ∀ uid, m.lookup uid = stored p d uid

variable {p} {d : Disk p} {m : Prepared} {log : PluginLog p} {claim : ResourceClaim}

section Files

theorem path_injective : Function.Injective p.path := by
  intro a b h
  simpa [Plugin.path, String.append_left_inj, String.append_right_inj] using h

theorem stored_insert (uid : String) (record : PreparedClaim) :
    stored p (d.insert (p.path uid) (p.format.encode record)) =
      Function.update (stored p d) uid (some record) := by
  rw [stored, view_insert path_injective, p.format.decode_encode, stored]

theorem stored_erase (uid : String) :
    stored p (d.erase (p.path uid)) = Function.update (stored p d) uid none :=
  view_erase path_injective uid

theorem Mirrors.insert (h : Mirrors p m d) (uid : String) (record : PreparedClaim) :
    Mirrors p (m.insert uid record) (d.insert (p.path uid) (p.format.encode record)) := by
  intro other
  rw [stored_insert]
  by_cases ho : other = uid
  · rw [ho, Function.update_self, AList.lookup_insert]
  · rw [Function.update_of_ne ho, AList.lookup_insert_ne ho, h]

theorem Consistent.insert (h : Consistent p d) {uid : String} {record : PreparedClaim}
    (hv : Valid p uid record) (hfree : ∀ other r x, other ≠ uid → stored p d other = some r →
      x ∈ record.devices → x ∉ r.devices) :
    Consistent p (d.insert (p.path uid) (p.format.encode record)) := by
  constructor
  · intro path data hl
    by_cases hp : path = p.path uid
    · rw [hp, AList.lookup_insert] at hl
      exact ⟨record, by rw [hp, hv.own], (Option.some.inj hl).symm⟩
    · rw [AList.lookup_insert_ne hp] at hl
      exact h.written path data hl
  · rw [stored_insert]
    exact h.exclusive.hold hv hfree

theorem Consistent.erase (h : Consistent p d) (uid : String) :
    Consistent p (d.erase (p.path uid)) := by
  constructor
  · intro path data hl
    by_cases hp : path = p.path uid
    · rw [hp, AList.lookup_erase] at hl
      cases hl
    · rw [AList.lookup_erase_ne hp] at hl
      exact h.written path data hl
  · rw [stored_erase]
    exact h.exclusive.release uid

theorem remove_keeps (h : Consistent p d) (hm : Mirrors p m d) {uid : String} {reply : RemoveReply}
    (hp : Possible p d ⟨.remove (p.path uid), reply⟩) :
    Consistent p (effect p d ⟨.remove (p.path uid), reply⟩) ∧
      ((∀ err, reply ≠ .failed err) →
        Mirrors p (m.erase uid) (effect p d ⟨.remove (p.path uid), reply⟩)) := by
  have herase : ∀ d' : Disk p, stored p d' = Function.update (stored p d) uid none →
      Mirrors p (m.erase uid) d' := by
    intro d' hd other
    rw [hd]
    by_cases ho : other = uid
    · rw [ho, Function.update_self, AList.lookup_erase]
    · rw [Function.update_of_ne ho, AList.lookup_erase_ne ho, hm]
  cases reply with
  | removed => exact ⟨h.erase uid, fun _ => herase _ (stored_erase uid)⟩
  | notExist =>
    have hnone : stored p d uid = none := by
      rw [stored, view, AList.lookup_eq_none.mpr hp, Option.bind_none]
    have hupdate : Function.update (stored p d) uid none = stored p d := by
      rw [← hnone, Function.update_eq_self]
    exact ⟨h, fun _ => herase d hupdate.symm⟩
  | failed err => exact ⟨h, fun hf => absurd rfl (hf err)⟩

end Files

section Prepare

theorem driverPrepare_keeps {record record' : PreparedClaim}
    (h : driverPrepare p record = .ok record') :
    record' = { record with cpus := record'.cpus, numa := record'.numa } := by
  unfold driverPrepare at h
  cases hf : p.config.prepare with
  | none =>
    rw [hf] at h
    cases h
    rfl
  | some f =>
    rw [hf] at h
    exact p.config.prepare_keeps f hf record.devices record record' h

def Free (m : Prepared) (uid name : String) : Prop :=
  p.config.hasDevice name = true ∧
    ∀ other record, other ≠ uid → m.lookup other = some record → name ∉ record.devices

theorem admitDevice_free {uid : String} {devices devices' : List String}
    {allocation : DeviceRequestAllocationResult}
    (h : admitDevice p m uid devices allocation = .ok devices') :
    devices' = devices ++ [allocation.device] ∧ Free (p := p) m uid allocation.device := by
  simp only [admitDevice, bind_eq_ok, exists_unit, pure_eq_ok, refuse_eq_ok] at h
  obtain ⟨-, hhas, -, hother, rfl⟩ := h
  refine ⟨rfl, by simpa using hhas, ?_⟩
  intro other record hne hl hin
  apply hother
  rw [List.any_eq_true]
  exact ⟨⟨other, record⟩, AList.mem_lookup_iff.mp hl, by simp [hne, hin]⟩

theorem admitted_free {uid : String} {results : List DeviceRequestAllocationResult}
    {devices : List String} (h : results.foldlM (admitDevice p m uid) [] = .ok devices) :
    ∀ name ∈ devices, Free (p := p) m uid name := by
  apply foldlM_invariant (fun _ devices => ∀ name ∈ devices, Free (p := p) m uid name) h
  · simp
  · intro done allocation s s' _ hs hstep name hname
    obtain ⟨rfl, hfree⟩ := admitDevice_free hstep
    obtain hname | hname := List.mem_append.mp hname
    · exact hs name hname
    · rw [List.mem_singleton.mp hname]
      exact hfree

theorem newRecord_spec {results : List DeviceRequestAllocationResult} {record : PreparedClaim}
    (h : newRecord p m claim results = .ok record) :
    Valid p claim.uid record ∧ ∀ name ∈ record.devices, Free (p := p) m claim.uid name := by
  simp only [newRecord, bind_eq_ok, pure_eq_ok] at h
  obtain ⟨devices, hd, made, hmade, rfl⟩ := h
  have hkeep := driverPrepare_keeps hmade
  have hdevices : made.devices = devices.mergeSort (· ≤ ·) := by rw [hkeep]; rfl
  have hfree : ∀ name ∈ made.devices, Free (p := p) m claim.uid name := by
    intro name hname
    rw [hdevices, List.mem_mergeSort] at hname
    exact admitted_free hd name hname
  refine ⟨⟨?_, claim.uid_ne, ?_, fun name hname => (hfree name hname).1, rfl⟩, hfree⟩
  · change made.uid = claim.uid
    rw [hkeep]
    rfl
  · change made.version = p.config.version
    rw [hkeep]
    rfl

theorem keepRecord_spec {old record : PreparedClaim} {results : List DeviceRequestAllocationResult}
    (h : keepRecord p old claim results = .ok record) : record = old := by
  simp only [keepRecord, bind_eq_ok, exists_unit, pure_eq_ok] at h
  exact h.2.symm

/-- The record a claim is prepared with may be written: it is valid, and
nobody else holds its devices. -/
theorem recordFor_spec (hc : Consistent p d) (hm : Mirrors p m d) {record : PreparedClaim}
    {results : List DeviceRequestAllocationResult} (h : recordFor p m claim results = .ok record) :
    Valid p claim.uid record ∧
      ∀ other r x, other ≠ claim.uid → stored p d other = some r → x ∈ record.devices →
        x ∉ r.devices := by
  unfold recordFor at h
  cases hold : m.lookup claim.uid with
  | some old =>
    rw [hold] at h
    rw [keepRecord_spec h]
    have hs : stored p d claim.uid = some old := by rw [← hm, hold]
    refine ⟨hc.exclusive.valid claim.uid old hs, ?_⟩
    intro other r x hne hr hx hxr
    exact hne (hc.exclusive.apart other claim.uid r old x hr hs hxr hx)
  | none =>
    rw [hold] at h
    obtain ⟨hv, hfree⟩ := newRecord_spec h
    refine ⟨hv, ?_⟩
    intro other r x hne hr hx
    exact (hfree x hx).2 other r hne (by rw [hm, hr])

theorem recordFor_again {record old : PreparedClaim} {results : List DeviceRequestAllocationResult}
    (h : recordFor p m claim results = .ok record) (hold : m.lookup claim.uid = some old) :
    record = old := by
  unfold recordFor at h
  rw [hold] at h
  exact keepRecord_spec h

theorem prepare_ok {record : PreparedClaim} {devices : List Device}
    (h : prepare p m claim = .ok (record, devices)) :
    recordFor p m claim (claim.allocation.getD []) = .ok record := by
  simp only [prepare, bind_eq_ok, exists_unit, pure_eq_ok, Prod.mk.injEq] at h
  obtain ⟨-, made, hmade, rfl, -⟩ := h
  exact hmade

end Prepare

section Operations

def good (d : Disk p) (log : PluginLog p) (e : PluginEvent p) : Prop :=
  Consistent p (effect p (after p d log) e)

structure Synced (d : Disk p) (m : Prepared) (log : PluginLog p) : Prop where
  consistent : Consistent p (after p d log)
  mirrors : Mirrors p m (after p d log)

theorem Synced.quiet (h : Synced d m log) {e : PluginEvent p}
    (he : effect p (after p d log) e = after p d log) : Synced d m (log ++ [e]) := by
  constructor
  · rw [after_snoc, he]
    exact h.consistent
  · rw [after_snoc, he]
    exact h.mirrors

theorem prepareClaim_rule {good : PluginLog p → PluginEvent p → Prop}
    {post : PrepareResult × Prepared → PluginLog p → Prop}
    (herr : ∀ err, prepare p m claim = .error err → post (⟨some err, []⟩, m) log)
    (hok : ∀ record devices, prepare p m claim = .ok (record, devices) → ∀ reply : Option String,
      let e : PluginEvent p := ⟨.atomicJSON (p.path claim.uid) (p.format.encode record), reply⟩
      good log e ∧ post (⟨reply, devices⟩,
        if reply.isSome then m else m.insert claim.uid record) (log ++ [e])) :
    Ensures (allowed p d) good (prepareClaim p m claim) log post := by
  unfold prepareClaim
  cases hp : prepare p m claim with
  | error err => exact herr err hp
  | ok made =>
    obtain ⟨record, devices⟩ := made
    intro reply _
    obtain ⟨hg, hpost⟩ := hok record devices hp reply
    refine ⟨hg, ?_⟩
    cases reply with
    | none => exact hpost
    | some err => exact hpost

/-- What preparing one claim leaves of the map and of the state directory. -/
structure ClaimPrepared (d : Disk p) (m : Prepared) (log : PluginLog p) (claim : ResourceClaim)
    (r : PrepareResult × Prepared) (log' : PluginLog p) : Prop where
  synced : Synced d r.2 log'
  others : ∀ uid, uid ≠ claim.uid → r.2.lookup uid = m.lookup uid
  failed : r.1.err.isSome → r.2 = m ∧ after p d log' = after p d log

theorem prepareClaim_ensures (claim : ResourceClaim) (h : Synced d m log) :
    Ensures (allowed p d) (good d) (prepareClaim p m claim) log
      (ClaimPrepared d m log claim) := by
  apply prepareClaim_rule
  · intro err _
    exact ⟨h, fun _ _ => rfl, fun _ => ⟨rfl, rfl⟩⟩
  · intro record devices hp reply e
    obtain ⟨hv, hfree⟩ := recordFor_spec h.consistent h.mirrors (prepare_ok hp)
    have hw := h.consistent.insert hv hfree
    cases reply with
    | some err =>
      have hafter : after p d (log ++ [e]) = after p d log := after_snoc p d log e
      exact ⟨h.consistent, h.quiet rfl, fun _ _ => rfl, fun _ => ⟨rfl, hafter⟩⟩
    | none =>
      have hafter : after p d (log ++ [e]) =
        (after p d log).insert (p.path claim.uid) (p.format.encode record) := after_snoc p d log e
      refine ⟨hw, ⟨?_, ?_⟩, ?_, nofun⟩
      · rw [hafter]
        exact hw
      · rw [hafter]
        exact h.mirrors.insert claim.uid record
      · intro uid hne
        exact AList.lookup_insert_ne hne

structure ClaimsPrepared (d : Disk p) (m : Prepared) (results : PrepareResults)
    (claims : List ResourceClaim) (r : PrepareResults × Prepared) (log' : PluginLog p) : Prop where
  synced : Synced d r.2 log'
  others : ∀ uid, uid ∉ claims.map ResourceClaim.uid →
    r.1.lookup uid = results.lookup uid ∧ r.2.lookup uid = m.lookup uid
  failed : (claims.map ResourceClaim.uid).Nodup → ∀ uid ∈ claims.map ResourceClaim.uid,
    ∀ result, r.1.lookup uid = some result → result.err.isSome → r.2.lookup uid = m.lookup uid

theorem prepareClaims_ensures (claims : List ResourceClaim) (results : PrepareResults)
    (h : Synced d m log) :
    Ensures (allowed p d) (good d) (prepareClaims p claims results m) log
      (ClaimsPrepared d m results claims) := by
  induction claims generalizing m log results with
  | nil => exact ⟨h, fun _ _ => ⟨rfl, rfl⟩, by simp⟩
  | cons claim claims ih =>
    apply (prepareClaim_ensures claim h).bind
    intro r log' hr
    apply (ih (results.insert claim.uid r.1) hr.synced).mono
    intro r' log'' hr'
    refine ⟨hr'.synced, ?_, ?_⟩
    · intro uid hu
      obtain ⟨hne, hrest⟩ : uid ≠ claim.uid ∧ uid ∉ claims.map ResourceClaim.uid := by
        simpa using hu
      obtain ⟨h1, h2⟩ := hr'.others uid hrest
      exact ⟨by rw [h1, AList.lookup_insert_ne hne], by rw [h2, hr.others uid hne]⟩
    · intro hnodup uid hu result hres herr
      obtain ⟨hnew, hnodup⟩ := List.nodup_cons.mp hnodup
      obtain hu | hu := List.mem_cons.mp hu
      · -- later claims leave this one's result and record alone
        obtain ⟨h1, h2⟩ := hr'.others claim.uid hnew
        rw [hu, h1, AList.lookup_insert] at hres
        have hm := (hr.failed (by rwa [Option.some.inj hres])).1
        rw [hu, h2, hm]
      · have hne : uid ≠ claim.uid := fun he => hnew (he ▸ hu)
        rw [hr'.failed hnodup uid hu result hres herr, hr.others uid hne]

theorem Synced.remove (h : Synced d m log) {uid : String} {reply : RemoveReply}
    (hr : allowed p d log ⟨.remove (p.path uid), reply⟩) (hf : ∀ err, reply ≠ .failed err) :
    Synced d (m.erase uid) (log ++ [⟨.remove (p.path uid), reply⟩]) := by
  obtain ⟨hc, hm⟩ := remove_keeps h.consistent h.mirrors hr
  constructor
  · rw [after_snoc]
    exact hc
  · rw [after_snoc]
    exact hm hf

theorem unprepareClaims_ensures (uids : List String) (results : UnprepareResults)
    (h : Synced d m log) :
    Ensures (allowed p d) (good d) (unprepareClaims p uids results m) log
      (fun r log' => Synced d r.2 log') := by
  induction uids generalizing m log results with
  | nil => exact h
  | cons uid uids ih =>
    apply Ensures.perform
    · intro reply hr
      exact (remove_keeps h.consistent h.mirrors hr).1
    · intro reply hr
      cases reply with
      | failed err => exact ih _ (h.quiet rfl)
      | removed => exact ih _ (h.remove hr nofun)
      | notExist => exact ih _ (h.remove hr nofun)

theorem recoverRecords_ensures (entries : List (Sigma fun _ : String => PreparedClaim))
    (h : Synced d m log) :
    Ensures (allowed p d) (good d) (recoverRecords p entries m) log
      (fun r log' => Synced d r.2 log') := by
  induction entries generalizing m log with
  | nil => exact h
  | cons entry entries ih =>
    apply Ensures.perform
    · intro answer _
      exact h.consistent
    · intro answer _
      have h' : Synced d m (log ++ [⟨.getClaim entry.2.nameSpace entry.2.name, answer⟩]) :=
        h.quiet rfl
      by_cases hg : gone entry.1 answer = true
      · rw [if_pos hg]
        apply Ensures.perform
        · intro reply hr
          exact (remove_keeps h'.consistent h'.mirrors hr).1
        · intro reply hr
          cases reply with
          | failed err => exact h'.quiet rfl
          | removed => exact ih (h'.remove hr nofun)
          | notExist => exact ih (h'.remove hr nofun)
      · rw [if_neg hg]
        cases recoverError p entry.2 answer with
        | some err => exact h'
        | none => exact ih h'

theorem perform_ensures (op : Operation) (h : Synced d m log) :
    Ensures (allowed p d) (good d) (perform p m op) log (fun m' log' => Synced d m' log') := by
  cases op with
  | prepare claims =>
    apply (prepareClaims_ensures claims ∅ h).bind
    intro r log' hr
    exact hr.synced
  | unprepare uids =>
    apply (unprepareClaims_ensures uids ∅ h).bind
    intro r log' hr
    exact hr
  | recover =>
    have hrun : Ensures (allowed p d) (good d) (recover p m) log
        (fun r log' => Synced d r.2 log') := by
      apply Ensures.perform
      · intro order _
        exact h.consistent
      · intro order _
        exact recoverRecords_ensures order.1 (h.quiet rfl)
    apply hrun.bind
    intro r log' hr
    exact hr

end Operations

end HeteroCluster.DeviceOperations
