import HeteroCluster.TransactionCreation

namespace HeteroCluster.TransactionFiles

open CallProgram TransactionServer TransactionCreation

variable {cfg : Config} {s s' : System}

section Paths

variable {dir dir' path : Path} {fs fs' : FileSystem} {job job' : UInt64} {rank rank' : Int}
variable {id id' : String}

theorem id_of_directory (h : directory cfg job rank id = directory cfg job' rank' id') : id = id' := by
  simp only [directory, List.cons.injEq] at h
  exact h.2.2.2.2.1

theorem eq_of_above (hlen : dir.length = dir'.length) (h : dir <+: path)
    (hp : path = dir' ∨ ∃ name, path = ringPath dir' name) : dir = dir' := by
  obtain ⟨t, rfl⟩ := h
  obtain hp | ⟨name, hp⟩ := hp
  · exact (List.append_inj_left (hp.trans (List.append_nil dir').symm) hlen)
  · exact List.append_inj_left hp hlen

/-- Files change at the directory and below it, and directories above it may
come to be. -/
def Touches (dir : Path) (fs fs' : FileSystem) : Prop :=
  ∀ path, fs' path = fs path ∨ dir <+: path ∨ path <+: dir ∧ fs path = none

theorem removed_touches (h : Removed dir fs fs') : Touches dir fs fs' := by
  intro path
  obtain h | h := h path
  · exact .inl h
  · exact .inr (.inl h.1)

theorem touches_update (name : String) (entry : Option Entry) :
    Touches dir fs (Function.update fs (ringPath dir name) entry) := by
  intro path
  by_cases hp : path = ringPath dir name
  · subst hp
    exact .inr (.inl (List.prefix_append dir _))
  · exact .inl (Function.update_of_ne hp entry fs)

theorem serves_touches {maps : Maps} {request : CreateRequest} {log : FileLog} {e : FileEvent}
    (ho : Own cfg maps request log e) (h : Serves fs e fs') :
    Touches (ownDir cfg request) fs fs' := by
  obtain ⟨i, r⟩ := e
  have hcall := ho.call
  cases i with
  | mkdirAll d =>
    obtain rfl : d = ownDir cfg request := hcall
    intro path
    have hpath : fs' path = fs path ∨ path <+: ownDir cfg request ∧ fs path = none ∧
        fs' path = some .directory := by
      cases r with
      | none => exact h.2 path
      | some e => exact h path
    obtain hp | ⟨hp, hn, -⟩ := hpath
    · exact .inl hp
    · exact .inr (.inr ⟨hp, hn⟩)
  | newRing p size =>
    obtain ⟨⟨name, rfl⟩, rfl⟩ := hcall
    cases r with
    | none =>
      obtain ⟨-, -, rfl⟩ := h
      exact touches_update name _
    | some e =>
      obtain rfl | ⟨-, size, rfl⟩ := h
      · exact fun path => .inl rfl
      · exact touches_update name _
  | removeAll d =>
    obtain rfl : d = ownDir cfg request := hcall
    cases r with
    | none => exact removed_touches h.1
    | some e => exact removed_touches h

/-- The files of one transaction are out of reach of work in the directory of
another. -/
theorem Touches.ring (h : Touches dir fs fs') (hlen : dir.length = dir'.length) (hne : dir ≠ dir')
    (name : String) : fs' (ringPath dir' name) = fs (ringPath dir' name) := by
  obtain h | h | h := h (ringPath dir' name)
  · exact h
  · exact absurd (eq_of_above hlen h (.inr ⟨name, rfl⟩)) hne
  · exact absurd h.1 (ringPath_not_above hlen.symm name)

theorem Touches.directory (h : Touches dir fs fs') (hlen : dir.length = dir'.length) (hne : dir ≠ dir')
    (hd : fs dir' = some .directory) : fs' dir' = some .directory := by
  obtain h | h | h := h dir'
  · exact h.trans hd
  · exact absurd (eq_of_above hlen h (.inl rfl)) hne
  · exact absurd (h.2.symm.trans hd) (by simp)

end Paths

section Invariant

variable {strict : Prop} {fs fs' : FileSystem} {removals removals' : List Path} {id : String}
variable {txn : Transaction} {path : Path} {size : Nat}

/-- A file is there, or where nobody watches over the removals it is gone. -/
def Present (strict : Prop) (fs : FileSystem) (path : Path) (size : Nat) : Prop :=
  fs path = some (.file size) ∨ ¬ strict ∧ fs path = none

theorem Present.eq (h : Present strict fs path size) (he : fs' path = fs path) :
    Present strict fs' path size := by
  rw [Present, he]
  exact h

theorem Present.removed {dir : Path} (h : Present strict fs path size) (hr : Removed dir fs fs')
    (hs : ¬ strict) : Present strict fs' path size := by
  obtain he | ⟨-, hn⟩ := hr path
  · exact h.eq he
  · exact .inr ⟨hs, hn⟩

structure Registered (strict : Prop) (cfg : Config) (fs : FileSystem) (removals : List Path)
    (id : String) (txn : Transaction) : Prop where
  dir : txn.dir = directory cfg txn.jobID txn.rank id
  apart : strict → txn.dir ∉ removals
  made : strict → fs txn.dir = some .directory
  count : 1 ≤ txn.streams.length ∧ txn.streams.length ≤ 2
  path : ∀ stream ∈ txn.streams, stream.2 = ringPath txn.dir stream.1
  ring : ∀ stream ∈ txn.streams, Present strict fs stream.2 (ringSize cfg txn.streams.length)

/-- What the files show of the operations in the log of a creation. -/
structure Shown (strict : Prop) (cfg : Config) (fs : FileSystem) (request : CreateRequest)
    (log : FileLog) : Prop where
  made : strict → (⟨.mkdirAll (ownDir cfg request), none⟩ : FileEvent) ∈ log →
    fs (ownDir cfg request) = some .directory
  ring : ∀ path size, (⟨.newRing path size, none⟩ : FileEvent) ∈ log →
    (∃ name, path = ringPath (ownDir cfg request) name) ∧
      size = ringSize cfg request.streams.length ∧ Present strict fs path size

structure Working (strict : Prop) (cfg : Config) (maps : Maps) (fs : FileSystem)
    (removals : List Path) (request : CreateRequest) (creation : Creation) : Prop where
  ensures : Ensured cfg maps request creation.rest creation.log (Outcome cfg maps request)
  apart : strict → creation.log ≠ [] → ownDir cfg request ∉ removals
  shown : Clean creation.log → Shown strict cfg fs request creation.log

structure Sound (strict : Prop) (cfg : Config) (s : System) : Prop where
  registered : ∀ id txn, s.maps.transactions.lookup id = some txn →
    Registered strict cfg s.fs s.removals id txn
  removals : ∀ dir ∈ s.removals, ∃ job rank id, dir = directory cfg job rank id
  working : ∀ creation, s.busy = some creation →
    ∃ request, Working strict cfg s.maps s.fs s.removals request creation

theorem Registered.touch {job : UInt64} {rank : Int} {id' : String}
    (h : Registered strict cfg fs removals id txn)
    (ht : Touches (directory cfg job rank id') fs fs')
    (hne : directory cfg job rank id' ≠ txn.dir) : Registered strict cfg fs' removals id txn := by
  have hlen : (directory cfg job rank id').length = txn.dir.length := by rw [h.dir]; rfl
  refine ⟨h.dir, h.apart, ?_, h.count, h.path, ?_⟩
  · intro hs
    exact ht.directory hlen hne (h.made hs)
  · intro stream hstream
    have hring := h.ring stream hstream
    rw [h.path stream hstream] at hring ⊢
    exact hring.eq (ht.ring hlen hne stream.1)

theorem Registered.remove {dir : Path} (h : Registered strict cfg fs removals id txn)
    (hd : dir ∈ removals) (hdir : ∃ job rank id, dir = directory cfg job rank id)
    (hr : Removed dir fs fs') : Registered strict cfg fs' removals id txn := by
  by_cases hs : strict
  · obtain ⟨job, rank, id', rfl⟩ := hdir
    refine h.touch (removed_touches hr) ?_
    intro he
    exact h.apart hs (he ▸ hd)
  · refine ⟨h.dir, h.apart, fun hs' => absurd hs' hs, h.count, h.path, ?_⟩
    intro stream hstream
    exact (h.ring stream hstream).removed hr hs

variable {maps : Maps} {request : CreateRequest} {creation : Creation}

theorem Working.remove {dir : Path} (h : Working strict cfg maps fs removals request creation)
    (hd : dir ∈ removals) (hdir : ∃ job rank id, dir = directory cfg job rank id)
    (hr : Removed dir fs fs') : Working strict cfg maps fs' removals request creation := by
  have hlen : dir.length = (ownDir cfg request).length := by
    obtain ⟨job, rank, id', rfl⟩ := hdir
    rfl
  have hne : strict → creation.log ≠ [] → dir ≠ ownDir cfg request := by
    rintro hs hl rfl
    exact h.apart hs hl hd
  refine ⟨h.ensures, h.apart, fun hc => ⟨?_, ?_⟩⟩
  · intro hs hm
    have hd' := hne hs (List.ne_nil_of_mem hm)
    exact (removed_touches hr).directory hlen hd' ((h.shown hc).made hs hm)
  · intro path size hm
    obtain ⟨⟨name, rfl⟩, hsize, hp⟩ := (h.shown hc).ring path size hm
    refine ⟨⟨name, rfl⟩, hsize, ?_⟩
    by_cases hs : strict
    · exact hp.eq ((removed_touches hr).ring hlen (hne hs (List.ne_nil_of_mem hm)) name)
    · exact hp.removed hr hs

theorem ringPath_ne (dir : Path) (name : String) : ringPath dir name ≠ dir := by
  intro h
  have hpre := ringPath_not_above (rfl : dir.length = dir.length) name
  rw [h] at hpre
  exact hpre List.prefix_rfl

theorem Shown.snoc {log : FileLog} {i : FileCall} (h : Shown strict cfg fs request log)
    (hown : Own cfg maps request log ⟨i, none⟩) (hi : ∀ dir, i ≠ .removeAll dir)
    (hs : Serves fs ⟨i, none⟩ fs') : Shown strict cfg fs' request (log ++ [⟨i, none⟩]) := by
  have hcall := hown.call
  cases i with
  | removeAll dir => exact absurd rfl (hi dir)
  | mkdirAll dir =>
    obtain rfl : dir = ownDir cfg request := hcall
    refine ⟨fun _ _ => hs.1, ?_⟩
    intro path size hm
    obtain hm | hm := List.mem_append.mp hm
    · obtain ⟨⟨name, rfl⟩, hsize, hp⟩ := h.ring path size hm
      refine ⟨⟨name, rfl⟩, hsize, hp.eq ?_⟩
      obtain he | ⟨hpre, -⟩ := hs.2 (ringPath (ownDir cfg request) name)
      · exact he
      · exact absurd hpre (ringPath_not_above rfl name)
    · cases List.mem_singleton.mp hm
  | newRing p n =>
    obtain ⟨⟨name, rfl⟩, rfl⟩ := hcall
    obtain ⟨-, -, rfl⟩ := hs
    constructor
    · intro hstrict hm
      obtain hm | hm := List.mem_append.mp hm
      · rw [Function.update_of_ne (ringPath_ne _ name).symm]
        exact h.made hstrict hm
      · cases List.mem_singleton.mp hm
    · intro path size hm
      obtain hm | hm := List.mem_append.mp hm
      · obtain ⟨hname, rfl, hp⟩ := h.ring path size hm
        refine ⟨hname, rfl, ?_⟩
        by_cases he : path = ringPath (ownDir cfg request) name
        · subst he
          exact .inl (Function.update_self ..)
        · exact hp.eq (Function.update_of_ne he ..)
      · obtain ⟨rfl, rfl⟩ : path = ringPath (ownDir cfg request) name ∧
            size = ringSize cfg request.streams.length := by simpa using hm
        exact ⟨⟨name, rfl⟩, rfl, .inl (Function.update_self ..)⟩

theorem Working.call {i : FileCall} {next : FileReply i → FileProgram _} {log : FileLog}
    {r : FileReply i} (h : Working strict cfg maps fs removals request ⟨.call i next, log⟩)
    (hs : Serves fs ⟨i, r⟩ fs') (ha : strict → ∀ dir, i = .mkdirAll dir → dir ∉ removals) :
    Own cfg maps request log ⟨i, r⟩ ∧
      Working strict cfg maps fs' removals request ⟨next r, log ++ [⟨i, r⟩]⟩ := by
  obtain ⟨hown, hnext⟩ := h.ensures r trivial
  refine ⟨hown, hnext, ?_, ?_⟩
  · intro hstrict _
    by_cases hl : log = []
    · exact ha hstrict _ (hown.first hl)
    · exact h.apart hstrict hl
  · intro hc
    obtain ⟨hlog, rfl, hi⟩ := clean_snoc.mp hc
    exact (h.shown hlog).snoc hown hi hs

theorem Working.register {rest : FileProgram _} {log : FileLog} {streams : List (String × Path)}
    {maps' : Maps} (h : Working strict cfg maps fs removals request ⟨rest, log⟩)
    (hadd : Added cfg maps request log streams maps') :
    Registered strict cfg fs removals request.id
      ⟨request.job, request.rank, ownDir cfg request, streams⟩ := by
  have hopened := hadd.opened
  refine ⟨rfl, ?_, ?_, hadd.count, hopened.path, ?_⟩
  · intro hs
    exact h.apart hs hopened.ne_nil
  · intro hs
    exact (h.shown hopened.clean).made hs hopened.made
  · intro stream hstream
    rw [hadd.length]
    exact ((h.shown hopened.clean).ring stream.2 _ (hopened.ring stream hstream)).2.2

theorem deleteTransaction_ok {job : UInt64} {rank : Int} {dir : Path} {maps' : Maps}
    (h : deleteTransaction maps id job rank = .ok (dir, maps')) :
    ∃ txn, maps.transactions.lookup id = some txn ∧ txn.jobID = job ∧ txn.rank = rank ∧
      dir = txn.dir ∧ maps' = ⟨maps.transactions.erase id, maps.active.erase (activeKey job rank)⟩ := by
  unfold deleteTransaction at h
  split at h
  · cases h
  next txn hl =>
    split at h
    · cases h
    next howner =>
      push Not at howner
      obtain ⟨rfl, rfl⟩ := Prod.mk.inj (Except.ok.inj h)
      exact ⟨txn, hl, howner.1, howner.2, rfl, rfl⟩

/-- A creation makes no directory that a deletion is still removing. -/
def Apart (s : System) : Action → Prop
  | .call ⟨.mkdirAll dir, _⟩ => dir ∉ s.removals
  | _ => True

/-- The removals that are still going on matter only for the directories they are in. -/
theorem Registered.removals_of (h : Registered strict cfg fs removals id txn)
    (hsub : txn.dir ∈ removals' → txn.dir ∈ removals) :
    Registered strict cfg fs removals' id txn :=
  ⟨h.dir, fun hs hm => h.apart hs (hsub hm), h.made, h.count, h.path, h.ring⟩

theorem Working.removals_of
    (h : Working strict cfg maps fs removals request creation) (hsub : removals' ⊆ removals) :
    Working strict cfg maps fs removals' request creation :=
  ⟨h.ensures, fun hs hl hm => h.apart hs hl (hsub hm), h.shown⟩

theorem working_create (request : CreateRequest) :
    Working strict cfg maps fs removals request ⟨createTransaction cfg maps request, []⟩ := by
  refine ⟨createTransaction_spec cfg maps request, fun _ hl => absurd rfl hl, fun _ => ⟨?_, ?_⟩⟩
  · intro _ hm
    exact absurd hm List.not_mem_nil
  · intro path size hm
    exact absurd hm List.not_mem_nil

/-- No transaction is registered under the id of the creation that works in the files. -/
theorem Registered.serve {log : FileLog} {e : FileEvent}
    (h : Registered strict cfg fs removals id txn) (hl : maps.transactions.lookup id = some txn)
    (hown : Own cfg maps request log e) (hs : Serves fs e fs') :
    Registered strict cfg fs' removals id txn := by
  refine h.touch (serves_touches hown hs) ?_
  intro he
  rw [h.dir] at he
  rw [← id_of_directory he, hown.fresh] at hl
  cases hl

theorem Sound.finish {result : Except String CreateResponse} {maps : Maps} {log : FileLog}
    (h : Sound strict cfg s) (hb : s.busy = some ⟨.done (result, maps), log⟩)
    (hl : maps.transactions.lookup id = some txn) :
    Registered strict cfg s.fs s.removals id txn := by
  obtain ⟨request, hw⟩ := h.working _ hb
  obtain rfl | ⟨streams, hadd⟩ := hw.ensures
  · exact h.registered id txn hl
  · dsimp only at hadd
    rw [hadd.transactions] at hl
    by_cases hid : id = request.id
    · subst hid
      rw [AList.lookup_insert] at hl
      obtain rfl := Option.some.inj hl
      exact hw.register hadd
    · rw [AList.lookup_insert_ne hid] at hl
      exact h.registered id txn hl

/-- A deletion removes the directory of the transaction it takes out, and of no other. -/
theorem Sound.delete {id' : String} {txn' : Transaction} (h : Sound strict cfg s)
    (hd : s.maps.transactions.lookup id = some txn)
    (hl : (s.maps.transactions.erase id).lookup id' = some txn') :
    Registered strict cfg s.fs (txn.dir :: s.removals) id' txn' := by
  by_cases hid : id' = id
  · subst hid
    rw [AList.lookup_erase] at hl
    cases hl
  · rw [AList.lookup_erase_ne hid] at hl
    have hr := h.registered id' txn' hl
    apply hr.removals_of
    intro hm
    apply List.mem_of_ne_of_mem _ hm
    intro he
    rw [hr.dir, (h.registered id txn hd).dir] at he
    exact hid (id_of_directory he)

theorem Sound.step {a : Action} (h : Sound strict cfg s) (ha : strict → Apart s a)
    (hs : Step cfg s a s') : Sound strict cfg s' := by
  cases hs with
  | create request hb =>
    refine ⟨h.registered, h.removals, ?_⟩
    rintro creation ⟨⟩
    exact ⟨request, working_create request⟩
  | @call i next log fs' r hb hserves =>
    obtain ⟨request, hw⟩ := h.working _ hb
    have hapart : strict → ∀ dir, i = .mkdirAll dir → dir ∉ s.removals := by
      rintro hstrict dir rfl
      exact ha hstrict
    obtain ⟨hown, hw'⟩ := hw.call hserves hapart
    refine ⟨?_, h.removals, ?_⟩
    · intro id txn hl
      exact (h.registered id txn hl).serve hl hown hserves
    · rintro creation ⟨⟩
      exact ⟨request, hw'⟩
  | finish hb =>
    refine ⟨fun id txn hl => h.finish hb hl, h.removals, ?_⟩
    rintro creation ⟨⟩
  | @delete id job rank dir maps hb hd =>
    obtain ⟨txn, hl, -, -, rfl, rfl⟩ := deleteTransaction_ok hd
    refine ⟨?_, ?_, ?_⟩
    · intro id' txn' hl'
      exact h.delete hl hl'
    · rw [List.forall_mem_cons]
      exact ⟨⟨txn.jobID, txn.rank, id, (h.registered id txn hl).dir⟩, h.removals⟩
    · intro creation hc
      exact absurd (hb.symm.trans hc) (by simp)
  | @remove dir fs' hd hr =>
    refine ⟨?_, h.removals, ?_⟩
    · intro id txn hl
      exact (h.registered id txn hl).remove hd (h.removals dir hd) hr
    · intro creation hc
      obtain ⟨request, hw⟩ := h.working creation hc
      exact ⟨request, hw.remove hd (h.removals dir hd) hr⟩
  | @removed dir hd =>
    have hsub : s.removals.erase dir ⊆ s.removals := List.erase_subset
    refine ⟨?_, fun d hm => h.removals d (hsub hm), ?_⟩
    · intro id txn hl
      exact (h.registered id txn hl).removals_of (fun hm => hsub hm)
    · intro creation hc
      obtain ⟨request, hw⟩ := h.working creation hc
      exact ⟨request, hw.removals_of hsub⟩

theorem sound_of_reaches {allowed : System → Action → Prop} (h : Reaches cfg allowed s)
    (ha : ∀ s a, allowed s a → strict → Apart s a) : Sound strict cfg s := by
  induction h with
  | start fs =>
    refine ⟨?_, by simp [System.initial], by simp [System.initial]⟩
    intro id txn hl
    cases hl
  | step _ hallowed hs ih => exact ih.step (ha _ _ hallowed) hs

end Invariant

def Intact (s : System) : Prop := ∀ id txn, s.maps.transactions.lookup id = some txn →
  s.fs txn.dir = some .directory ∧ ∀ stream ∈ txn.streams, ∃ size, s.fs stream.2 = some (.file size)

def Quiet (s : System) : Prop := s.busy = none ∧ s.removals = []

/-- As long as no directory is made while it is being removed, no transaction
loses a file. -/
theorem transactions_intact (cfg : Config) (s : System) (h : Reaches cfg Apart s) : Intact s := by
  have hsound : Sound True cfg s := sound_of_reaches h (fun _ _ ha _ => ha)
  intro id txn hl
  have hr := hsound.registered id txn hl
  refine ⟨hr.made trivial, ?_⟩
  intro stream hstream
  obtain hring | ⟨hn, -⟩ := hr.ring stream hstream
  · exact ⟨_, hring⟩
  · exact absurd trivial hn

section Samples

variable {allowed : System → Action → Prop}

/-- A transaction with one ring, for one byte, is there as well. -/
def withRing (s : System) (id : String) (job : UInt64) (stream : String) : System :=
  { s with
    maps := register s.maps (oneByte id job stream)
      (oneStream defaultConfig (oneByte id job stream) ⟨stream, 1⟩)
    fs := madeRing defaultConfig s.fs (oneByte id job stream) ⟨stream, 1⟩ }

def firstCreated : System := withRing (System.initial (fun _ => none)) "t" 1 "a"

theorem firstCreated_reaches
    (hcreate : allowed (System.initial (fun _ => none)) (.create (oneByte "t" 1 "a")))
    (hrest : ∀ s a, s.removals = [] → Internal a → allowed s a) :
    Reaches defaultConfig allowed firstCreated :=
  (creatable_oneByte "t" 1 (by decide +kernel) rfl rfl).reaches (.start _) rfl (fun _ _ => .inl rfl) rfl
    hcreate hrest

def bothCreated : System := withRing firstCreated "u" 2 "a"

theorem secondID_fresh : firstCreated.maps.transactions.lookup "u" = none :=
  (AList.lookup_insert_ne (by decide)).trans rfl

theorem bothCreated_reaches (h : Reaches defaultConfig allowed firstCreated)
    (hcreate : allowed firstCreated (.create (oneByte "u" 2 "a")))
    (hrest : ∀ s a, s.removals = [] → Internal a → allowed s a) :
    Reaches defaultConfig allowed bothCreated := by
  have hcreatable : Creatable defaultConfig firstCreated.maps (oneByte "u" 2 "a") ⟨"a", 1⟩ :=
    creatable_oneByte "u" 2 (by decide +kernel) secondID_fresh (by decide +kernel)
  exact hcreatable.reaches h rfl (fun path hp => madeRing_dir hp.length_le (.inl rfl))
    (by decide +kernel) hcreate hrest

def firstDir : Path := ownDir defaultConfig (oneByte "t" 1 "a")

def firstDeleted (s : System) : System :=
  { s with
    maps := ⟨s.maps.transactions.erase "t", s.maps.active.erase (activeKey 1 0)⟩
    removals := [firstDir] }

def firstRemoved (s : System) : System :=
  { firstDeleted s with
    fs := fun path => if firstDir <+: path then none else s.fs path
    removals := [] }

theorem removed_all (dir : Path) (fs : FileSystem) :
    Removed dir fs (fun path => if dir <+: path then none else fs path) := by
  intro path
  by_cases hp : dir <+: path
  · exact .inr ⟨hp, if_pos hp⟩
  · exact .inl (if_neg hp)

theorem firstDeleted_reaches (h : Reaches defaultConfig allowed s) (hs : Quiet s)
    (hl : s.maps.transactions.lookup "t" =
      some (oneStream defaultConfig (oneByte "t" 1 "a") ⟨"a", 1⟩))
    (ha : allowed s (.delete "t" 1 0)) : Reaches defaultConfig allowed (firstDeleted s) := by
  have hdelete : deleteTransaction s.maps "t" 1 0 = .ok (firstDir, (firstDeleted s).maps) := by
    rw [deleteTransaction, hl]
    rfl
  have hstep := h.step ha (.delete hs.1 hdelete)
  rw [hs.2] at hstep
  exact hstep

theorem firstRemoved_reaches (h : Reaches defaultConfig allowed (firstDeleted s))
    (ha : ∀ s dir, allowed s (.remove dir) ∧ allowed s (.removed dir)) :
    Reaches defaultConfig allowed (firstRemoved s) := by
  have hremove := h.step (ha _ firstDir).1 (.remove List.mem_cons_self (removed_all firstDir s.fs))
  have hremoved := hremove.step (ha _ firstDir).2 (.removed List.mem_cons_self)
  have hnone : (firstDeleted s).removals.erase firstDir = [] := by simp [firstDeleted]
  dsimp only at hremoved
  rw [hnone] at hremoved
  exact hremoved

theorem apart_of_quiet {a : Action} (h : s.removals = []) : Apart s a := by
  unfold Apart
  split
  · simp [h]
  · trivial

theorem bothCreated_apart : Reaches defaultConfig Apart bothCreated :=
  bothCreated_reaches (firstCreated_reaches (apart_of_quiet rfl) (fun _ _ hs _ => apart_of_quiet hs))
    (apart_of_quiet rfl) (fun _ _ hs _ => apart_of_quiet hs)

end Samples

/-- One of two transactions is deleted and its directory removed. -/
theorem transactions_intact_removed : Reaches defaultConfig Apart (firstRemoved bothCreated) ∧
    (firstRemoved bothCreated).maps.transactions.keys = ["u"] ∧ Intact (firstRemoved bothCreated) := by
  have hl : bothCreated.maps.transactions.lookup "t" =
      some (oneStream defaultConfig (oneByte "t" 1 "a") ⟨"a", 1⟩) :=
    (AList.lookup_insert_ne (by decide)).trans (AList.lookup_insert _)
  have h : Reaches defaultConfig Apart (firstRemoved bothCreated) :=
    firstRemoved_reaches (firstDeleted_reaches bothCreated_apart ⟨rfl, rfl⟩ hl trivial)
      (fun _ _ => ⟨trivial, trivial⟩)
  exact ⟨h, by decide +kernel, transactions_intact defaultConfig (firstRemoved bothCreated) h⟩

/-- A transaction is deleted and created again, with another stream, before its
directory is removed. The removal then takes the new files. -/
theorem recreated_transaction_lost : ∃ s, Reaches defaultConfig (fun _ _ => True) s ∧ Quiet s ∧
    ¬ Intact s := by
  have h1 : Reaches defaultConfig (fun _ _ => True) firstCreated :=
    firstCreated_reaches trivial (fun _ _ _ _ => trivial)
  have h2 := firstDeleted_reaches h1 ⟨rfl, rfl⟩ (AList.lookup_insert _) trivial
  have hcreatable : Creatable defaultConfig (firstDeleted firstCreated).maps (oneByte "t" 1 "b")
      ⟨"b", 1⟩ :=
    creatable_oneByte "t" 1 (by decide +kernel) (AList.lookup_erase _ _)
      (by rw [firstDeleted, AList.lookup_erase]; rfl)
  have habsent : (firstDeleted firstCreated).fs
      (ringPath (ownDir defaultConfig (oneByte "t" 1 "b")) "b") = none := by
    decide +kernel
  have h3 := hcreatable.reaches h2 rfl
    (fun path hp => madeRing_dir hp.length_le (.inl rfl)) habsent trivial (fun _ _ _ _ => trivial)
  have h4 := h3.step trivial (.remove List.mem_cons_self (removed_all _ _))
  have h5 := h4.step trivial (.removed List.mem_cons_self)
  refine ⟨_, h5, ⟨rfl, by simp [firstDeleted]⟩, ?_⟩
  intro hintact
  have hdir := (hintact "t" _ (AList.lookup_insert _)).1
  have hsame : firstDir <+: ownDir defaultConfig (oneByte "t" 1 "b") := List.prefix_rfl
  simp [oneStream, hsame] at hdir

end HeteroCluster.TransactionFiles
