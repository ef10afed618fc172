import HeteroCluster.FailFast
import HeteroCluster.RecoveryRuns

namespace HeteroCluster.VerifierRetry

open GoStrings HardwareInventory RecoveryIncident CallProgram OperatorCalls RecoveryIsolation
open RecoveryQuiet RecoveryVerifier

section Api

abbrev Key := String × String

/-- The claims and Jobs that the API server holds, by namespace and name. -/
structure Objects where
  claims : Key → Option ClaimObject
  jobs : Key → Option JobObject

def key (o : VerifierObject) : Key := (o.ns, o.name)

def newClaim (o : VerifierObject) : ClaimObject := ⟨o.labels, o.owners⟩

def newJob (o : VerifierObject) : JobObject := ⟨o.labels, o.owners, 0, 0⟩

def Objects.addClaim (w : Objects) (o : VerifierObject) : Objects :=
  ⟨Function.update w.claims (key o) (some ((w.claims (key o)).getD (newClaim o))), w.jobs⟩

def Objects.addJob (w : Objects) (o : VerifierObject) : Objects :=
  ⟨w.claims, Function.update w.jobs (key o) (some ((w.jobs (key o)).getD (newJob o)))⟩

def found {α : Type} (object : Option α) : Except ApiError α :=
  match object with
  | some a => .ok a
  | none => .error .notFound

def created {α : Type} (object : Option α) : Except ApiError Unit :=
  match object with
  | some _ => .error .alreadyExists
  | none => .ok ()

/-- An API server whose calls succeed. The function makes no other calls. -/
def Objects.reply (rest : (c : Call) → Reply c) (w : Objects) : (c : Call) → Reply c
  | .getClaim ns name => found (w.claims (ns, name))
  | .getJob ns name => found (w.jobs (ns, name))
  | .createClaim o => created (w.claims (key o))
  | .createJob o => created (w.jobs (key o))
  | c => rest c

def Objects.after (w : Objects) : Call → Objects
  | .createClaim o => w.addClaim o
  | .createJob o => w.addJob o
  | _ => w

def Objects.record (w : Objects) : Event Reply → Objects
  | ⟨.createClaim o, .ok _⟩ => w.addClaim o
  | ⟨.createJob o, .ok _⟩ => w.addJob o
  | _ => w

def objectsAfter (w : Objects) (log : OperatorLog) : Objects := log.foldl Objects.record w

def answers (w : Objects) (log : OperatorLog) : Event Reply → Prop
  | ⟨.getClaim ns name, .ok c⟩ => (objectsAfter w log).claims (ns, name) = some c
  | ⟨.getClaim ns name, .error .notFound⟩ => (objectsAfter w log).claims (ns, name) = none
  | ⟨.getJob ns name, .ok j⟩ => (objectsAfter w log).jobs (ns, name) = some j
  | ⟨.getJob ns name, .error .notFound⟩ => (objectsAfter w log).jobs (ns, name) = none
  | ⟨.createClaim o, .ok _⟩ => (objectsAfter w log).claims (key o) = none
  | ⟨.createJob o, .ok _⟩ => (objectsAfter w log).jobs (key o) = none
  | _ => True

end Api

section Retry

variable (cfg : Config) (node : Node) (owner : String) (state : RecoveryState)

/-- The objects of the verifiers, one for each cell of the inventory. -/
def verifiers : Except ApiError (List VerifierObject) := do
  let inventory ← decodeRecoveryInventory cfg state.preInventory state.preBootID
  inventory.cells.mapM (verifierObjects cfg node owner state)

/-- An earlier call, which may have failed or stopped anywhere, left the objects. -/
def Attempted (w w' : Objects) : Prop :=
  ∃ log o, Executes (answers w) (ensureVerifierResources cfg node owner state) [] log o ∧
    w' = objectsAfter w log

/-- What is there stays, what a verifier lacks is created, and nothing else. -/
structure Completed (objects : List VerifierObject) (w w' : Objects) : Prop where
  claims : ∀ k, w'.claims k = (w.claims k).or
    ((objects.find? (fun o => key o == k)).map newClaim)
  jobs : ∀ k, w'.jobs k = (w.jobs k).or ((objects.find? (fun o => key o == k)).map newJob)

def retry (rest : (c : Call) → Reply c) (w : Objects) : Except ApiError Unit × Objects :=
  serve (Objects.reply rest) Objects.after (ensureVerifierResources cfg node owner state) w

def Idempotent (rest : (c : Call) → Reply c) (w : Objects) : Prop :=
  (retry cfg node owner state rest w).1 = .ok () ∧
    ∃ objects, verifiers cfg node owner state = .ok objects ∧
      Completed objects w (retry cfg node owner state rest w).2

/-- The label of the incident, and a controller reference to the owner. -/
def adoptable (labels : StringMap) (owners : List OwnerReference) : Prop :=
  get labels recoveryIncidentKey = state.incident ∧
    cfg.ownership.isControlledBy owners owner = true

/-- Nothing stands in the way of the verifiers: what is there can be adopted, and
no two of them share a name unless both of its objects are there. -/
structure Ready (objects : List VerifierObject) (w : Objects) : Prop where
  claims : ∀ o ∈ objects, ∀ c, w.claims (key o) = some c → adoptable cfg owner state c.labels c.owners
  jobs : ∀ o ∈ objects, ∀ j, w.jobs (key o) = some j → adoptable cfg owner state j.labels j.owners
  distinct : objects.Pairwise (fun a b => key a = key b →
    (w.claims (key a)).isSome ∧ (w.jobs (key a)).isSome)

end Retry

variable {cfg : Config} {node : Node} {owner : String} {state : RecoveryState}
variable {rest : (c : Call) → Reply c} {w : Objects} {o : VerifierObject}

section Missing

variable {β : Type} (m : Key → Option β) (k : Key) (b : β)

theorem add_apply (k' : Key) : Function.update m k (some ((m k).getD b)) k' =
    (m k').or (if k = k' then some b else none) := by
  by_cases hk : k = k'
  · subst hk
    rw [Function.update_self, if_pos rfl]
    cases m k <;> rfl
  · rw [Function.update_of_ne (Ne.symm hk), if_neg hk, Option.or_none]

theorem add_of_some {b' : β} (h : m k = some b') :
    Function.update m k (some ((m k).getD b)) = m := by
  funext k'
  rw [add_apply]
  by_cases hk : k = k'
  · rw [← hk, h, Option.some_or]
  · rw [if_neg hk, Option.or_none]

theorem or_find_cons (new : VerifierObject → β) (o : VerifierObject)
    (objects : List VerifierObject) :
    ((m k).or (if key o = k then some (new o) else none)).or
        ((objects.find? (fun o => key o == k)).map new) =
      (m k).or (((o :: objects).find? (fun o => key o == k)).map new) := by
  by_cases hk : key o = k
  · cases m k <;> simp [hk]
  · rw [List.find?_cons_of_neg (by simpa using hk), if_neg hk, Option.or_none]

variable {m k b} {m' : Key → Option β} {P : VerifierObject → Prop} {new : VerifierObject → β}

theorem added_add (h : ∀ k, m' k = m k ∨ ∃ o, P o ∧ key o = k ∧ m' k = some (new o)) (ho : P o)
    (hn : m' (key o) = none) (k : Key) :
    Function.update m' (key o) (some ((m' (key o)).getD (new o))) k = m k ∨
      ∃ o', P o' ∧ key o' = k ∧
        Function.update m' (key o) (some ((m' (key o)).getD (new o))) k = some (new o') := by
  rw [add_apply]
  by_cases hk : key o = k
  · rw [if_pos hk, ← hk, hn]
    exact Or.inr ⟨o, ho, rfl, rfl⟩
  · rw [if_neg hk, Option.or_none]
    exact h k

theorem eq_of_added (h : ∀ k, m' k = m k ∨ ∃ o, P o ∧ key o = k ∧ m' k = some (new o))
    (hnone : ∀ o, P o → m' (key o) ≠ some (new o)) : m' = m := by
  funext k
  cases h k with
  | inl heq => exact heq
  | inr hnew =>
    obtain ⟨o, ho, rfl, hk⟩ := hnew
    exact absurd hk (hnone o ho)

end Missing

section Serve

theorem addClaim_of_some {c : ClaimObject} (h : w.claims (key o) = some c) : w.addClaim o = w := by
  rw [Objects.addClaim, add_of_some _ _ _ h]

theorem addJob_of_some {j : JobObject} (h : w.jobs (key o) = some j) : w.addJob o = w := by
  rw [Objects.addJob, add_of_some _ _ _ h]

theorem refused_iff {labels : StringMap} {owners : List OwnerReference} :
    (get labels recoveryIncidentKey ≠ state.incident ∨
      cfg.ownership.isControlledBy owners owner = false) ↔
      ¬ adoptable cfg owner state labels owners := by
  rw [adoptable, not_and_or, Bool.not_eq_true]

/-- The two calls of an object against what the server holds under its name:
what is there has to be adoptable, and what is missing is created. -/
theorem serve_ensureObject {α : Type} {labels : α → StringMap} {owners : α → List OwnerReference}
    {kind name : String} {find : Operator (Except ApiError α)}
    {create : Operator (Except ApiError Unit)} {existing : Option α} {w1 w' : Objects}
    (hfind : serve (Objects.reply rest) Objects.after find w = (found existing, w))
    (hcreate : serve (Objects.reply rest) Objects.after create w = (created existing, w1))
    (hkept : existing.isSome → w1 = w) :
    serve (Objects.reply rest) Objects.after
        (ensureObject labels owners kind find create cfg owner state.incident name) w =
        (.ok (), w') ↔
      (∀ a, existing = some a → adoptable cfg owner state (labels a) (owners a)) ∧ w1 = w' := by
  rw [ensureObject, serve_bind, hfind]
  cases existing with
  | none =>
    dsimp only [found]
    rw [serve_bind, hcreate]
    simp [serve, created, createIgnoringExisting]
  | some a =>
    dsimp only [found]
    rw [hkept rfl]
    by_cases ha : adoptable cfg owner state (labels a) (owners a)
    · rw [if_neg (fun hr => refused_iff.mp hr ha)]
      simp [serve, ha]
    · rw [if_pos (refused_iff.mpr ha)]
      simp [serve, ha]

theorem serve_ensureClaim {w' : Objects} :
    serve (Objects.reply rest) Objects.after (ensureClaim cfg owner state.incident o) w =
        (.ok (), w') ↔
      (∀ c, w.claims (key o) = some c → adoptable cfg owner state c.labels c.owners) ∧
        w.addClaim o = w' := by
  apply serve_ensureObject rfl rfl
  intro hsome
  obtain ⟨c, hc⟩ := Option.isSome_iff_exists.mp hsome
  exact addClaim_of_some hc

theorem serve_ensureJob {w' : Objects} :
    serve (Objects.reply rest) Objects.after (ensureJob cfg owner state.incident o) w =
        (.ok (), w') ↔
      (∀ j, w.jobs (key o) = some j → adoptable cfg owner state j.labels j.owners) ∧
        w.addJob o = w' := by
  apply serve_ensureObject rfl rfl
  intro hsome
  obtain ⟨j, hj⟩ := Option.isSome_iff_exists.mp hsome
  exact addJob_of_some hj

theorem serve_then {p : Operator (Except ApiError Unit)} {w' : Objects}
    {f : Except ApiError Unit → Operator (Except ApiError Unit)}
    (hf : ∀ e, f (.error e) = .done (.error e)) :
    serve (Objects.reply rest) Objects.after (p >>= f) w = (.ok (), w') ↔
      ∃ w1, serve (Objects.reply rest) Objects.after p w = (.ok (), w1) ∧
        serve (Objects.reply rest) Objects.after (f (.ok ())) w1 = (.ok (), w') := by
  rw [serve_bind]
  cases serve (Objects.reply rest) Objects.after p w with
  | mk r w1 =>
    cases r with
    | error e => simp [hf, serve]
    | ok u => simp

def Objects.fill (w : Objects) (o : VerifierObject) : Objects := (w.addClaim o).addJob o

/-- Both objects of one verifier can be adopted if they are there. -/
structure Free (cfg : Config) (owner : String) (state : RecoveryState) (w : Objects)
    (o : VerifierObject) : Prop where
  claim : ∀ c, w.claims (key o) = some c → adoptable cfg owner state c.labels c.owners
  job : ∀ j, w.jobs (key o) = some j → adoptable cfg owner state j.labels j.owners

theorem serve_ensureCells_cons {cell : Cell} {cells : List Cell} {w' : Objects}
    (ho : verifierObjects cfg node owner state cell = .ok o) :
    serve (Objects.reply rest) Objects.after
        (ensureCells cfg node owner state (cell :: cells)) w = (.ok (), w') ↔
      Free cfg owner state w o ∧
        serve (Objects.reply rest) Objects.after (ensureCells cfg node owner state cells)
          (w.fill o) = (.ok (), w') := by
  rw [ensureCells, ho]
  dsimp only
  constructor
  · intro h
    obtain ⟨w1, hclaim, h⟩ := (serve_then (by intro e; rfl)).mp h
    obtain ⟨w2, hjob, h⟩ := (serve_then (by intro e; rfl)).mp h
    obtain ⟨hfree, rfl⟩ := serve_ensureClaim.mp hclaim
    obtain ⟨hfree', rfl⟩ := serve_ensureJob.mp hjob
    exact ⟨⟨hfree, hfree'⟩, h⟩
  · rintro ⟨hfree, h⟩
    apply (serve_then (by intro e; rfl)).mpr
    refine ⟨w.addClaim o, serve_ensureClaim.mpr ⟨hfree.claim, rfl⟩, ?_⟩
    apply (serve_then (by intro e; rfl)).mpr
    exact ⟨w.fill o, serve_ensureJob.mpr ⟨hfree.job, rfl⟩, h⟩

/-- The code sets no controller flag on the references of its objects. -/
theorem verifierObjects_owners {cell : Cell}
    (h : verifierObjects cfg node owner state cell = .ok o) :
    cfg.ownership.isControlledBy o.owners owner = false := by
  unfold verifierObjects at h
  rw [FailFast.bind_eq_ok] at h
  obtain ⟨⟨cpus, memory⟩, -, h⟩ := h
  dsimp only at h
  split at h
  · cases h
  · split at h
    · cases h
    · rw [← Except.ok.inj h, Bool.eq_false_iff]
      intro hcontrolled
      obtain ⟨reference, hmem, hcontroller, -⟩ := cfg.ownership.controlled _ _ hcontrolled
      rw [List.mem_singleton.mp hmem] at hcontroller
      cases hcontroller

end Serve

section Ready

theorem fill_claims (w : Objects) (o : VerifierObject) (k : Key) :
    (w.fill o).claims k = (w.claims k).or (if key o = k then some (newClaim o) else none) :=
  add_apply w.claims (key o) (newClaim o) k

theorem fill_jobs (w : Objects) (o : VerifierObject) (k : Key) :
    (w.fill o).jobs k = (w.jobs k).or (if key o = k then some (newJob o) else none) :=
  add_apply w.jobs (key o) (newJob o) k

theorem completed_foldl (objects : List VerifierObject) (w : Objects) :
    Completed objects w (objects.foldl Objects.fill w) := by
  induction objects generalizing w with
  | nil => exact ⟨fun k => by simp, fun k => by simp⟩
  | cons o objects ih =>
    have h := ih (w.fill o)
    constructor
    · intro k
      rw [List.foldl_cons, h.claims k, fill_claims, or_find_cons]
    · intro k
      rw [List.foldl_cons, h.jobs k, fill_jobs, or_find_cons]

theorem fill_claims_of_ne {k : Key} (h : key o ≠ k) : (w.fill o).claims k = w.claims k := by
  rw [fill_claims, if_neg h, Option.or_none]

theorem fill_jobs_of_ne {k : Key} (h : key o ≠ k) : (w.fill o).jobs k = w.jobs k := by
  rw [fill_jobs, if_neg h, Option.or_none]

/-- After one verifier is filled in, another one is free exactly if it was free
before and, under the same name, both objects were there. -/
theorem free_fill_iff {o' : VerifierObject} (hf : Free cfg owner state w o)
    (ho : cfg.ownership.isControlledBy o.owners owner = false) :
    Free cfg owner state (w.fill o) o' ↔ Free cfg owner state w o' ∧
      (key o = key o' → (w.claims (key o)).isSome ∧ (w.jobs (key o)).isSome) := by
  by_cases hk : key o = key o'
  · have hsame : Free cfg owner state w o' := ⟨hk ▸ hf.claim, hk ▸ hf.job⟩
    constructor
    · intro h
      refine ⟨hsame, fun _ => ⟨?_, ?_⟩⟩
      · by_contra hn
        have hc := h.claim (newClaim o) (by rw [← hk, fill_claims]; simp_all)
        rw [adoptable, newClaim, ho] at hc
        cases hc.2
      · by_contra hn
        have hj := h.job (newJob o) (by rw [← hk, fill_jobs]; simp_all)
        rw [adoptable, newJob, ho] at hj
        cases hj.2
    · rintro ⟨h, hboth⟩
      obtain ⟨hc, hj⟩ := hboth hk
      obtain ⟨c, hc⟩ := Option.isSome_iff_exists.mp hc
      obtain ⟨j, hj⟩ := Option.isSome_iff_exists.mp hj
      have hfill : w.fill o = w := by
        rw [Objects.fill, addClaim_of_some hc, addJob_of_some hj]
      rwa [hfill]
  · have hclaims := fill_claims_of_ne (w := w) hk
    have hjobs := fill_jobs_of_ne (w := w) hk
    constructor
    · intro h
      refine ⟨⟨?_, ?_⟩, fun he => absurd he hk⟩
      · rw [← hclaims]
        exact h.claim
      · rw [← hjobs]
        exact h.job
    · rintro ⟨h, -⟩
      constructor
      · rw [hclaims]
        exact h.claim
      · rw [hjobs]
        exact h.job

theorem ready_iff {objects : List VerifierObject} : Ready cfg owner state objects w ↔
    (∀ o ∈ objects, Free cfg owner state w o) ∧ objects.Pairwise (fun a b => key a = key b →
      (w.claims (key a)).isSome ∧ (w.jobs (key a)).isSome) := by
  constructor
  · intro h
    exact ⟨fun o ho => ⟨h.claims o ho, h.jobs o ho⟩, h.distinct⟩
  · rintro ⟨h, hd⟩
    exact ⟨fun o ho => (h o ho).claim, fun o ho => (h o ho).job, hd⟩

theorem ready_cons_iff {objects : List VerifierObject}
    (ho : cfg.ownership.isControlledBy o.owners owner = false) :
    Ready cfg owner state (o :: objects) w ↔
      Free cfg owner state w o ∧ Ready cfg owner state objects (w.fill o) := by
  simp only [ready_iff, List.forall_mem_cons, List.pairwise_cons]
  constructor
  · rintro ⟨⟨hf, hfree⟩, hhead, hd⟩
    refine ⟨hf, fun o' ho' => (free_fill_iff hf ho).mpr ⟨hfree o' ho', hhead o' ho'⟩, ?_⟩
    apply hd.imp
    intro a b h he
    obtain ⟨hc, hj⟩ := h he
    rw [fill_claims, fill_jobs, Option.isSome_or, Option.isSome_or, hc, hj]
    exact ⟨rfl, rfl⟩
  · rintro ⟨hf, hfree, hd⟩
    have hfree' := fun o' ho' => (free_fill_iff hf ho).mp (hfree o' ho')
    refine ⟨⟨hf, fun o' ho' => (hfree' o' ho').1⟩, fun o' ho' => (hfree' o' ho').2, ?_⟩
    apply hd.imp_of_mem
    intro a b ha _ h he
    by_cases hk : key o = key a
    · rw [← hk]
      exact (hfree' a ha).2 hk
    · rw [← fill_claims_of_ne hk, ← fill_jobs_of_ne hk]
      exact h he

theorem serve_ensureCells {cells : List Cell} {w' : Objects} :
    serve (Objects.reply rest) Objects.after (ensureCells cfg node owner state cells) w =
        (.ok (), w') ↔
      ∃ objects, cells.mapM (verifierObjects cfg node owner state) = .ok objects ∧
        Ready cfg owner state objects w ∧ objects.foldl Objects.fill w = w' := by
  induction cells generalizing w with
  | nil =>
    have hready : Ready cfg owner state [] w := ⟨by simp, by simp, by simp⟩
    simp [ensureCells, serve, hready]
  | cons cell cells ih =>
    simp only [List.mapM_cons, FailFast.bind_eq_ok, FailFast.pure_eq_ok]
    cases ho : verifierObjects cfg node owner state cell with
    | error e => simp [ensureCells, ho, serve]
    | ok o =>
      have howners := verifierObjects_owners ho
      rw [serve_ensureCells_cons ho, ih]
      constructor
      · rintro ⟨hf, objects, hobjects, hready, hw⟩
        exact ⟨o :: objects, ⟨o, rfl, objects, hobjects, rfl⟩,
          (ready_cons_iff howners).mpr ⟨hf, hready⟩, hw⟩
      · rintro ⟨_, ⟨_, ⟨⟩, objects, hobjects, rfl⟩, hready, hw⟩
        obtain ⟨hf, hready⟩ := (ready_cons_iff howners).mp hready
        exact ⟨hf, objects, hobjects, hready, hw⟩

theorem retry_iff {w' : Objects} :
    retry cfg node owner state rest w = (.ok (), w') ↔
      ∃ objects, verifiers cfg node owner state = .ok objects ∧
        Ready cfg owner state objects w ∧ objects.foldl Objects.fill w = w' := by
  unfold retry verifiers ensureVerifierResources
  cases decodeRecoveryInventory cfg state.preInventory state.preBootID with
  | error e => simp [serve, bind, Except.bind]
  | ok inventory => exact serve_ensureCells

theorem idempotent_iff_ready : Idempotent cfg node owner state rest w ↔
    ∃ objects, verifiers cfg node owner state = .ok objects ∧ Ready cfg owner state objects w := by
  constructor
  · rintro ⟨hok, -⟩
    obtain ⟨objects, hobjects, hready, -⟩ := retry_iff.mp (Prod.ext hok rfl)
    exact ⟨objects, hobjects, hready⟩
  · rintro ⟨objects, hobjects, hready⟩
    have hretry : retry cfg node owner state rest w = (.ok (), objects.foldl Objects.fill w) :=
      retry_iff.mpr ⟨objects, hobjects, hready, rfl⟩
    rw [Idempotent, hretry]
    exact ⟨rfl, objects, hobjects, completed_foldl objects w⟩

end Ready

section Attempt

def IsVerifier (cfg : Config) (node : Node) (owner : String) (state : RecoveryState)
    (o : VerifierObject) : Prop :=
  ∃ inventory, decodeRecoveryInventory cfg state.preInventory state.preBootID = .ok inventory ∧
    ∃ cell ∈ inventory.cells, verifierObjects cfg node owner state cell = .ok o

structure Added (P : VerifierObject → Prop) (w w' : Objects) : Prop where
  claims : ∀ k, w'.claims k = w.claims k ∨
    ∃ o, P o ∧ key o = k ∧ w'.claims k = some (newClaim o)
  jobs : ∀ k, w'.jobs k = w.jobs k ∨ ∃ o, P o ∧ key o = k ∧ w'.jobs k = some (newJob o)

def creates (P : VerifierObject → Prop) : Call → Prop
  | .createClaim o => P o
  | .createJob o => P o
  | _ => True

theorem Added.addClaim {P : VerifierObject → Prop} {w' : Objects} (h : Added P w w') (ho : P o)
    (hn : w'.claims (key o) = none) : Added P w (w'.addClaim o) :=
  ⟨added_add h.claims ho hn, h.jobs⟩

theorem Added.addJob {P : VerifierObject → Prop} {w' : Objects} (h : Added P w w') (ho : P o)
    (hn : w'.jobs (key o) = none) : Added P w (w'.addJob o) :=
  ⟨h.claims, added_add h.jobs ho hn⟩

theorem Added.record {P : VerifierObject → Prop} {log : OperatorLog} {e : Event Reply}
    (h : Added P w (objectsAfter w log)) (ha : answers w log e) (hc : creates P e.1) :
    Added P w (objectsAfter w (log ++ [e])) := by
  rw [objectsAfter, List.foldl_concat]
  obtain ⟨c, r⟩ := e
  cases c with
  | createClaim o =>
    cases r with
    | ok u => exact h.addClaim hc ha
    | error e => exact h
  | createJob o =>
    cases r with
    | ok u => exact h.addJob hc ha
    | error e => exact h
  | _ => exact h

theorem ensureClaim_creates {P : VerifierObject → Prop} (ho : P o) (log : OperatorLog) :
    Ensures (answers w) (fun _ e => creates P e.1) (ensureClaim cfg owner state.incident o) log
      (fun _ _ => True) :=
  ensureObject_ensures (fun _ _ => ⟨trivial, trivial⟩) (fun _ _ _ => ⟨ho, trivial⟩)

theorem ensureJob_creates {P : VerifierObject → Prop} (ho : P o) (log : OperatorLog) :
    Ensures (answers w) (fun _ e => creates P e.1) (ensureJob cfg owner state.incident o) log
      (fun _ _ => True) :=
  ensureObject_ensures (fun _ _ => ⟨trivial, trivial⟩) (fun _ _ _ => ⟨ho, trivial⟩)

theorem ensureCells_creates {P : VerifierObject → Prop} {cells : List Cell} (log : OperatorLog)
    (h : ∀ cell ∈ cells, ∀ o, verifierObjects cfg node owner state cell = .ok o → P o) :
    Ensures (answers w) (fun _ e => creates P e.1) (ensureCells cfg node owner state cells) log
      (fun _ _ => True) := by
  induction cells generalizing log with
  | nil => trivial
  | cons cell cells ih =>
    rw [ensureCells]
    cases ho : verifierObjects cfg node owner state cell with
    | error e => trivial
    | ok o =>
      have hP := h cell (by simp) o ho
      apply (ensureClaim_creates hP log).bind
      intro r log' _
      cases r with
      | error e => trivial
      | ok u =>
        apply (ensureJob_creates hP log').bind
        intro r log'' _
        cases r with
        | error e => trivial
        | ok u => exact ih log'' (fun c hc => h c (by simp [hc]))

theorem Attempted.added {w' : Objects} (h : Attempted cfg node owner state w w') :
    Added (IsVerifier cfg node owner state) w w' := by
  obtain ⟨log, r, hrun, rfl⟩ := h
  have hcreates : Ensures (answers w) (fun _ e => creates (IsVerifier cfg node owner state) e.1)
      (ensureVerifierResources cfg node owner state) [] (fun _ _ => True) := by
    unfold ensureVerifierResources
    cases hd : decodeRecoveryInventory cfg state.preInventory state.preBootID with
    | error e => trivial
    | ok inventory =>
      apply ensureCells_creates
      intro cell hcell o ho
      exact ⟨inventory, hd, cell, hcell, ho⟩
  apply hcreates.invariant hrun (fun log => Added (IsVerifier cfg node owner state) w
    (objectsAfter w log))
  · intro l e hI ha hc
    exact hI.record ha hc
  · exact ⟨fun _ => Or.inl rfl, fun _ => Or.inl rfl⟩

theorem IsVerifier.mem {objects : List VerifierObject} (h : IsVerifier cfg node owner state o)
    (ho : verifiers cfg node owner state = .ok objects) : o ∈ objects := by
  obtain ⟨inventory, hd, cell, hcell, hcellO⟩ := h
  rw [verifiers, hd] at ho
  exact FailFast.mem_of_mapM ho hcell hcellO

theorem IsVerifier.owners (h : IsVerifier cfg node owner state o) :
    cfg.ownership.isControlledBy o.owners owner = false := by
  obtain ⟨inventory, -, cell, -, ho⟩ := h
  exact verifierObjects_owners ho

/-- A retry works exactly if the earlier call created nothing, and nothing else
stands in its way. -/
theorem retry_idempotent_iff {w' : Objects} (h : Attempted cfg node owner state w w') :
    Idempotent cfg node owner state rest w' ↔
      w' = w ∧ ∃ objects, verifiers cfg node owner state = .ok objects ∧
        Ready cfg owner state objects w := by
  rw [idempotent_iff_ready]
  constructor
  · rintro ⟨objects, hobjects, hready⟩
    have hsame : w' = w := by
      have hclaims : w'.claims = w.claims := by
        apply eq_of_added h.added.claims
        intro o ho hc
        have ha := (hready.claims o (ho.mem hobjects) _ hc).2
        rw [newClaim, ho.owners] at ha
        cases ha
      have hjobs : w'.jobs = w.jobs := by
        apply eq_of_added h.added.jobs
        intro o ho hj
        have ha := (hready.jobs o (ho.mem hobjects) _ hj).2
        rw [newJob, ho.owners] at ha
        cases ha
      cases w'
      cases w
      simp_all
    rw [hsame] at hready
    exact ⟨hsame, objects, hobjects, hready⟩
  · rintro ⟨rfl, hready⟩
    exact hready

end Attempt

section Samples

theorem reply_answers (rest : (c : Call) → Reply c) (w : Objects) (log : OperatorLog) (c : Call) :
    answers w log ⟨c, (objectsAfter w log).reply rest c⟩ := by
  cases c with
  | getClaim ns name =>
    cases h : (objectsAfter w log).claims (ns, name) <;> simp [answers, Objects.reply, found, h]
  | getJob ns name =>
    cases h : (objectsAfter w log).jobs (ns, name) <;> simp [answers, Objects.reply, found, h]
  | createClaim o =>
    cases h : (objectsAfter w log).claims (key o) <;> simp [answers, Objects.reply, created, h]
  | createJob o =>
    cases h : (objectsAfter w log).jobs (key o) <;> simp [answers, Objects.reply, created, h]
  | _ => trivial

def cellConfig : Config :=
  { RecoveryRuns.sampleConfig with
    unmarshalInventory := fun _ => some ⟨1, "boot-1", [⟨0, 4, 2, 1073741824, [], []⟩]⟩ }

def cellState : RecoveryState :=
  initialState RecoveryRuns.sampleNode 0 "00000000-0000-4000-8000-000000000000"

def quiet : (c : Call) → Reply c :=
  RecoveryRuns.World.reply ⟨RecoveryRuns.sampleNode, 0, [], [], .error .notFound⟩

def empty : Objects := ⟨fun _ => none, fun _ => none⟩

/-- A first call for a node with one cell, and nothing in its way. -/
def firstCall : OperatorLog × Option (Except ApiError Unit) :=
  follow (fun log c => (objectsAfter empty log).reply quiet c) 8
    (ensureVerifierResources cellConfig RecoveryRuns.sampleNode "owner" cellState) []

theorem firstCall_executes : Executes (answers empty)
    (ensureVerifierResources cellConfig RecoveryRuns.sampleNode "owner" cellState) []
    firstCall.1 firstCall.2 :=
  follow_executes (reply_answers quiet empty) 8 _ []

/-- The first call succeeds, the second finds that its own claim belongs to
another incident. -/
theorem retry_refused : firstCall.2 = some (.ok ()) ∧
    Attempted cellConfig RecoveryRuns.sampleNode "owner" cellState empty
      (objectsAfter empty firstCall.1) ∧
    (retry cellConfig RecoveryRuns.sampleNode "owner" cellState quiet
      (objectsAfter empty firstCall.1)).1 = .error (.other
        "verifier ResourceClaim \"hardware-verify-000000000000-n0\" belongs to another incident") :=
  ⟨by decide +kernel, ⟨_, _, firstCall_executes, rfl⟩, by decide +kernel⟩

theorem retry_idempotent_firstCall :
    Idempotent cellConfig RecoveryRuns.sampleNode "owner" cellState quiet
        (objectsAfter empty firstCall.1) ↔
      objectsAfter empty firstCall.1 = empty ∧ ∃ objects,
        verifiers cellConfig RecoveryRuns.sampleNode "owner" cellState = .ok objects ∧
        Ready cellConfig "owner" cellState objects empty :=
  retry_idempotent_iff ⟨_, _, firstCall_executes, rfl⟩

end Samples

end HeteroCluster.VerifierRetry
