import HeteroCluster.RequestTraces
import Mathlib.Order.Defs.LinearOrder
import Mathlib.Algebra.Order.Ring.Int

namespace HeteroCluster.CheckpointSignals

open RequestTraces

section Model

variable (τ : Type)

/-- Where the program stands in `checkpoint_if_due`. The handler of the signal can
run at each of these points. -/
inductive Point where
  | outside
  | entered (step : Int)
  | timed (step : Int) (now : τ)
  | unrequested (step : Int) (now : τ)
  | due (step : Int)
  | chosen (step : Int) (reason : String)
  | saving (step : Int) (reason : String)
  | saved
  | cleared
  deriving DecidableEq

/-- What happens: a signal, or the next thing that `checkpoint_if_due` does. -/
inductive Action where
  | signal
  | call (step : Int)
  | readClock (now : τ)
  | testRequested
  | returnFalse
  | goOn
  | chooseReason
  | startSave
  | saveReturns
  | saveRaises
  | clear
  | schedule (now : τ)
  deriving DecidableEq

variable {τ} [LinearOrder τ] [Add τ] [Zero τ]

structure CheckpointLifecycle (τ : Type) [LinearOrder τ] [Zero τ] where
  intervalSeconds : τ
  requested : Bool
  next : τ
  point : Point τ
  interval_pos : 0 < intervalSeconds

def start (interval now : τ) (h : 0 < interval) : CheckpointLifecycle τ where
  intervalSeconds := interval
  requested := false
  next := now + interval
  point := .outside
  interval_pos := h

/-- The constructor. It reads the clock only for a positive interval. -/
def init (interval now : τ) : Except String (CheckpointLifecycle τ) :=
  if h : interval ≤ 0 then .error "checkpoint interval must be positive"
  else .ok (start interval now (not_le.mp h))

def step (s : CheckpointLifecycle τ) (a : Action τ) : Option (CheckpointLifecycle τ) :=
  match a, s.point with
  | .signal, _ => some { s with requested := true }
  | .call step, .outside => some { s with point := .entered step }
  | .readClock now, .entered step => some { s with point := .timed step now }
  | .testRequested, .timed step now =>
    some { s with point := if s.requested then .due step else .unrequested step now }
  | .returnFalse, .unrequested _ now =>
    if now < s.next then some { s with point := .outside } else none
  | .goOn, .unrequested step now =>
    if now < s.next then none else some { s with point := .due step }
  | .chooseReason, .due step =>
    some { s with point := .chosen step (if s.requested then "usr1" else "periodic") }
  | .startSave, .chosen step reason => some { s with point := .saving step reason }
  | .saveReturns, .saving _ _ => some { s with point := .saved }
  | .saveRaises, .saving _ _ => some { s with point := .outside }
  | .clear, .saved => some { s with requested := false, point := .cleared }
  | .schedule now, .cleared => some { s with next := now + s.intervalSeconds, point := .outside }
  | _, _ => none

def run (s : CheckpointLifecycle τ) (t : List (Action τ)) : Option (CheckpointLifecycle τ) :=
  t.foldlM step s

end Model

section Traces

variable {τ : Type}

def Action.isSignal : Action τ → Bool
  | .signal => true
  | _ => false

def Action.isSave : Action τ → Bool
  | .startSave => true
  | _ => false

def Action.isCall : Action τ → Bool
  | .call _ => true
  | _ => false

def Action.isClear : Action τ → Bool
  | .clear => true
  | _ => false

/-- The call ends, with a result or with the exception of `save`. -/
def Action.isEnd : Action τ → Bool
  | .returnFalse | .saveRaises | .schedule _ => true
  | _ => false

/-- A signal is followed by the start of a save, at the latest in the next call
that begins after it. -/
def Served (t : List (Action τ)) : Prop :=
  ∀ before between k during last after,
    t = before ++ .signal :: between ++ .call k :: during ++ last :: after →
    (∀ a ∈ between, a.isCall = false) → (∀ a ∈ during, a.isCall = false) → last.isEnd = true →
    ∃ a ∈ between ++ during, a.isSave = true

def NotLost (t : List (Action τ)) : Prop :=
  ∀ before between after, t = before ++ .signal :: between ++ .clear :: after →
    ∃ a ∈ between, a.isSave = true

/-- No signal comes between the start of a save and the clearing after it. -/
def Undisturbed (t : List (Action τ)) : Prop :=
  ∀ before during after, t = before ++ .startSave :: during ++ .clear :: after →
    (∀ a ∈ during, a.isSave = false) → .signal ∉ during

end Traces

section Calls

variable {τ : Type} {t : List (Action τ)} {a : Action τ}

abbrev waiting (t : List (Action τ)) : Bool := unanswered Action.isSignal Action.isSave t

/-- The trace of a call that has begun: what came before it, and its own part. -/
def InCall (t : List (Action τ)) (P : List (Action τ) → List (Action τ) → Prop) : Prop :=
  ∃ before k own, t = before ++ .call k :: own ∧ (∀ a ∈ own, a.isCall = false) ∧ P before own

def Unsaved (_ own : List (Action τ)) : Prop := ∀ a ∈ own, a.isSave = false

def Saved (_ own : List (Action τ)) : Prop := ∃ a ∈ own, a.isSave = true

def Tracks (t : List (Action τ)) : Point τ → Prop
  | .outside => True
  | .entered _ | .timed _ _ => InCall t Unsaved
  | .unrequested _ _ => InCall t (fun before _ => waiting before = false)
  | .due _ | .chosen _ _ => InCall t (fun _ _ => True)
  | .saving _ _ | .saved | .cleared => InCall t Saved

theorem InCall.snoc {P Q : List (Action τ) → List (Action τ) → Prop} (h : InCall t P)
    (ha : a.isCall = false) (hPQ : ∀ before own, P before own → Q before (own ++ [a])) :
    InCall (t ++ [a]) Q := by
  obtain ⟨before, k, own, rfl, hown, hP⟩ := h
  refine ⟨before, k, own ++ [a], by simp, ?_, hPQ before own hP⟩
  rw [List.forall_mem_append]
  exact ⟨hown, by simpa using ha⟩

theorem InCall.unsaved (h : InCall t Unsaved) (ha : a.isCall = false) (hsave : a.isSave = false) :
    InCall (t ++ [a]) Unsaved := by
  refine h.snoc ha fun _ own hown => ?_
  rw [Unsaved, List.forall_mem_append]
  exact ⟨hown, by simpa using hsave⟩

theorem InCall.saved (h : InCall t Saved) (ha : a.isCall = false) : InCall (t ++ [a]) Saved := by
  refine h.snoc ha fun _ own hown => ?_
  obtain ⟨x, hx, hsave⟩ := hown
  exact ⟨x, List.mem_append_left _ hx, hsave⟩

theorem Tracks.signal {point : Point τ} (h : Tracks t point) : Tracks (t ++ [.signal]) point := by
  cases point with
  | outside => trivial
  | entered | timed => exact h.unsaved rfl rfl
  | unrequested => exact h.snoc rfl fun _ _ hwaiting => hwaiting
  | due | chosen => exact h.snoc rfl fun _ _ _ => trivial
  | saving | saved | cleared => exact h.saved rfl

/-- In a call that has not saved, a request from before it is still open. -/
theorem waiting_of_before {before own : List (Action τ)} {k : Int} (hwaiting : waiting before = true)
    (hown : ∀ a ∈ own, a.isSave = false) : waiting (before ++ .call k :: own) = true := by
  obtain ⟨first, x, rest, rfl, hx, hrest⟩ := unanswered_iff.mp hwaiting
  refine unanswered_iff.mpr ⟨first, x, rest ++ .call k :: own, by simp, hx, ?_⟩
  rw [List.forall_mem_append, List.forall_mem_cons]
  exact ⟨hrest, rfl, hown⟩

theorem InCall.none_waiting (h : InCall t Unsaved) (hwaiting : waiting t = false)
    (ha : a.isCall = false) : InCall (t ++ [a]) (fun before _ => waiting before = false) := by
  obtain ⟨before, k, own, rfl, hcall, hown⟩ := h
  refine InCall.snoc (P := fun before _ => waiting before = false) ⟨before, k, own, rfl, hcall, ?_⟩ ha
    fun _ _ hbefore => hbefore
  by_contra hbefore
  rw [Bool.not_eq_false] at hbefore
  rw [waiting_of_before hbefore hown] at hwaiting
  cases hwaiting

end Calls

section Runs

variable {τ : Type} [LinearOrder τ] [Add τ] [Zero τ] {s s' : CheckpointLifecycle τ}
  {t : List (Action τ)} {a : Action τ}

theorem step_requested (h : step s a = some s') :
    s'.requested = (a.isSignal || s.requested && !a.isClear) := by
  unfold step at h
  split at h
  case h_5 | h_6 =>
    split at h <;> cases h
    simp [Action.isSignal, Action.isClear]
  case h_13 => cases h
  all_goals
    cases h
    simp [Action.isSignal, Action.isClear]

theorem step_tracks (htracks : Tracks t s.point) (hwaiting : s.requested = false → waiting t = false)
    (h : step s a = some s') : Tracks (t ++ [a]) s'.point := by
  unfold step at h
  split at h
  next =>
    cases h
    exact htracks.signal
  next k hpoint =>
    cases h
    exact ⟨t, k, [], rfl, by simp, by simp [Unsaved]⟩
  next hpoint =>
    cases h
    rw [hpoint] at htracks
    exact htracks.unsaved rfl rfl
  next hpoint =>
    cases h
    rw [hpoint] at htracks
    dsimp only
    cases hrequested : s.requested with
    | true => exact htracks.snoc rfl fun _ _ _ => trivial
    | false => exact htracks.none_waiting (hwaiting hrequested) rfl
  next =>
    split at h <;> cases h
    trivial
  next hpoint =>
    rw [hpoint] at htracks
    split at h <;> cases h
    exact htracks.snoc rfl fun _ _ _ => trivial
  next hpoint =>
    cases h
    rw [hpoint] at htracks
    exact htracks.snoc rfl fun _ _ _ => trivial
  next hpoint =>
    cases h
    rw [hpoint] at htracks
    exact htracks.snoc rfl fun _ own _ => ⟨.startSave, by simp, rfl⟩
  next hpoint =>
    cases h
    rw [hpoint] at htracks
    exact htracks.saved rfl
  next =>
    cases h
    trivial
  next hpoint =>
    cases h
    rw [hpoint] at htracks
    exact htracks.saved rfl
  next =>
    cases h
    trivial
  next => cases h

structure Inv (t : List (Action τ)) (s : CheckpointLifecycle τ) : Prop where
  requested : waiting t = true → s.requested = true
  tracks : Tracks t s.point

theorem Inv.step (h : Inv t s) (hclear : a.isClear = true → waiting t = false)
    (hstep : step s a = some s') : Inv (t ++ [a]) s' := by
  constructor
  · intro hwaiting
    rw [waiting, unanswered_snoc] at hwaiting
    rw [step_requested hstep]
    cases hsignal : a.isSignal with
    | true => rfl
    | false =>
      rw [hsignal, Bool.false_or, Bool.and_eq_true] at hwaiting
      rw [h.requested hwaiting.1, Bool.false_or, Bool.true_and, Bool.not_eq_true']
      by_contra hset
      exact absurd ((hclear (Bool.not_eq_false _ ▸ hset)).symm.trans hwaiting.1) (by decide)
  · apply step_tracks h.tracks _ hstep
    intro hrequested
    by_contra hwaiting
    rw [h.requested (Bool.not_eq_false _ ▸ hwaiting)] at hrequested
    cases hrequested

omit [LinearOrder τ] [Add τ] [Zero τ] in
theorem exists_signal_of_waiting (h : waiting t = true) : ∃ first rest,
    t = first ++ .signal :: rest ∧ ∀ a ∈ rest, a.isSave = false := by
  obtain ⟨first, x, rest, rfl, hx, hrest⟩ := unanswered_iff.mp h
  obtain rfl : x = .signal := by
    cases x <;> first | rfl | cases hx
  exact ⟨first, rest, rfl, hrest⟩

omit [LinearOrder τ] [Add τ] [Zero τ] in
theorem notLost_iff : NotLost t ↔
    ∀ before after, t = before ++ .clear :: after → waiting before = false := by
  constructor
  · intro h before after ht
    by_contra hwaiting
    rw [Bool.not_eq_false] at hwaiting
    obtain ⟨first, rest, rfl, hrest⟩ := exists_signal_of_waiting hwaiting
    obtain ⟨y, hy, hsave⟩ := h first rest after ht
    exact absurd ((hrest y hy).symm.trans hsave) (by decide)
  · intro h before between after ht
    by_contra hnone
    push Not at hnone
    have hwaiting : waiting (before ++ .signal :: between) = true :=
      unanswered_iff.mpr ⟨before, .signal, between, rfl, rfl, fun y hy => Bool.not_eq_true _ ▸ hnone y hy⟩
    rw [h _ after ht] at hwaiting
    cases hwaiting

omit [LinearOrder τ] [Add τ] [Zero τ] in
theorem notLost_of_take (h : ∀ i < t.length, t[i]? = some .clear → waiting (t.take i) = false) :
    NotLost t := by
  rw [notLost_iff]
  intro before after ht
  have hbefore := h before.length (by simp [ht]) (by simp [ht])
  rwa [ht, List.take_left] at hbefore

theorem run_snoc : run s (t ++ [a]) = (run s t).bind (fun s => step s a) := by
  rw [run, List.foldlM_append]
  simp [run]

theorem inv_of_run {interval now : τ} {h0 : 0 < interval} (h : run (start interval now h0) t = some s)
    (hlost : NotLost t) : Inv t s := by
  rw [notLost_iff] at hlost
  induction t using List.reverseRecOn generalizing s with
  | nil =>
    obtain rfl := Option.some.inj h
    exact ⟨fun hwaiting => absurd hwaiting Bool.false_ne_true, trivial⟩
  | append_singleton t a ih =>
    rw [run_snoc, Option.bind_eq_some_iff] at h
    obtain ⟨s₁, hs₁, hstep⟩ := h
    have hinv := ih hs₁ (fun before after ht => hlost before (after ++ [a]) (by simp [ht]))
    apply hinv.step _ hstep
    intro hclear
    obtain rfl : a = .clear := by
      cases a <;> first | rfl | cases hclear
    exact hlost t [] rfl

theorem run_before {before after : List (Action τ)} (h : run s (before ++ after) = some s') :
    ∃ s₁, run s before = some s₁ ∧ run s₁ after = some s' := by
  rw [run, List.foldlM_append] at h
  exact Option.bind_eq_some_iff.mp h

theorem run_cons {after : List (Action τ)} (h : run s (a :: after) = some s') :
    ∃ s₁, step s a = some s₁ ∧ run s₁ after = some s' := by
  rw [run, List.foldlM_cons] at h
  exact Option.bind_eq_some_iff.mp h

omit [LinearOrder τ] [Add τ] [Zero τ] in
theorem NotLost.before {before after : List (Action τ)} (h : NotLost (before ++ after)) :
    NotLost before := by
  intro first between last ht
  exact h first between (last ++ after) (by simp [ht])

theorem tracks_end (hend : a.isEnd = true) (htracks : Tracks t s.point) (h : step s a = some s') :
    InCall t Saved ∨ InCall t (fun before _ => waiting before = false) := by
  unfold step at h
  split at h
  case h_5 hpoint =>
    rw [hpoint] at htracks
    exact .inr htracks
  case h_10 hpoint | h_12 hpoint =>
    rw [hpoint] at htracks
    exact .inl htracks
  case h_13 => cases h
  all_goals cases hend

theorem served_of_notLost {interval now : τ} {h0 : 0 < interval}
    (h : run (start interval now h0) t = some s) (hlost : NotLost t) : Served t := by
  intro before between k during last after ht hbetween hduring hend
  rw [ht] at h hlost
  obtain ⟨s₁, hs₁, hrest⟩ := run_before h
  obtain ⟨s₂, hlast, -⟩ := run_cons hrest
  have hinv := inv_of_run hs₁ hlost.before
  obtain ⟨before', k', own, hsame, hown, hsaved⟩ | ⟨before', k', own, hsame, hown, hnone⟩ :=
    tracks_end hend hinv.tracks hlast
  · obtain ⟨-, rfl⟩ := last_unique hsame rfl rfl hduring hown
    obtain ⟨x, hx, hsave⟩ := hsaved
    exact ⟨x, List.mem_append_right _ hx, hsave⟩
  · obtain ⟨rfl, -⟩ := last_unique hsame rfl rfl hduring hown
    by_contra hnot
    push Not at hnot
    have hwaiting : waiting (before ++ .signal :: between) = true :=
      unanswered_iff.mpr ⟨before, .signal, between, rfl, rfl,
        fun x hx => Bool.not_eq_true _ ▸ hnot x (List.mem_append_left _ hx)⟩
    exact absurd (hnone.symm.trans hwaiting) (by decide)

omit [LinearOrder τ] [Add τ] [Zero τ] in
theorem undisturbed_of_notLost (h : NotLost t) : Undisturbed t := by
  intro before during after ht hduring hsignal
  obtain ⟨first, rest, rfl⟩ := List.append_of_mem hsignal
  obtain ⟨x, hx, hsave⟩ := h (before ++ .startSave :: first) rest after (by simp [ht])
  exact absurd ((hduring x (by simp [hx])).symm.trans hsave) (by decide)

omit [LinearOrder τ] [Add τ] [Zero τ] in
theorem exists_last_save (h : ∃ a ∈ t, a.isSave = true) :
    ∃ before after, t = before ++ .startSave :: after ∧ ∀ a ∈ after, a.isSave = false := by
  induction t using List.reverseRecOn with
  | nil => simp at h
  | append_singleton t a ih =>
    by_cases ha : a.isSave = true
    · obtain rfl : a = .startSave := by
        cases a <;> first | rfl | cases ha
      exact ⟨t, [], rfl, by simp⟩
    · obtain ⟨x, hx, hsave⟩ := h
      obtain ⟨before, after, rfl, hafter⟩ := ih (by
        obtain hx | hx := List.mem_append.mp hx
        · exact ⟨x, hx, hsave⟩
        · exact absurd (List.mem_singleton.mp hx ▸ hsave) ha)
      refine ⟨before, after ++ [a], by simp, ?_⟩
      rw [List.forall_mem_append]
      exact ⟨hafter, by simpa using ha⟩

omit [LinearOrder τ] [Add τ] [Zero τ] in
theorem waiting_of_undisturbed (hquiet : Undisturbed (t ++ [.clear]))
    (hsave : ∃ a ∈ t, a.isSave = true) :
    waiting t = false := by
  by_contra hwaiting
  rw [Bool.not_eq_false] at hwaiting
  obtain ⟨first, rest, rfl, hrest⟩ := exists_signal_of_waiting hwaiting
  obtain ⟨y, hy, hsave⟩ := hsave
  have hfirst : ∃ a ∈ first, a.isSave = true := by
    rw [List.mem_append, List.mem_cons] at hy
    obtain hy | rfl | hy := hy
    · exact ⟨y, hy, hsave⟩
    · cases hsave
    · exact absurd ((hrest y hy).symm.trans hsave) (by decide)
  obtain ⟨before, after, rfl, hafter⟩ := exists_last_save hfirst
  refine hquiet before (after ++ .signal :: rest) [] (by simp) ?_ (by simp)
  rw [List.forall_mem_append, List.forall_mem_cons]
  exact ⟨hafter, rfl, hrest⟩

theorem point_of_clear (h : step s .clear = some s') : s.point = .saved := by
  cases hpoint : s.point <;> simp [step, hpoint] at h ⊢

theorem notLost_of_undisturbed {interval now : τ} {h0 : 0 < interval}
    (h : run (start interval now h0) t = some s) (hquiet : Undisturbed t) : NotLost t := by
  induction t using List.reverseRecOn generalizing s with
  | nil =>
    intro before between after ht
    simp at ht
  | append_singleton t a ih =>
    rw [run_snoc, Option.bind_eq_some_iff] at h
    obtain ⟨s₁, hs₁, hstep⟩ := h
    have hlost : NotLost t := ih hs₁ (fun before during after ht =>
      hquiet before during (after ++ [a]) (by simp [ht]))
    rw [notLost_iff] at hlost ⊢
    intro before after ht
    cases after using List.reverseRecOn with
    | nil =>
      obtain ⟨rfl, hlast⟩ := List.append_inj' ht rfl
      obtain rfl := List.singleton_inj.mp hlast
      have htracks := (inv_of_run hs₁ (notLost_iff.mpr hlost)).tracks
      rw [point_of_clear hstep] at htracks
      obtain ⟨first, k, own, rfl, -, x, hx, hsave⟩ := htracks
      exact waiting_of_undisturbed hquiet ⟨x, by simp [hx], hsave⟩
    | append_singleton after b =>
      rw [← List.cons_append, ← List.append_assoc] at ht
      obtain ⟨rfl, -⟩ := List.append_inj' ht rfl
      exact hlost before after rfl

end Runs

/-- The requests are served exactly if no signal comes while a save is running or
before the flag is cleared after it. -/
theorem signals_served_iff {τ : Type} [LinearOrder τ] [Add τ] [Zero τ] (interval now : τ)
    (s₀ s : CheckpointLifecycle τ) (t : List (Action τ)) (h₀ : init interval now = .ok s₀)
    (h : run s₀ t = some s) : Served t ∧ NotLost t ↔ Undisturbed t := by
  unfold init at h₀
  split at h₀ <;> cases h₀
  constructor
  · intro hserved
    exact undisturbed_of_notLost hserved.2
  · intro hquiet
    have hlost := notLost_of_undisturbed h hquiet
    exact ⟨served_of_notLost h hlost, hlost⟩

/-- A save without a request, with what happens while it is running. -/
def periodicSave (during : List (Action Int)) : List (Action Int) :=
  [.call 1, .readClock 400, .testRequested, .goOn, .chooseReason, .startSave] ++ during ++
    [.saveReturns, .clear, .schedule 400]

def signalBetween : List (Action Int) :=
  periodicSave [] ++ [.signal, .call 2, .readClock 401, .testRequested, .chooseReason, .startSave,
    .saveReturns, .clear, .schedule 402]

/-- A signal that comes while the first call saves is forgotten. -/
def signalDuringSave : List (Action Int) :=
  periodicSave [.signal] ++ [.call 2, .readClock 401, .testRequested, .returnFalse]

theorem signals_served_sample : Served signalBetween ∧ NotLost signalBetween := by
  have hrun : ∃ s, run (start 300 0 (by decide)) signalBetween = some s := ⟨_, rfl⟩
  obtain ⟨s, hs⟩ := hrun
  refine (signals_served_iff 300 0 _ s signalBetween rfl hs).mpr ?_
  exact undisturbed_of_notLost (notLost_of_take (by decide))

theorem signal_lost : (run (start 300 0 (by decide)) signalDuringSave).isSome = true ∧
    ¬ Served signalDuringSave ∧ ¬ NotLost signalDuringSave := by
  refine ⟨rfl, ?_, ?_⟩
  · intro h
    have hsave := h ((periodicSave []).take 6) [.saveReturns, .clear, .schedule 400] 2
      [.readClock 401, .testRequested] .returnFalse [] rfl (by decide) (by decide) rfl
    exact absurd hsave (by decide)
  · intro h
    have hsave := h ((periodicSave []).take 6) [.saveReturns] (signalDuringSave.drop 9) rfl
    exact absurd hsave (by decide)

end HeteroCluster.CheckpointSignals
