import HeteroCluster.RecoveryQuiet

namespace HeteroCluster.RecoveryEvacuationKeeps

open GoStrings RecoveryIncident AffectedJobs CallProgram OperatorCalls RecoveryIsolation
open RecoveryEvacuation HardwareInventory RecoveryVerifier RecoveryReconcile RecoveryEvidence
open RecoverySteps RecoveryQuiet

structure At (stored : Option RecoveryState) (log : OperatorLog) (s : RecoveryState) : Prop where
  current : storedAfter stored log = some s
  wellFormed : WellFormed s

def jobless : Call → Prop
  | .signalJob _ _ _ | .requeueJob _ _ => False
  | _ => True

abbrev Keeps {α : Type} (cfg : Config) (stored : Option RecoveryState) (p : Operator α)
    (log : OperatorLog) (post : α → OperatorLog → Prop) : Prop :=
  Ensures (allowed stored) (Good cfg stored) p log post

variable {cfg : Config} {stored : Option RecoveryState} {log log' : OperatorLog}
variable {s s' : RecoveryState}

theorem jobless_of_quiet {c : Call} (h : quiet c) : jobless c := by
  cases c <;> first | exact trivial | exact h.elim

theorem At.quiet (h : At stored log s) (hg : Grows quiet log log') : At stored log' s :=
  ⟨(storedAfter_quiet hg).trans h.current, h.wellFormed⟩

theorem At.now (h : At stored log s) (now : Time) : At stored (log ++ [⟨.now, now⟩]) s :=
  h.quiet (Grows.snoc log _ trivial)

theorem keeps_of_quietly {α : Type} {p : Operator α} {post : α → OperatorLog → Prop}
    (h : Quietly stored p log post) :
    Keeps cfg stored p log (fun a log' => post a log' ∧ Grows quiet log log') :=
  h.grows quiet_good

theorem ReadRaw.grows {kind : Call → Prop} {rawStatus : ConditionStatus}
    (h : ReadRaw log rawStatus) (hg : Grows kind log log') : ReadRaw log' rawStatus := by
  obtain ⟨t, rfl, -⟩ := hg
  exact h.append t

theorem saveState_keeps (hs : Save cfg log (storedAfter stored log) s')
    (hw : ∀ s, storedAfter stored log = some s → WellFormed s) :
    Keeps cfg stored (saveState s') log
      (fun r log' => ∀ object, r = .ok object → At stored log' s' ∧ Grows jobless log log') := by
  apply Ensures.perform (fun _ _ => hs)
  intro r _
  split
  · rintro object ⟨⟩
    refine ⟨⟨?_, hs.wellFormed hw⟩, Grows.snoc log _ trivial⟩
    rw [storedAfter_append]
    rfl
  · simp
  · simp

theorem saveStep_keeps (h : At stored log s) (hs : Step cfg log s s') :
    Keeps cfg stored (saveState s') log
      (fun r log' => ∀ object, r = .ok object → At stored log' s' ∧ Grows jobless log log') := by
  apply saveState_keeps (by rw [h.current]; exact .step hs)
  intro t ht
  rw [h.current, Option.some.injEq] at ht
  exact ht ▸ h.wellFormed

theorem setPhase_keeps {p : Phase} (node : Node) (state : RecoveryState) (h : At stored log s)
    (hs : ∀ now, Step cfg (log ++ [⟨.now, now⟩]) s
      { state with phase := p, phaseStartedAt := newTime now }) :
    Keeps cfg stored (setPhase node state p) log (fun _ _ => True) := by
  apply Ensures.perform (fun _ _ => trivial)
  intro now _
  apply (saveStep_keeps (h.now now) (hs now)).bind
  intro r log' _
  split
  · trivial
  · apply (keeps_of_quietly (ensureIsolation_spec _ _)).bind
    intro r _ _
    split <;> trivial

theorem moveTo_keeps {p : Phase} (node : Node) (state : RecoveryState) (h : At stored log s)
    (hs : ∀ now, Step cfg (log ++ [⟨.now, now⟩]) s
      { state with phase := p, phaseStartedAt := newTime now }) :
    Keeps cfg stored (moveTo node state p) log (fun _ _ => True) := by
  apply (setPhase_keeps node state h hs).bind
  intro r _ _
  split <;> trivial

theorem enterManualRepair_keeps (node : Node) (reason : String) (h : At stored log s)
    (hp : s.phase.rebootOrLater) :
    Keeps cfg stored (enterManualRepair node s reason) log (fun _ _ => True) := by
  refine (setPhase_keeps node { s with
      terminalReason := reason, manualRequest := get node.annotations recoveryRequestKey }
    h fun now => .manualRepair _ _ _ hp).bind fun r _ _ => ?_
  split <;> trivial

section Evacuation

variable {state : RecoveryState} {snapshots : Snapshots} {before rest : List RecoveryJob}
variable {job : RecoveryJob}

theorem saveJob_keeps {job' : RecoveryJob} (h : At stored log (withJobs state before job rest))
    (hj : JobStep log (withJobs state before job rest) job job') :
    Keeps cfg stored (saveState (withJobs state before job' rest)) log
      (fun r log' => ∀ object, r = .ok object →
        At stored log' (withJobs state before job' rest) ∧ Grows jobless log log') :=
  saveStep_keeps h (.job (s := withJobs state before job rest) rfl hj)

/-- What holds of the loops over the jobs: the recorded list is the part done
so far and the rest, and no action was taken yet on the rest. -/
structure JobLoop (stored : Option RecoveryState) (log : OperatorLog) (state : RecoveryState)
    (snapshots : Snapshots) (act : JobAction) (before rest : List RecoveryJob) : Prop where
  recorded : At stored log { state with jobs := before ++ rest }
  observed : Observed log state snapshots
  fresh : ∀ e ∈ log, ∀ j ∈ rest, act.target e.1 ≠ some j.ident

def Exact (act : JobAction) : Prop := ∀ {c}, jobless c → act.target c = none

theorem signalAction_exact : Exact signalAction := by
  intro c h
  cases c <;> first | rfl | exact h.elim

theorem requeueAction_exact : Exact requeueAction := by
  intro c h
  cases c <;> first | rfl | exact h.elim

theorem JobLoop.next {act : JobAction} {job' : RecoveryJob} (hx : Exact act)
    (h : JobLoop stored log state snapshots act before (job :: rest))
    (hr : At stored log' (withJobs state before job' rest))
    (hg : Grows (fun c => jobless c ∨ act.target c = some job.ident) log log') :
    JobLoop stored log' state snapshots act (before ++ [job']) rest := by
  have hnd := h.recorded.wellFormed.jobsNodup
  refine ⟨by simpa [withJobs] using hr, h.observed.mono hg.subset rfl, ?_⟩
  obtain ⟨t, rfl, ht⟩ := hg
  intro e he j hj
  obtain he | he := List.mem_append.mp he
  · exact h.fresh e he j (List.mem_cons_of_mem _ hj)
  · obtain hs | hs := ht e he
    · simp [hx hs]
    · intro hc
      have hid : job.ident = j.ident := Option.some.inj (hs.symm.trans hc)
      simp only [List.map_append, List.map_cons, List.nodup_append, List.nodup_cons] at hnd
      exact hnd.2.1.1 (hid ▸ List.mem_map_of_mem hj)

theorem JobLoop.skip {act : JobAction}
    (h : JobLoop stored log state snapshots act before (job :: rest)) :
    JobLoop stored log state snapshots act (before ++ [job]) rest :=
  ⟨by simpa using h.recorded, h.observed, fun e he j hj => h.fresh e he j (List.mem_cons_of_mem _ hj)⟩

theorem JobLoop.evacuate_step {act : JobAction}
    (h : JobLoop stored log state snapshots act before (job :: rest))
    (hp : state.phase = .draining ∨ state.phase = .checkpointing)
    (he : jobEvacuated job state (snapshotOf snapshots job.cluster).jobs = true) :
    JobStep log (withJobs state before job rest) job { job with evacuated := true } :=
  .evacuated snapshots hp (h.observed.mono (List.Subset.refl _) rfl) he

theorem actOnJob_keeps {act : JobAction} {action : Operator (Except ApiError Unit)}
    {sent : RecoveryJob} (h : JobLoop stored log state snapshots act before (job :: rest))
    (haction : Keeps cfg stored action log (fun r log' => r = .ok () →
      storedAfter stored log' = storedAfter stored log ∧
        JobStep log' (withJobs state before job rest) job sent ∧
        Grows (fun c => jobless c ∨ act.target c = some job.ident) log log')) :
    Keeps cfg stored (actOnJob action sent state before rest) log (fun r log' =>
      ∀ marked, r = .ok marked → At stored log' (withJobs state before marked rest) ∧
        Grows (fun c => jobless c ∨ act.target c = some job.ident) log log') := by
  apply haction.bind
  intro r log' hr
  split
  · simp
  · obtain ⟨hstored, hstep, hg⟩ := hr rfl
    have hat : At stored log' (withJobs state before job rest) :=
      ⟨hstored.trans h.recorded.current, h.recorded.wellFormed⟩
    apply (saveJob_keeps hat hstep).bind
    intro r log'' hr
    split
    · simp
    · rintro marked ⟨⟩
      obtain ⟨hs, hg'⟩ := hr _ rfl
      exact ⟨hs, hg.trans (hg'.imp fun _ => .inl)⟩

theorem JobLoop.first {act : JobAction}
    (h : JobLoop stored log state snapshots act before (job :: rest))
    (hj : act.marked job = false) :
    FirstCall (storedAfter stored log) log act (job.cluster, job.id) :=
  ⟨fun e he => h.fresh e he job (by simp), _, job, h.recorded.current, by simp, rfl, hj⟩

theorem signalJob_keeps (h : JobLoop stored log state snapshots signalAction before (job :: rest))
    (hp : state.phase = .draining) (hj : job.signalSent = false) :
    Keeps cfg stored (signalJob state before job rest) log (fun r log' => ∀ sent, r = .ok sent →
      At stored log' (withJobs state before sent rest) ∧
      Grows (fun c => jobless c ∨ signalAction.target c = some job.ident) log log') := by
  apply actOnJob_keeps h
  refine fun r _ => ⟨⟨rfl, h.first hj⟩, ?_⟩
  rintro rfl
  exact ⟨by rw [storedAfter_append]; rfl, .signalSent hp (by simp), Grows.snoc log _ (.inr rfl)⟩

theorem JobLoop.update {act : JobAction} {job' : RecoveryJob} (hx : Exact act)
    (h : JobLoop stored log state snapshots act before (job :: rest))
    (hr : At stored log' (withJobs state before job' rest))
    (hg : Grows jobless log log') (hid : job'.ident = job.ident) :
    JobLoop stored log' state snapshots act before (job' :: rest) := by
  refine ⟨hr, h.observed.mono hg.subset rfl, ?_⟩
  obtain ⟨t, rfl, ht⟩ := hg
  intro e he j hj
  obtain he | he := List.mem_append.mp he
  · obtain rfl | hj := List.mem_cons.mp hj
    · exact hid ▸ h.fresh e he job (by simp)
    · exact h.fresh e he j (by simp [hj])
  · simp [hx (ht e he)]

theorem signalJobs_keeps (h : JobLoop stored log state snapshots signalAction before rest)
    (hp : state.phase = .draining) :
    Keeps cfg stored (signalJobs state snapshots before rest) log (fun r log' =>
      ∀ s', r = .ok s' → At stored log' s' ∧ s'.phase = .draining) := by
  induction rest generalizing before log with
  | nil =>
    rintro s' ⟨⟩
    exact ⟨by simpa using h.recorded, hp⟩
  | cons job rest ih =>
    unfold signalJobs
    split
    · rename_i he
      apply (saveJob_keeps h.recorded (h.evacuate_step (.inl hp) he)).bind
      intro r log' hr
      split
      · simp
      · obtain ⟨ha, hg⟩ := hr _ rfl
        exact ih (h.next signalAction_exact ha (hg.imp fun _ => .inl))
    · split
      · exact ih h.skip
      · rename_i hs
        have hs : job.signalSent = false := by simpa using hs
        split
        · apply (signalJob_keeps h hp hs).bind
          intro r log' hr
          split
          · simp
          · obtain ⟨ha, hg⟩ := hr _ rfl
            exact ih (h.next signalAction_exact ha hg)
        · apply Ensures.perform (fun _ _ => trivial)
          intro now _
          have hnow : Grows quiet log (log ++ [⟨.now, now⟩]) := Grows.snoc log _ trivial
          refine (saveJob_keeps (h.recorded.quiet hnow) (.signalRequested _ hp)).bind
            fun r log' hr => ?_
          split
          · simp
          · obtain ⟨ha, hg⟩ := hr _ rfl
            have hg := (hnow.imp fun _ => jobless_of_quiet).trans hg
            have hl := h.update signalAction_exact ha hg rfl
            apply (signalJob_keeps hl hp hs).bind
            intro r log'' hr
            split
            · simp
            · obtain ⟨ha, hg⟩ := hr _ rfl
              exact ih (hl.next signalAction_exact ha hg)

theorem observeCheckpoint_keeps (snapshot : Snapshot) (since : Time)
    (h : At stored log (withJobs state before job rest)) (hp : state.phase = .checkpointing) :
    Keeps cfg stored (observeCheckpoint state snapshot before job rest since) log
      (fun r log' => ∀ job', r = .ok job' → At stored log' (withJobs state before job' rest) ∧
        Grows jobless log log' ∧ job'.ident = job.ident ∧
        job'.requeueSent = job.requeueSent) := by
  unfold observeCheckpoint
  split
  · apply Ensures.perform (fun _ _ => trivial)
    intro r _
    have hq : Grows quiet log (log ++ [⟨.checkpointCommittedSince job.cluster job.id since, r⟩]) :=
      Grows.snoc log _ trivial
    have hj := hq.imp fun _ => jobless_of_quiet
    split
    · apply (saveJob_keeps (h.quiet hq) (.checkpointSeen hp)).bind
      intro r log' hr
      split
      · simp
      · rintro job' ⟨⟩
        obtain ⟨ha, hg⟩ := hr _ rfl
        exact ⟨ha, hj.trans hg, rfl, rfl⟩
    · rintro job' ⟨⟩
      exact ⟨h.quiet hq, hj, rfl, rfl⟩
    · rintro job' ⟨⟩
      exact ⟨h.quiet hq, hj, rfl, rfl⟩
  · rintro job' ⟨⟩
    exact ⟨h, Grows.refl log, rfl, rfl⟩

theorem requeueJob_keeps (h : JobLoop stored log state snapshots requeueAction before (job :: rest))
    (hp : state.phase = .checkpointing) (hj : job.requeueSent = false) :
    Keeps cfg stored (requeueJob state before job rest) log (fun r log' => ∀ sent, r = .ok sent →
      At stored log' (withJobs state before sent rest) ∧
      Grows (fun c => jobless c ∨ requeueAction.target c = some job.ident) log log') := by
  apply actOnJob_keeps h
  refine fun r _ => ⟨h.first hj, ?_⟩
  rintro rfl
  exact ⟨by rw [storedAfter_append]; rfl, .requeueSent hp (by simp), Grows.snoc log _ (.inr rfl)⟩

theorem requestRequeue_keeps
    (h : JobLoop stored log state snapshots requeueAction before (job :: rest))
    (hp : state.phase = .checkpointing) (hj : job.requeueSent = false) :
    Keeps cfg stored (requestRequeue state before job rest) log (fun r log' =>
      ∀ sent, r = .ok sent → At stored log' (withJobs state before sent rest) ∧
        Grows (fun c => jobless c ∨ requeueAction.target c = some job.ident) log log') := by
  unfold requestRequeue
  split
  · exact requeueJob_keeps h hp hj
  · apply Ensures.perform (fun _ _ => trivial)
    intro now _
    have hnow : Grows quiet log (log ++ [⟨.now, now⟩]) := Grows.snoc log _ trivial
    apply (saveJob_keeps (h.recorded.quiet hnow) (.requeueRequested _ hp)).bind
    intro r log' hr
    split
    · simp
    · obtain ⟨ha, hg⟩ := hr _ rfl
      have hg := (hnow.imp fun _ => jobless_of_quiet).trans hg
      refine (requeueJob_keeps (h.update requeueAction_exact ha hg rfl) hp hj).mono
        fun r log'' hr sent he => ?_
      exact ⟨(hr sent he).1, (hg.imp fun _ => .inl).trans (hr sent he).2⟩

theorem checkpointAndRequeue_keeps (allEvacuated : Bool)
    (h : JobLoop stored log state snapshots requeueAction before rest)
    (hp : state.phase = .checkpointing) :
    Keeps cfg stored (checkpointAndRequeue state snapshots allEvacuated before rest) log
      (fun r log' => ∀ s', r = .ok (true, s') → At stored log' s' ∧ s'.phase = .checkpointing) := by
  induction rest generalizing before log allEvacuated with
  | nil =>
    rintro s' ⟨⟩
    exact ⟨by simpa using h.recorded, hp⟩
  | cons job rest ih =>
    unfold checkpointAndRequeue
    split
    · rename_i he
      split
      · exact ih _ h.skip
      · apply (saveJob_keeps h.recorded (h.evacuate_step (.inr hp) he)).bind
        intro r log' hr
        split
        · simp
        · obtain ⟨ha, hg⟩ := hr _ rfl
          exact ih _ (h.next requeueAction_exact ha (hg.imp fun _ => .inl))
    · split
      · simp
      · split
        · simp
        · apply (observeCheckpoint_keeps _ _ h.recorded hp).bind
          intro r log' hr
          split
          · simp
          · rename_i job'
            obtain ⟨ha, hg, hcall, hsent⟩ := hr _ rfl
            have hl := h.update requeueAction_exact ha hg hcall
            apply (keeps_of_quietly (graceOver_spec _ _)).bind
            intro elapsed log'' hq
            have hl := hl.update requeueAction_exact (ha.quiet hq.2)
              (hq.2.imp fun _ => jobless_of_quiet) rfl
            split
            · exact ih _ hl.skip
            · rename_i helapsed
              have hj : job'.requeueSent = false := by
                simp only [Bool.or_eq_true, not_or, Bool.not_eq_true] at helapsed
                exact helapsed.2
              apply (requestRequeue_keeps hl hp hj).bind
              intro r log3 hr
              split
              · simp
              · obtain ⟨ha, hg⟩ := hr _ rfl
                exact ih _ (hl.next requeueAction_exact ha hg)

/-- What the evacuation of one reconcile has gathered before it acts. -/
structure Gathered (stored : Option RecoveryState) (log : OperatorLog) (s : RecoveryState)
    (snapshots : Snapshots) : Prop where
  recorded : At stored log s
  observed : Observed log s snapshots
  complete : ∀ p ∈ snapshots, ∀ job ∈ p.2.jobs, Affects (workerNames s p.1) job →
    (p.1, job.rootID) ∈ s.jobs.map RecoveryJob.ident
  silent : ∀ e ∈ log, jobless e.1

theorem Gathered.loop {act : JobAction} (h : Gathered stored log s snapshots)
    (hx : Exact act) : JobLoop stored log s snapshots act [] s.jobs :=
  ⟨h.recorded, h.observed, fun e he _ _ => by simp [hx (h.silent e he)]⟩

theorem Gathered.barrier (h : Gathered stored log s snapshots) (hl : log ⊆ log')
    (he : ∀ j ∈ s.jobs, jobEvacuated j s (snapshotOf snapshots j.cluster).jobs = true)
    (hg : ∀ w ∈ s.workers, Gone log' w) : Barrier log' s snapshots :=
  ⟨h.observed.mono hl rfl, h.complete, he, hg⟩

theorem evacuate_keeps (node : Node) (h : Gathered stored log s snapshots) :
    Keeps cfg stored (evacuate node s snapshots) log (fun _ _ => True) := by
  unfold evacuate
  split
  · rename_i hp
    exact moveTo_keeps node s h.recorded fun now => .move _ (.isolated hp)
  · rename_i hp
    apply (signalJobs_keeps (h.loop signalAction_exact) hp).bind
    intro r log' hr
    split
    · trivial
    · rename_i s'
      obtain ⟨ha, hp'⟩ := hr s' rfl
      split
      · rename_i hj
        exact moveTo_keeps node s' ha fun now => .move _ (.idle hp' (List.isEmpty_iff.mp hj))
      · exact moveTo_keeps node s' ha fun now => .move _ (.signalled hp')
  · rename_i hp
    apply (checkpointAndRequeue_keeps true (h.loop requeueAction_exact) hp).bind
    intro r log' hr
    split
    · trivial
    · rename_i s'
      obtain ⟨ha, hp'⟩ := hr s' rfl
      exact moveTo_keeps node s' ha fun now => .move _ (.requeued hp')
    · trivial
  · rename_i hp
    apply (keeps_of_quietly (cleanupEvacuatedWorkers_spec _ _)).bind
    intro r log' hr
    split
    · trivial
    · obtain ⟨he, hgone⟩ := hr.1 rfl
      apply Ensures.perform (fun _ _ => trivial)
      intro now _
      apply moveTo_keeps node _ ((h.recorded.quiet hr.2).now now)
      intro t
      refine .requestReboot snapshots _ _ hp (h.barrier ?_ he fun w hw => (hgone w hw).mono (by simp))
      exact List.Subset.trans hr.2.subset (by simp)
    · trivial
  · trivial

theorem saveChanged_keeps {changed : Bool} (h : At stored log s) (hs : Step cfg log s s')
    (hu : changed = false → s' = s) :
    Keeps cfg stored (saveChanged changed s') log
      (fun r log' => r = .ok () → At stored log' s' ∧ Grows jobless log log') := by
  unfold saveChanged
  split
  · apply (saveStep_keeps h hs).bind
    intro r log' hr
    split
    · simp
    · exact fun _ => hr _ rfl
  · rename_i hc
    intro _
    rw [hu (by simpa using hc)]
    exact ⟨h, Grows.refl log⟩

theorem addAffectedJobs_unchanged (hw : WellFormed s) (ho : Observed log s snapshots)
    (hc : (addAffectedJobs s snapshots).2 = false) : (addAffectedJobs s snapshots).1 = s := by
  obtain ⟨new, he, hn, -⟩ := addAffectedJobs_spec s snapshots fun p hp => (ho.answered p hp).key
  have hnew : new = [] := by simpa [hn] using hc
  rw [he, hnew, List.append_nil, List.mergeSort_of_pairwise hw.jobsSorted]

theorem addAffectedJobs_complete (ho : Observed log s snapshots) :
    ∀ p ∈ snapshots, ∀ job ∈ p.2.jobs,
      Affects (workerNames (addAffectedJobs s snapshots).1 p.1) job →
      (p.1, job.rootID) ∈ (addAffectedJobs s snapshots).1.jobs.map RecoveryJob.ident := by
  obtain ⟨new, he, -, -, hall, -⟩ := addAffectedJobs_spec s snapshots
    fun p hp => (ho.answered p hp).key
  rw [he]
  intro p hp job hj ha
  exact ((List.mergeSort_perm _ _).map _).symm.subset (hall p hp job hj ha)

theorem Grows.silent (hl : ∀ e ∈ log, jobless e.1) (hg : Grows jobless log log') :
    ∀ e ∈ log', jobless e.1 := by
  obtain ⟨t, rfl, ht⟩ := hg
  intro e he
  obtain he | he := List.mem_append.mp he
  · exact hl e he
  · exact ht e he

theorem reconcileEvacuation_keeps (node : Node) (h : At stored log s) (hp : s.phase.evacuating)
    (hl : ∀ e ∈ log, jobless e.1) :
    Keeps cfg stored (reconcileEvacuation node s) log (fun _ _ => True) := by
  apply (keeps_of_quietly (discoverWorkers_spec node s)).bind
  intro r log1 hr
  split
  · trivial
  rename_i found changed
  obtain ⟨hd, hu⟩ := hr.1 found changed rfl
  have hpf : found.phase.evacuating := by
    rw [hd.same]
    exact hp
  refine (saveChanged_keeps (h.quiet hr.2) (.discover hp hd) (hu h.wellFormed)).bind
    fun r log2 hf => ?_
  split
  · trivial
  obtain ⟨hfound, hg2⟩ := hf rfl
  apply (keeps_of_quietly (slurmSnapshots_observed found)).bind
  intro r log3 hs
  split
  · trivial
  rename_i snapshots
  have ho := hs.1 snapshots rfl
  have hfound := hfound.quiet hs.2
  refine (saveChanged_keeps hfound (.addJobs snapshots hpf ho)
    (addAffectedJobs_unchanged hfound.wellFormed ho)).bind fun r log4 ha => ?_
  split
  · trivial
  obtain ⟨hadded, hg4⟩ := ha rfl
  apply (keeps_of_quietly (drainRecoveryWorkers_spec _ _ _)).bind
  intro r log5 hdr
  split
  · trivial
  have hg5 := hg4.trans (hdr.2.imp fun _ => jobless_of_quiet)
  have hg3 := (hg2.trans (hs.2.imp fun _ => jobless_of_quiet)).trans hg5
  split
  · rename_i hmove
    refine moveTo_keeps node _ (hadded.quiet hdr.2) fun now => .move _ (.again ?_)
    have hpa : (addAffectedJobs found snapshots).1.phase.evacuating := hpf
    cases hph : (addAffectedJobs found snapshots).1.phase <;> simp_all [Phase.evacuating]
  · refine evacuate_keeps node ⟨hadded.quiet hdr.2, ho.mono hg5.subset rfl,
      addAffectedJobs_complete ho, ?_⟩
    exact Grows.silent hl ((hr.2.imp fun _ => jobless_of_quiet).trans hg3)

end Evacuation

end HeteroCluster.RecoveryEvacuationKeeps
