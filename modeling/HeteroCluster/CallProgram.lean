import Mathlib.Data.List.Basic

namespace HeteroCluster.CallProgram

variable {ι : Type} {ρ : ι → Type} {α β γ : Type}

/-- A program that acts on the world only by calls. The reply of a call is
chosen by whoever executes the program. -/
inductive Program (ρ : ι → Type) (α : Type) : Type where
  | done (a : α)
  | call (i : ι) (next : ρ i → Program ρ α)

abbrev Event (ρ : ι → Type) := Sigma ρ
abbrev Log (ρ : ι → Type) := List (Event ρ)

namespace Program

def bind : Program ρ α → (α → Program ρ β) → Program ρ β
  | .done a, f => f a
  | .call i next, f => .call i (fun r => (next r).bind f)

instance : Monad (Program ρ) where
  pure := .done
  bind := bind

def perform (i : ι) : Program ρ (ρ i) := .call i .done

@[simp] theorem pure_eq (a : α) : (pure a : Program ρ α) = .done a := rfl

@[simp] theorem done_bind (a : α) (f : α → Program ρ β) : (Program.done a >>= f) = f a := rfl

@[simp] theorem call_bind (i : ι) (next : ρ i → Program ρ α) (f : α → Program ρ β) :
    (Program.call i next >>= f) = .call i (fun r => next r >>= f) := rfl

@[simp] theorem perform_bind (i : ι) (f : ρ i → Program ρ β) :
    (perform i >>= f) = .call i f := rfl

theorem bind_pure_fst (p : Program ρ α) (b : β) :
    ((p >>= fun a => (.done (a, b) : Program ρ (α × β))) >>= fun r => .done r.1) = p := by
  induction p with
  | done a => rfl
  | call i next ih =>
    rw [call_bind, call_bind]
    exact congrArg (Program.call i) (funext ih)

theorem bind_eq_done {p : Program ρ α} {f : α → Program ρ β} {b : β} (h : (p >>= f) = .done b) :
    ∃ a, p = .done a ∧ f a = .done b := by
  cases p with
  | done a => exact ⟨a, rfl, h⟩
  | call i next => cases h

end Program

/-- Executions with their logs. An execution may stop before any call, which
is how a crash looks from outside. -/
inductive Executes (allowed : Log ρ → Event ρ → Prop) :
    Program ρ α → Log ρ → Log ρ → Option α → Prop
  | stop (p : Program ρ α) (log : Log ρ) : Executes allowed p log log none
  | done (a : α) (log : Log ρ) : Executes allowed (.done a) log log (some a)
  | call {i : ι} {next : ρ i → Program ρ α} {log log' : Log ρ} {o : Option α} (r : ρ i)
      (hr : allowed log ⟨i, r⟩) (hn : Executes allowed (next r) (log ++ [⟨i, r⟩]) log' o) :
      Executes allowed (.call i next) log log' o

theorem Executes.append {allowed : Log ρ → Event ρ → Prop} {p : Program ρ α} {log log' : Log ρ}
    {o : Option α} (h : Executes allowed p log log' o) : ∃ t, log' = log ++ t := by
  induction h with
  | stop | done => exact ⟨[], by simp⟩
  | call r _ _ ih =>
    obtain ⟨t, rfl⟩ := ih
    exact ⟨⟨_, r⟩ :: t, by simp⟩

theorem Executes.cut {allowed : Log ρ → Event ρ → Prop} {p : Program ρ α} {log log' a b : Log ρ}
    {o : Option α} (h : Executes allowed p log log' o) (he : log' = log ++ (a ++ b)) :
    Executes allowed p log (log ++ a) none := by
  induction h generalizing a with
  | stop p log | done x log =>
    have ha : a = [] := (List.append_eq_nil_iff.mp (List.self_eq_append_right.mp he)).1
    simpa [ha] using Executes.stop _ log
  | @call i next log log' o r hr hn ih =>
    cases a with
    | nil => simpa using Executes.stop _ log
    | cons e a =>
      obtain ⟨t, rfl⟩ := hn.append
      obtain ⟨rfl, -⟩ : ⟨i, r⟩ = e ∧ t = a ++ b := by simpa using he
      simpa using Executes.call r hr (ih (a := a) (by simpa using he))

theorem Executes.first {allowed : Log ρ → Event ρ → Prop} {i : ι} {next : ρ i → Program ρ α}
    {log log' t : Log ρ} {o : Option α} {r : ρ i} (h : Executes allowed (.call i next) log log' o)
    (hl : log' = log ++ ⟨i, r⟩ :: t) : Executes allowed (next r) (log ++ [⟨i, r⟩]) log' o := by
  cases h with
  | stop => simp at hl
  | call r' hr hn =>
    obtain ⟨u, hu⟩ := hn.append
    have he : (⟨i, r'⟩ : Event ρ) = ⟨i, r⟩ ∧ u = t := by simpa using hu.symm.trans hl
    obtain rfl : r' = r := by simpa using he.1
    exact hn

theorem Executes.of_bind {allowed : Log ρ → Event ρ → Prop} {p : Program ρ α}
    {f : α → Program ρ β} {log log' : Log ρ} {b : β}
    (h : Executes allowed (p >>= f) log log' (some b)) :
    ∃ a mid, Executes allowed p log mid (some a) ∧ Executes allowed (f a) mid log' (some b) := by
  induction p generalizing log with
  | done a => exact ⟨a, log, .done a log, h⟩
  | call i next ih =>
    cases h with
    | call r hr hn =>
      obtain ⟨a, mid, hp, hf⟩ := ih r hn
      exact ⟨a, mid, .call r hr hp, hf⟩

/-- A program that goes on may also stop where its first part ends. -/
theorem Executes.bind_stop {allowed : Log ρ → Event ρ → Prop} {p : Program ρ α} {log log' : Log ρ}
    {o : Option α} (h : Executes allowed p log log' o) (f : α → Program ρ β) :
    Executes allowed (p >>= f) log log' none := by
  induction h with
  | stop p log => exact .stop _ log
  | done a log => exact .stop _ log
  | call r hr _ ih => exact .call r hr ih

theorem Executes.of_perform {allowed : Log ρ → Event ρ → Prop} {i : ι} {f : ρ i → Program ρ β}
    {log log' : Log ρ} {b : β}
    (h : Executes allowed (Program.perform i >>= f) log log' (some b)) :
    ∃ r, Executes allowed (f r) (log ++ [⟨i, r⟩]) log' (some b) := by
  cases h with
  | call r _ hn => exact ⟨r, hn⟩

theorem Executes.restrict {allowed : Log ρ → Event ρ → Prop} {p : Program ρ α} {log log' : Log ρ}
    {o : Option α} {P : Event ρ → Prop} (h : Executes allowed p log log' o)
    (hP : ∀ e ∈ log', P e) : Executes (fun l e => allowed l e ∧ P e) p log log' o := by
  induction h with
  | stop p log => exact .stop p log
  | done a log => exact .done a log
  | call r hr hn ih =>
    obtain ⟨t, rfl⟩ := hn.append
    exact .call r ⟨hr, hP _ (by simp)⟩ (ih hP)

/-- The execution that a given way of answering leads to, stopped after a
number of calls. -/
def follow (answer : Log ρ → (i : ι) → ρ i) : Nat → Program ρ α → Log ρ → Log ρ × Option α
  | _, .done a, log => (log, some a)
  | 0, .call _ _, log => (log, none)
  | n + 1, .call i next, log =>
    follow answer n (next (answer log i)) (log ++ [⟨i, answer log i⟩])

theorem follow_executes {allowed : Log ρ → Event ρ → Prop} {answer : Log ρ → (i : ι) → ρ i}
    (ha : ∀ log i, allowed log ⟨i, answer log i⟩) (n : Nat) (p : Program ρ α) (log : Log ρ) :
    Executes allowed p log (follow answer n p log).1 (follow answer n p log).2 := by
  induction n generalizing p log with
  | zero =>
    cases p with
    | done a => exact .done a log
    | call i next => exact .stop _ log
  | succ n ih =>
    cases p with
    | done a => exact .done a log
    | call i next => exact .call _ (ha log i) (ih _ _)

section Serve

variable {σ : Type} (reply : σ → (i : ι) → ρ i) (after : σ → ι → σ)

/-- The run of a program against surroundings with a state of their own. -/
def serve : Program ρ α → σ → α × σ
  | .done a, w => (a, w)
  | .call i next, w => serve (next (reply w i)) (after w i)

theorem serve_bind (p : Program ρ α) (f : α → Program ρ β) (w : σ) :
    serve reply after (p >>= f) w =
      serve reply after (f (serve reply after p w).1) (serve reply after p w).2 := by
  induction p generalizing w with
  | done a => rfl
  | call i next ih => exact ih (reply w i) (after w i)

end Serve

theorem serve_executes {allowed : Log ρ → Event ρ → Prop} {answer : Log ρ → (i : ι) → ρ i}
    (ha : ∀ log i, allowed log ⟨i, answer log i⟩) (p : Program ρ α) (log : Log ρ) :
    Executes allowed p log (serve answer (fun l i => l ++ [⟨i, answer l i⟩]) p log).2
      (some (serve answer (fun l i => l ++ [⟨i, answer l i⟩]) p log).1) := by
  induction p generalizing log with
  | done a => exact .done a log
  | call i next ih => exact .call (answer log i) (ha log i) (ih _ _)

/-- Every call the program makes is good for the log it is made after, and
the postcondition holds of the log at the end. -/
def Ensures (allowed good : Log ρ → Event ρ → Prop) :
    Program ρ α → Log ρ → (α → Log ρ → Prop) → Prop
  | .done a, log, post => post a log
  | .call i next, log, post => ∀ r, allowed log ⟨i, r⟩ →
      good log ⟨i, r⟩ ∧ Ensures allowed good (next r) (log ++ [⟨i, r⟩]) post

variable {allowed good : Log ρ → Event ρ → Prop}

@[simp] theorem ensures_done (a : α) (log : Log ρ) (post : α → Log ρ → Prop) :
    Ensures allowed good (.done a) log post ↔ post a log := Iff.rfl

theorem ensures_trivial (p : Program ρ α) (log : Log ρ) :
    Ensures allowed (fun _ _ => True) p log (fun _ _ => True) := by
  induction p generalizing log with
  | done a => trivial
  | call i next ih => exact fun r _ => ⟨trivial, ih r _⟩

theorem Ensures.mono {p : Program ρ α} {log : Log ρ} {post post' : α → Log ρ → Prop}
    (h : Ensures allowed good p log post) (hp : ∀ a log', post a log' → post' a log') :
    Ensures allowed good p log post' := by
  induction p generalizing log with
  | done a => exact hp a log h
  | call i next ih => exact fun r hr => ⟨(h r hr).1, ih r (h r hr).2⟩

theorem Ensures.imp {good' : Log ρ → Event ρ → Prop} {p : Program ρ α} {log : Log ρ}
    {post : α → Log ρ → Prop} (h : Ensures allowed good p log post)
    (hg : ∀ l e, good l e → good' l e) : Ensures allowed good' p log post := by
  induction p generalizing log with
  | done a => exact h
  | call i next ih =>
    intro r hr
    exact ⟨hg log ⟨i, r⟩ (h r hr).1, ih r (h r hr).2⟩

theorem Ensures.and {good' : Log ρ → Event ρ → Prop} {p : Program ρ α} {log : Log ρ}
    {post post' : α → Log ρ → Prop} (h : Ensures allowed good p log post)
    (h' : Ensures allowed good' p log post') :
    Ensures allowed (fun l e => good l e ∧ good' l e) p log
      (fun a log' => post a log' ∧ post' a log') := by
  induction p generalizing log with
  | done a => exact ⟨h, h'⟩
  | call i next ih =>
    intro r hr
    exact ⟨⟨(h r hr).1, (h' r hr).1⟩, ih r (h r hr).2 (h' r hr).2⟩

theorem Ensures.bind {p : Program ρ α} {f : α → Program ρ β} {log : Log ρ}
    {mid : α → Log ρ → Prop} {post : β → Log ρ → Prop}
    (h : Ensures allowed good p log mid)
    (hf : ∀ a log', mid a log' → Ensures allowed good (f a) log' post) :
    Ensures allowed good (p >>= f) log post := by
  induction p generalizing log with
  | done a => exact hf a log h
  | call i next ih => exact fun r hr => ⟨(h r hr).1, ih r (h r hr).2⟩

theorem Ensures.perform {i : ι} {f : ρ i → Program ρ β} {log : Log ρ} {post : β → Log ρ → Prop}
    (hg : ∀ r, allowed log ⟨i, r⟩ → good log ⟨i, r⟩)
    (hf : ∀ r, allowed log ⟨i, r⟩ → Ensures allowed good (f r) (log ++ [⟨i, r⟩]) post) :
    Ensures allowed good (Program.perform i >>= f) log post :=
  fun r hr => ⟨hg r hr, hf r hr⟩

theorem Ensures.subset {p : Program ρ α} {log : Log ρ} {post : α → Log ρ → Prop}
    (h : Ensures allowed good p log post) :
    Ensures allowed good p log (fun a log' => post a log' ∧ log ⊆ log') := by
  induction p generalizing log with
  | done a => exact ⟨h, List.Subset.refl log⟩
  | call i next ih =>
    refine fun r hr => ⟨(h r hr).1, (ih r (h r hr).2).mono fun a log' hp => ⟨hp.1, ?_⟩⟩
    exact List.Subset.trans (List.subset_append_left log _) hp.2

/-- What a program ensures holds of each of its executions, also of those that
stopped halfway: the calls made so far were good. -/
theorem Ensures.executes {p : Program ρ α} {log log' : Log ρ} {o : Option α}
    {post : α → Log ρ → Prop} (h : Ensures allowed good p log post)
    (he : Executes allowed p log log' o) :
    ∃ t, log' = log ++ t ∧ (∀ s e u, t = s ++ e :: u → good (log ++ s) e) ∧
      ∀ a, o = some a → post a log' := by
  induction he with
  | stop p log => exact ⟨[], by simp, by simp, by simp⟩
  | done a log =>
    refine ⟨[], by simp, by simp, ?_⟩
    rintro b ⟨⟩
    exact h
  | @call i next log log' o r hr _ ih =>
    obtain ⟨hg, hn⟩ := h r hr
    obtain ⟨t, ht, hgood, hpost⟩ := ih hn
    refine ⟨⟨i, r⟩ :: t, by simp [ht], ?_, hpost⟩
    intro s e u hs
    cases s with
    | nil =>
      obtain ⟨rfl, -⟩ := List.cons.inj hs
      simpa using hg
    | cons f s =>
      obtain ⟨rfl, ht'⟩ := List.cons.inj hs
      simpa using hgood s e u ht'

theorem Ensures.result {p : Program ρ α} {log log' : Log ρ} {a : α} {post : α → Log ρ → Prop}
    (h : Ensures allowed good p log post) (he : Executes allowed p log log' (some a)) :
    post a log' := by
  obtain ⟨-, -, -, hpost⟩ := h.executes he
  exact hpost a rfl

/-- What a program ensures holds of its run against surroundings that answer
as they may. -/
theorem Ensures.serve {p : Program ρ α} {log : Log ρ} {post : α → Log ρ → Prop}
    {answer : Log ρ → (i : ι) → ρ i} (h : Ensures allowed good p log post)
    (ha : ∀ l i, allowed l ⟨i, answer l i⟩) :
    post (serve answer (fun l i => l ++ [⟨i, answer l i⟩]) p log).1
      (serve answer (fun l i => l ++ [⟨i, answer l i⟩]) p log).2 := by
  induction p generalizing log with
  | done a => exact h
  | call i next ih => exact ih (answer log i) (h (answer log i) (ha log i)).2

/-- The induction every run argument uses: a property of logs that each good
call keeps is kept by an execution. -/
theorem Ensures.invariant {p : Program ρ α} {log log' : Log ρ} {o : Option α}
    {post : α → Log ρ → Prop} (h : Ensures allowed good p log post)
    (he : Executes allowed p log log' o) (I : Log ρ → Prop)
    (hstep : ∀ l e, I l → allowed l e → good l e → I (l ++ [e])) (h0 : I log) : I log' := by
  induction he with
  | stop | done => exact h0
  | call r hr _ ih =>
    obtain ⟨hg, hn⟩ := h r hr
    exact ih hn (hstep _ _ h0 hr hg)

variable {kind : ι → Prop}

/-- All calls of the program are of the given kind, whatever the replies. -/
def Program.Calls (kind : ι → Prop) : Program ρ α → Prop
  | .done _ => True
  | .call i next => kind i ∧ ∀ r, (next r).Calls kind

theorem Program.Calls.bind {p : Program ρ α} {f : α → Program ρ β} (h : p.Calls kind)
    (hf : ∀ a, (f a).Calls kind) : (p >>= f).Calls kind := by
  induction p with
  | done a => exact hf a
  | call i next ih => exact ⟨h.1, fun r => ih r (h.2 r)⟩

theorem Program.Calls.perform {i : ι} {f : ρ i → Program ρ β} (hi : kind i)
    (hf : ∀ r, (f r).Calls kind) : (Program.perform i >>= f).Calls kind :=
  ⟨hi, hf⟩

theorem Program.Calls.imp {kind' : ι → Prop} {p : Program ρ α} (h : p.Calls kind)
    (hk : ∀ i, kind i → kind' i) : p.Calls kind' := by
  induction p with
  | done a => trivial
  | call i next ih => exact ⟨hk i h.1, fun r => ih r (h.2 r)⟩

theorem Program.Calls.ensures {p : Program ρ α} (h : p.Calls kind) (log : Log ρ) :
    Ensures allowed (fun _ e => kind e.1) p log (fun _ _ => True) := by
  induction p generalizing log with
  | done a => trivial
  | call i next ih => exact fun r _ => ⟨h.1, ih r (h.2 r) _⟩

def Grows (kind : ι → Prop) (log log' : Log ρ) : Prop :=
  ∃ t, log' = log ++ t ∧ ∀ e ∈ t, kind e.1

theorem Grows.refl (log : Log ρ) : Grows kind log log := ⟨[], by simp, by simp⟩

theorem Grows.trans {a b c : Log ρ} (h : Grows kind a b) (h' : Grows kind b c) :
    Grows kind a c := by
  obtain ⟨t, rfl, ht⟩ := h
  obtain ⟨u, rfl, hu⟩ := h'
  refine ⟨t ++ u, by simp, ?_⟩
  intro e he
  obtain he | he := List.mem_append.mp he
  · exact ht e he
  · exact hu e he

theorem Grows.snoc (log : Log ρ) (e : Event ρ) (h : kind e.1) : Grows kind log (log ++ [e]) :=
  ⟨[e], rfl, by simpa using h⟩

theorem Grows.imp {kind' : ι → Prop} {log log' : Log ρ} (h : Grows kind log log')
    (hk : ∀ i, kind i → kind' i) : Grows kind' log log' := by
  obtain ⟨t, rfl, ht⟩ := h
  exact ⟨t, rfl, fun e he => hk e.1 (ht e he)⟩

theorem Grows.subset {log log' : Log ρ} (h : Grows kind log log') : log ⊆ log' := by
  obtain ⟨t, rfl, -⟩ := h
  exact List.subset_append_left log t

/-- A program whose calls are all of one kind makes good calls only, if calls of
that kind are good after others of it. -/
theorem Ensures.within {p : Program ρ α} {log : Log ρ} {post : α → Log ρ → Prop}
    (h : Ensures allowed (fun _ e => kind e.1) p log post)
    (hk : ∀ l e, Grows kind log l → kind e.1 → good l e) :
    Ensures allowed good p log (fun a log' => post a log' ∧ Grows kind log log') := by
  induction p generalizing log with
  | done a => exact ⟨h, Grows.refl log⟩
  | call i next ih =>
    refine fun r hr => ⟨hk log ⟨i, r⟩ (Grows.refl log) (h r hr).1, ?_⟩
    have hsnoc : Grows kind log (log ++ [⟨i, r⟩]) := Grows.snoc log ⟨i, r⟩ (h r hr).1
    have hn := ih r (h r hr).2 (fun l e hl => hk l e (hsnoc.trans hl))
    exact hn.mono fun a log' hp => ⟨hp.1, hsnoc.trans hp.2⟩

/-- A program whose calls are all of a harmless kind makes good calls only,
and the log grows by calls of that kind. -/
theorem Ensures.grows {p : Program ρ α} {log : Log ρ} {post : α → Log ρ → Prop}
    (h : Ensures allowed (fun _ e => kind e.1) p log post) (hk : ∀ l e, kind e.1 → good l e) :
    Ensures allowed good p log (fun a log' => post a log' ∧ Grows kind log log') :=
  h.within (fun l e _ => hk l e)

end HeteroCluster.CallProgram
