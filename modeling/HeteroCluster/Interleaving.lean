import HeteroCluster.CallProgram
import Mathlib.Logic.Function.Basic

namespace HeteroCluster.Interleaving

open CallProgram

variable {ι κ σ α : Type} {ρ : ι → Type} [DecidableEq κ]

/-- A thread is what is left of its program, with the calls it has made. -/
structure Thread (ρ : ι → Type) (α : Type) where
  rest : Program ρ α
  log : Log ρ

/-- The interleavings of threads that call a shared service. Others may change
the service between any two calls, and a thread may never be served again. -/
inductive Reach (serves : σ → Event ρ → σ → Prop) (interferes : σ → σ → Prop) (s₀ : σ)
    (p : κ → Program ρ α) : σ → (κ → Thread ρ α) → Prop
  | start : Reach serves interferes s₀ p s₀ (fun k => ⟨p k, []⟩)
  | interfere {s s' : σ} {t : κ → Thread ρ α} (h : Reach serves interferes s₀ p s t)
      (hi : interferes s s') : Reach serves interferes s₀ p s' t
  | call {s s' : σ} {t : κ → Thread ρ α} {k : κ} {i : ι} {next : ρ i → Program ρ α} {log : Log ρ}
      (r : ρ i) (h : Reach serves interferes s₀ p s t) (hk : t k = ⟨.call i next, log⟩)
      (hs : serves s ⟨i, r⟩ s') :
      Reach serves interferes s₀ p s' (Function.update t k ⟨next r, log ++ [⟨i, r⟩]⟩)

variable {serves : σ → Event ρ → σ → Prop} {interferes interferes' : σ → σ → Prop} {s₀ s : σ}
variable {p : κ → Program ρ α} {t : κ → Thread ρ α}

theorem Reach.imp (h : Reach serves interferes s₀ p s t)
    (hi : ∀ s s', interferes s s' → interferes' s s') : Reach serves interferes' s₀ p s t := by
  induction h with
  | start => exact .start
  | interfere _ hs ih => exact .interfere ih (hi _ _ hs)
  | call r _ hk hs ih => exact .call r ih hk hs

/-- What holds of each program by itself still holds of what is left of it. -/
theorem Reach.ensures {good : κ → Log ρ → Event ρ → Prop} {post : κ → α → Log ρ → Prop}
    (hp : ∀ k, Ensures (fun _ _ => True) (good k) (p k) [] (post k))
    (h : Reach serves interferes s₀ p s t) (k : κ) :
    Ensures (fun _ _ => True) (good k) (t k).rest (t k).log (post k) := by
  induction h with
  | start => exact hp k
  | interfere _ _ ih => exact ih
  | @call s s' t j i next log r h hk hs ih =>
    by_cases hj : k = j
    · subst k
      rw [hk] at ih
      rw [Function.update_self]
      exact (ih r trivial).2
    · rw [Function.update_of_ne hj]
      exact ih

/-- The rule for invariants: a property of the service and the logs that holds
at the start, survives interference, and is kept by every good call. -/
theorem Reach.invariant {good : κ → Log ρ → Event ρ → Prop} {post : κ → α → Log ρ → Prop}
    (hp : ∀ k, Ensures (fun _ _ => True) (good k) (p k) [] (post k))
    (I : σ → (κ → Log ρ) → Prop) (h0 : I s₀ (fun _ => []))
    (hi : ∀ s s' logs, I s logs → interferes s s' → I s' logs)
    (hc : ∀ s s' logs k e, I s logs → good k (logs k) e → serves s e s' →
      I s' (Function.update logs k (logs k ++ [e])))
    (h : Reach serves interferes s₀ p s t) : I s (fun k => (t k).log) := by
  induction h with
  | start => exact h0
  | interfere _ hs ih => exact hi _ _ _ ih hs
  | @call s s' t j i next log r h hk hs ih =>
    have hj := h.ensures hp j
    rw [hk] at hj
    have hl : (t j).log = log := by rw [hk]
    have hstep := hc s s' _ j ⟨i, r⟩ ih (by rw [hl]; exact (hj r trivial).1) hs
    have he : (fun k => (Function.update t j ⟨next r, log ++ [⟨i, r⟩]⟩ k).log) =
        Function.update (fun k => (t k).log) j ((t j).log ++ [⟨i, r⟩]) := by
      funext k
      by_cases hk' : k = j
      · subst k
        simp [hl]
      · simp [hk']
    rw [he]
    exact hstep

theorem mem_update_snoc {logs : κ → Log ρ} {k j : κ} {e x : Event ρ} :
    x ∈ Function.update logs k (logs k ++ [e]) j ↔ x ∈ logs j ∨ j = k ∧ x = e := by
  by_cases hj : j = k
  · subst j
    simp
  · simp [hj]

theorem Reach.good {good : κ → Log ρ → Event ρ → Prop} {post : κ → α → Log ρ → Prop}
    (hp : ∀ k, Ensures (fun _ _ => True) (good k) (p k) [] (post k))
    (h : Reach serves interferes s₀ p s t) (k : κ) {before after : Log ρ} {e : Event ρ}
    (he : (t k).log = before ++ e :: after) : good k before e := by
  have hall : ∀ k before e after, (t k).log = before ++ e :: after → good k before e := by
    apply h.invariant hp (fun _ logs => ∀ k before e after, logs k = before ++ e :: after →
      good k before e)
    · intro k before e after hl
      simp at hl
    · intro s s' logs hI _
      exact hI
    · intro s s' logs j f hI hg _ k before e after hl
      by_cases hk : k = j
      · subst k
        rw [Function.update_self] at hl
        obtain rfl | ⟨after', last, rfl⟩ := List.eq_nil_or_concat after
        · obtain ⟨rfl, hf⟩ := List.append_inj' hl rfl
          obtain rfl : f = e := by simpa using hf
          exact hg
        · rw [List.concat_eq_append, ← List.cons_append, ← List.append_assoc] at hl
          exact hI j before e after' (List.append_inj' hl rfl).1
      · rw [Function.update_of_ne hk] at hl
        exact hI k before e after hl
  exact hall k before e after he

/-- One move of a schedule: a thread is served, or someone else acts. -/
def move (answer : σ → (i : ι) → ρ i × σ) (x : σ × (κ → Thread ρ α)) :
    κ ⊕ (σ → σ) → σ × (κ → Thread ρ α)
  | .inl k => match x.2 k with
    | ⟨.done _, _⟩ => x
    | ⟨.call i next, log⟩ => ((answer x.1 i).2,
        Function.update x.2 k ⟨next (answer x.1 i).1, log ++ [⟨i, (answer x.1 i).1⟩]⟩)
  | .inr f => (f x.1, x.2)

def play (answer : σ → (i : ι) → ρ i × σ) (s₀ : σ) (p : κ → Program ρ α)
    (moves : List (κ ⊕ (σ → σ))) : σ × (κ → Thread ρ α) :=
  moves.foldl (move answer) (s₀, fun k => ⟨p k, []⟩)

theorem move_reach {answer : σ → (i : ι) → ρ i × σ}
    (ha : ∀ s i, serves s ⟨i, (answer s i).1⟩ (answer s i).2)
    (h : Reach serves interferes s₀ p s t) (k : κ) :
    Reach serves interferes s₀ p (move answer (s, t) (.inl k)).1 (move answer (s, t) (.inl k)).2 := by
  cases hk : t k with
  | mk rest log =>
    cases rest with
    | done a =>
      have hm : move answer (s, t) (.inl k) = (s, t) := by simp only [move, hk]
      rw [hm]
      exact h
    | call i next =>
      have hm : move answer (s, t) (.inl k) = ((answer s i).2,
          Function.update t k ⟨next (answer s i).1, log ++ [⟨i, (answer s i).1⟩]⟩) := by
        simp only [move, hk]
      rw [hm]
      exact .call _ h hk (ha s i)

theorem play_reach {answer : σ → (i : ι) → ρ i × σ}
    (ha : ∀ s i, serves s ⟨i, (answer s i).1⟩ (answer s i).2) (moves : List (κ ⊕ (σ → σ)))
    (hf : ∀ f, .inr f ∈ moves → ∀ s, interferes s (f s)) :
    Reach serves interferes s₀ p (play answer s₀ p moves).1 (play answer s₀ p moves).2 := by
  have hfold : ∀ (moves : List (κ ⊕ (σ → σ))) (x : σ × (κ → Thread ρ α)),
      (∀ f, .inr f ∈ moves → ∀ s, interferes s (f s)) → Reach serves interferes s₀ p x.1 x.2 →
      Reach serves interferes s₀ p (moves.foldl (move answer) x).1
        (moves.foldl (move answer) x).2 := by
    intro moves
    induction moves with
    | nil => exact fun x _ hx => hx
    | cons m moves ih =>
      intro x hf hx
      apply ih
      · intro f hm
        exact hf f (List.mem_cons_of_mem _ hm)
      · cases m with
        | inr f => exact .interfere hx (hf f (by simp) x.1)
        | inl k => exact move_reach ha hx k
  exact hfold moves _ hf .start

end HeteroCluster.Interleaving
