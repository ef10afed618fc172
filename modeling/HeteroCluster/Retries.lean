import HeteroCluster.CallProgram

namespace HeteroCluster.Retries

open CallProgram

/-- A backoff allows at least one attempt. With none, nothing would be tried and
nothing reported. -/
structure Backoff where
  steps : Nat
  steps_pos : 0 < steps

variable {ι ε : Type} {ρ : ι → Type} {retriable : ε → Bool} {fn : Program ρ (Option ε)}

/-- The last error is the result once the steps are used up. -/
def attempts (retriable : ε → Bool) (fn : Program ρ (Option ε)) :
    Nat → Option ε → Program ρ (Option ε)
  | 0, last => return last
  | steps + 1, _ => do
    match ← fn with
    | none => return none
    | some e => if retriable e then attempts retriable fn steps (some e) else return some e

def onError (backoff : Backoff) (retriable : ε → Bool) (fn : Program ρ (Option ε)) :
    Program ρ (Option ε) :=
  attempts retriable fn backoff.steps none

variable {allowed good : Log ρ → Event ρ → Prop} {log log' : Log ρ} {I Q : Log ρ → Prop}

/-- An attempt starts where the invariant holds and leaves it after an error.
Then a success is the success of one attempt. -/
theorem attempts_ensures
    (hfn : ∀ log, I log → Ensures allowed good fn log
      (fun r log' => (r = none → Q log') ∧ (r ≠ none → I log')))
    (steps : Nat) {last : Option ε} (hlast : 0 < steps ∨ last ≠ none) (h : I log) :
    Ensures allowed good (attempts retriable fn steps last) log
      (fun r log' => r = none → Q log') := by
  induction steps generalizing log last with
  | zero =>
    intro hnone
    exact absurd hnone (hlast.resolve_left (Nat.lt_irrefl 0))
  | succ steps ih =>
    apply (hfn log h).bind
    rintro r log' ⟨hdone, hfail⟩
    cases r with
    | none => exact hdone
    | some e =>
      dsimp only
      split
      · exact ih (Or.inr (by simp)) (hfail (by simp))
      · simp

theorem onError_ensures (backoff : Backoff)
    (hfn : ∀ log, I log → Ensures allowed good fn log
      (fun r log' => (r = none → Q log') ∧ (r ≠ none → I log'))) (h : I log) :
    Ensures allowed good (onError backoff retriable fn) log (fun r log' => r = none → Q log') :=
  attempts_ensures hfn backoff.steps (Or.inl backoff.steps_pos) h

theorem onError_calls (backoff : Backoff)
    (hfn : ∀ log, Ensures allowed good fn log (fun _ _ => True)) :
    Ensures allowed good (onError backoff retriable fn) log (fun _ _ => True) := by
  have hall : ∀ log, True → Ensures allowed good fn log
      (fun r _ => (r = none → True) ∧ (r ≠ none → True)) := by
    intro log _
    apply (hfn log).mono
    simp
  apply (onError_ensures (Q := fun _ => True) backoff hall trivial).mono
  simp

/-- What the first attempt calls, the whole calls. -/
theorem executes_onError {o : Option (Option ε)} (backoff : Backoff)
    (h : Executes allowed fn log log' o) :
    Executes allowed (onError backoff retriable fn) log log' none := by
  obtain ⟨steps, hsteps⟩ := Nat.exists_eq_succ_of_ne_zero (Nat.pos_iff_ne_zero.mp backoff.steps_pos)
  rw [onError, hsteps]
  exact h.bind_stop _

end HeteroCluster.Retries
