import HeteroCluster.CallProgram

namespace HeteroCluster.ProgramEmbedding

open CallProgram

variable {ι κ : Type} {ρ : ι → Type} {ρ' : κ → Type} {α : Type}

/-- The calls of one service among those of a larger one. -/
structure Embedding (ρ : ι → Type) (ρ' : κ → Type) where
  call : ι → κ
  reply : ∀ i, ρ' (call i) → ρ i
  back : Event ρ' → Option (Event ρ)
  back_call : ∀ i r, back ⟨call i, r⟩ = some ⟨i, reply i r⟩

variable (E : Embedding ρ ρ')

namespace Embedding

def program : Program ρ α → Program ρ' α
  | .done a => .done a
  | .call i next => .call (E.call i) (fun r => program (next (E.reply i r)))

/-- What a log of the larger service shows of the smaller one. -/
def log (l : Log ρ') : Log ρ := l.filterMap E.back

theorem log_append (l l' : Log ρ') : E.log (l ++ l') = E.log l ++ E.log l' :=
  List.filterMap_append

theorem log_snoc {e : Event ρ'} {e₀ : Event ρ} (l : Log ρ') (h : E.back e = some e₀) :
    E.log (l ++ [e]) = E.log l ++ [e₀] := by
  rw [log_append, log, log, List.filterMap_cons_some h, List.filterMap_nil]

theorem mem_log {l : Log ρ'} {e : Event ρ} : e ∈ E.log l ↔ ∃ e' ∈ l, E.back e' = some e :=
  List.mem_filterMap

theorem log_subset {l l' : Log ρ'} (h : l ⊆ l') : E.log l ⊆ E.log l' :=
  List.filterMap_subset E.back h

/-- What a program ensures, it ensures on the larger service: its calls are good
there if they are good for what the log shows of the smaller one. -/
theorem ensures_program {allowed good : Log ρ → Event ρ → Prop}
    {allowed' good' : Log ρ' → Event ρ' → Prop} {p : Program ρ α} {l : Log ρ'}
    {post : α → Log ρ → Prop} (h : Ensures allowed good p (E.log l) post)
    (ha : ∀ l' e e₀, E.back e = some e₀ → allowed' l' e → allowed (E.log l') e₀)
    (hg : ∀ l' e e₀, l ⊆ l' → E.back e = some e₀ → good (E.log l') e₀ → good' l' e) :
    Ensures allowed' good' (E.program p) l (fun a l' => l ⊆ l' ∧ post a (E.log l')) := by
  induction p generalizing l with
  | done a => exact ⟨List.Subset.refl l, h⟩
  | call i next ih =>
    intro r hr
    have hback := E.back_call i r
    have hsub : l ⊆ l ++ [⟨E.call i, r⟩] := List.subset_append_left _ _
    obtain ⟨hgood, hn⟩ := h (E.reply i r) (ha _ _ _ hback hr)
    rw [← E.log_snoc l hback] at hn
    refine ⟨hg l _ _ (List.Subset.refl l) hback hgood, ?_⟩
    apply (ih (E.reply i r) hn fun l' e e₀ hl => hg l' e e₀ (List.Subset.trans hsub hl)).mono
    rintro a l' ⟨hl, hpost⟩
    exact ⟨List.Subset.trans hsub hl, hpost⟩

end Embedding

end HeteroCluster.ProgramEmbedding
