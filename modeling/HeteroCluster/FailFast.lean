import Mathlib.Data.List.Basic

namespace HeteroCluster.FailFast

variable {ε α β γ : Type}

def refuse (bad : Prop) [Decidable bad] (e : ε) : Except ε Unit :=
  if bad then .error e else .ok ()

@[simp] theorem refuse_eq_ok {bad : Prop} [Decidable bad] {e : ε} {u : Unit} :
    refuse bad e = .ok u ↔ ¬ bad := by
  unfold refuse
  split <;> simp_all

@[simp] theorem bind_eq_ok {x : Except ε α} {f : α → Except ε β} {b : β} :
    (x >>= f) = .ok b ↔ ∃ a, x = .ok a ∧ f a = .ok b := by
  cases x with
  | error e => simp [bind, Except.bind]
  | ok a => simp [bind, Except.bind]

theorem bind_eq_error {x : Except ε α} {f : α → Except ε β} {e : ε} :
    (x >>= f) = .error e ↔ x = .error e ∨ ∃ a, x = .ok a ∧ f a = .error e := by
  cases x with
  | error e => simp [bind, Except.bind]
  | ok a => simp [bind, Except.bind]

theorem ok_bind (a : α) (f : α → Except ε β) : (Except.ok a >>= f) = f a := rfl

@[simp] theorem exists_unit {p : Unit → Prop} : (∃ u, p u) ↔ p () := by
  constructor
  · rintro ⟨⟨⟩, h⟩
    exact h
  · intro h
    exact ⟨(), h⟩

@[simp] theorem mapError_eq_ok {x : Except ε α} {f : ε → γ} {a : α} :
    x.mapError f = .ok a ↔ x = .ok a := by
  cases x <;> simp [Except.mapError]

@[simp] theorem pure_eq_ok {a b : α} : (pure a : Except ε α) = .ok b ↔ a = b := by
  simp [pure, Except.pure]

@[simp] theorem throw_ne_ok {e : ε} {a : α} : (throw e : Except ε α) ≠ .ok a := by
  simp [throw, throwThe, MonadExceptOf.throw]

def okWith (x : Except ε α) (p : α → Bool) : Bool :=
  match x with
  | .error _ => false
  | .ok a => p a

theorem okWith_iff {x : Except ε α} {p : α → Bool} :
    okWith x p = true ↔ ∃ a, x = .ok a ∧ p a = true := by
  cases x <;> simp [okWith]

/-- What a step of an accepted loop keeps holds after the loop. The invariant
speaks of the part of the list that is done. -/
theorem foldlM_invariant {f : β → α → Except ε β} (I : List α → β → Prop) {l : List α} {b b' : β}
    (h : l.foldlM f b = .ok b') (h0 : I [] b)
    (hstep : ∀ done a s s', a ∈ l → I done s → f s a = .ok s' → I (done ++ [a]) s') : I l b' := by
  have hrun : ∀ (rest done : List α) (s : β), (∀ a ∈ rest, a ∈ l) → I done s →
      rest.foldlM f s = .ok b' → I (done ++ rest) b' := by
    intro rest
    induction rest with
    | nil =>
      intro done s _ hI hs
      rw [List.foldlM_nil, pure_eq_ok] at hs
      rw [List.append_nil, ← hs]
      exact hI
    | cons a rest ih =>
      intro done s hmem hI hs
      rw [List.foldlM_cons, bind_eq_ok] at hs
      obtain ⟨s', hf, hs⟩ := hs
      have hnext := hstep done a s s' (hmem a (by simp)) hI hf
      have hrest := ih (done ++ [a]) s' (fun x hx => hmem x (List.mem_cons_of_mem a hx)) hnext hs
      rwa [List.append_assoc, List.singleton_append] at hrest
  have hall := hrun l [] b (fun _ ha => ha) h0 h
  rwa [List.nil_append] at hall

/-- A loop is accepted if each of its steps is, from every state the invariant
allows. -/
theorem foldlM_succeeds {f : β → α → Except ε β} (I : List α → β → Prop) {l : List α} {b : β}
    (h0 : I [] b) (hstep : ∀ done a s, a ∈ l → I done s → ∃ s', f s a = .ok s' ∧ I (done ++ [a]) s') :
    ∃ b', l.foldlM f b = .ok b' ∧ I l b' := by
  have hrun : ∀ (rest done : List α) (s : β), (∀ a ∈ rest, a ∈ l) → I done s →
      ∃ b', rest.foldlM f s = .ok b' ∧ I (done ++ rest) b' := by
    intro rest
    induction rest with
    | nil =>
      intro done s _ hI
      exact ⟨s, rfl, by rwa [List.append_nil]⟩
    | cons a rest ih =>
      intro done s hmem hI
      obtain ⟨s', hf, hnext⟩ := hstep done a s (hmem a (by simp)) hI
      obtain ⟨b', hb, hI'⟩ := ih (done ++ [a]) s'
        (fun x hx => hmem x (List.mem_cons_of_mem a hx)) hnext
      rw [List.append_assoc, List.singleton_append] at hI'
      exact ⟨b', by rw [List.foldlM_cons, bind_eq_ok]; exact ⟨s', hf, hb⟩, hI'⟩
  have hall := hrun l [] b (fun _ ha => ha) h0
  rwa [List.nil_append] at hall

theorem foldlM_eq_ok_iff {f : β → α → Except ε β} {good : α → Prop} {g : β → α → β}
    (h : ∀ b a b', f b a = .ok b' ↔ good a ∧ g b a = b') (l : List α) (b b' : β) :
    l.foldlM f b = .ok b' ↔ (∀ a ∈ l, good a) ∧ l.foldl g b = b' := by
  induction l generalizing b with
  | nil => simp
  | cons a l ih =>
    rw [List.foldlM_cons, bind_eq_ok, List.foldl_cons, List.forall_mem_cons]
    constructor
    · rintro ⟨c, hc, hrest⟩
      obtain ⟨hgood, rfl⟩ := (h b a c).mp hc
      obtain ⟨hall, hfold⟩ := (ih _).mp hrest
      exact ⟨⟨hgood, hall⟩, hfold⟩
    · rintro ⟨⟨hgood, hall⟩, hfold⟩
      exact ⟨g b a, (h b a _).mpr ⟨hgood, rfl⟩, (ih _).mpr ⟨hall, hfold⟩⟩

theorem foldlM_map {f : β → α → Except ε β} {g : β → β}
    (hstep : ∀ s a, f (g s) a = (f s a).map g) (l : List α) (b : β) :
    l.foldlM f (g b) = (l.foldlM f b).map g := by
  induction l generalizing b with
  | nil => rfl
  | cons a l ih =>
    rw [List.foldlM_cons, List.foldlM_cons, hstep]
    cases f b a with
    | error e => rfl
    | ok s => exact ih s

theorem forM_eq_ok {f : α → Except ε Unit} {l : List α} :
    l.forM f = .ok () ↔ ∀ a ∈ l, f a = .ok () := by
  induction l with
  | nil => simp [pure, Except.pure]
  | cons a l ih =>
    rw [List.forM_eq_forM] at ih
    rw [List.forM_eq_forM, List.forM_cons, bind_eq_ok, exists_unit, ih, List.forall_mem_cons]

theorem mapM_eq_ok {f : α → Except ε β} {l : List α} {bs : List β} :
    l.mapM f = .ok bs ↔ l.map f = bs.map .ok := by
  induction l generalizing bs with
  | nil => rw [List.mapM_nil, pure_eq_ok, List.map_nil, List.nil_eq, List.nil_eq, List.map_eq_nil_iff]
  | cons a l ih =>
    simp only [List.mapM_cons, bind_eq_ok, pure_eq_ok, ih]
    cases bs with
    | nil => simp
    | cons b bs =>
      rw [List.map_cons, List.map_cons, List.cons.injEq]
      constructor
      · rintro ⟨b', hb, bs', hbs, he⟩
        obtain ⟨rfl, rfl⟩ := List.cons.inj he
        exact ⟨hb, hbs⟩
      · rintro ⟨hb, hbs⟩
        exact ⟨b, hb, bs, hbs, rfl⟩

theorem mem_of_mapM {f : α → Except ε β} {l : List α} {bs : List β} (h : l.mapM f = .ok bs)
    {a : α} {b : β} (ha : a ∈ l) (hb : f a = .ok b) : b ∈ bs := by
  have hmem : f a ∈ bs.map .ok := mapM_eq_ok.mp h ▸ List.mem_map_of_mem ha
  obtain ⟨b', hb', he⟩ := List.mem_map.mp hmem
  rw [hb] at he
  exact Except.ok.inj he ▸ hb'

theorem of_mem_mapM {f : α → Except ε β} {l : List α} {bs : List β} (h : l.mapM f = .ok bs)
    {b : β} (hb : b ∈ bs) : ∃ a ∈ l, f a = .ok b := by
  have hmem : .ok b ∈ l.map f := mapM_eq_ok.mp h ▸ List.mem_map_of_mem hb
  exact List.mem_map.mp hmem

/-- What a loop comes to before it is stopped, each with the state it is in then. -/
def visited (f : β → α → Except ε β) : β → List α → List (β × α)
  | _, [] => []
  | s, a :: l =>
    (s, a) ::
      match f s a with
      | .error _ => []
      | .ok s' => visited f s' l

theorem mem_of_mem_visited {f : β → α → Except ε β} {l : List α} {b : β} {p : β × α}
    (h : p ∈ visited f b l) : p.2 ∈ l := by
  induction l generalizing b with
  | nil => cases h
  | cons a l ih =>
    rw [visited, List.mem_cons] at h
    obtain rfl | h := h
    · exact List.mem_cons_self
    · cases hf : f b a with
      | error e => simp [hf] at h
      | ok s =>
        rw [hf] at h
        exact List.mem_cons_of_mem a (ih h)

/-- A loop that is stopped came to the step that stopped it. -/
theorem foldlM_error {f : β → α → Except ε β} {l : List α} {b : β} {e : ε}
    (h : l.foldlM f b = .error e) : ∃ p ∈ visited f b l, f p.1 p.2 = .error e := by
  induction l generalizing b with
  | nil => cases h
  | cons a l ih =>
    rw [List.foldlM_cons, bind_eq_error] at h
    rw [visited]
    obtain h | ⟨s, hs, h⟩ := h
    · exact ⟨(b, a), List.mem_cons_self, h⟩
    · obtain ⟨p, hp, h⟩ := ih h
      rw [hs]
      exact ⟨p, List.mem_cons_of_mem _ hp, h⟩

/-- What a loop over independent elements comes to before it is stopped. -/
def attempted (f : α → Except ε β) : List α → List α
  | [] => []
  | a :: l =>
    a ::
      match f a with
      | .error _ => []
      | .ok _ => attempted f l

theorem mem_of_mem_attempted {f : α → Except ε β} {l : List α} {a : α} (h : a ∈ attempted f l) :
    a ∈ l := by
  induction l with
  | nil => cases h
  | cons x l ih =>
    rw [attempted, List.mem_cons] at h
    obtain rfl | h := h
    · exact List.mem_cons_self
    · cases hf : f x with
      | error e => simp [hf] at h
      | ok b =>
        rw [hf] at h
        exact List.mem_cons_of_mem x (ih h)

theorem mapM_error {f : α → Except ε β} {l : List α} {e : ε} (h : l.mapM f = .error e) :
    ∃ a ∈ attempted f l, f a = .error e := by
  induction l with
  | nil => cases h
  | cons a l ih =>
    rw [List.mapM_cons, bind_eq_error] at h
    rw [attempted]
    obtain h | ⟨b, hb, h⟩ := h
    · exact ⟨a, List.mem_cons_self, h⟩
    · obtain h | ⟨bs, -, h⟩ := bind_eq_error.mp h
      · obtain ⟨c, hc, h⟩ := ih h
        rw [hb]
        exact ⟨c, List.mem_cons_of_mem a hc, h⟩
      · cases h

theorem mapM_first_error {f : α → Except ε β} {l l' : List α} {a : α} {e : ε}
    (hl : ∀ x ∈ l, ∃ b, f x = .ok b) (ha : f a = .error e) : (l ++ a :: l').mapM f = .error e := by
  induction l with
  | nil =>
    rw [List.nil_append, List.mapM_cons, ha]
    rfl
  | cons x l ih =>
    obtain ⟨b, hb⟩ := hl x List.mem_cons_self
    rw [List.cons_append, List.mapM_cons, hb, ih (fun y hy => hl y (List.mem_cons_of_mem x hy))]
    rfl

theorem foldlM_mem {f : β → α → Except ε β} {l : List α} {b b' : β} (h : l.foldlM f b = .ok b')
    {a : α} (ha : a ∈ l) : ∃ s s', f s a = .ok s' := by
  have hall : ∀ x ∈ l, ∃ s s', f s x = .ok s' := by
    apply foldlM_invariant (fun done _ => ∀ x ∈ done, ∃ s s', f s x = .ok s') h
    · simp
    · intro done x s s' _ hd hf y hy
      obtain hy | hy := List.mem_append.mp hy
      · exact hd y hy
      · rw [List.mem_singleton.mp hy]
        exact ⟨s, s', hf⟩
  exact hall a ha

end HeteroCluster.FailFast
