import Mathlib.Algebra.BigOperators.Group.List.Basic
import Mathlib.Data.Finset.Card
import Mathlib.Data.Finset.Prod
import Mathlib.Data.List.Forall2
import Mathlib.Data.Set.Card
import Mathlib.Order.Interval.Finset.Nat

namespace HeteroCluster.Boxes

section Parts

variable {α β : Type} [DecidableEq α] {items : List β} {part : β → Finset α}

def union (items : List β) (part : β → Finset α) : Finset α :=
  items.foldr (fun a s => part a ∪ s) ∅

theorem mem_union {x : α} : x ∈ union items part ↔ ∃ a ∈ items, x ∈ part a := by
  induction items with
  | nil => simp [union]
  | cons a items ih =>
    have hcons : union (a :: items) part = part a ∪ union items part := rfl
    rw [hcons, Finset.mem_union, ih]
    simp

theorem card_union (h : items.Pairwise (fun a b => Disjoint (part a) (part b))) :
    (union items part).card = (items.map (fun a => (part a).card)).sum := by
  induction items with
  | nil => rfl
  | cons a items ih =>
    obtain ⟨ha, hitems⟩ := List.pairwise_cons.mp h
    have hcons : union (a :: items) part = part a ∪ union items part := rfl
    have hdisj : Disjoint (part a) (union items part) := by
      rw [Finset.disjoint_left]
      intro x hx hu
      obtain ⟨b, hb, hxb⟩ := mem_union.mp hu
      exact Finset.disjoint_left.mp (ha b hb) hx hxb
    rw [hcons, Finset.card_union_of_disjoint hdisj, ih hitems, List.map_cons, List.sum_cons]

/-- Disjoint parts that have together as many elements as the whole cover it,
every element exactly once. -/
theorem existsUnique_part {whole : Finset α} (hsub : ∀ a ∈ items, part a ⊆ whole)
    (hdisj : items.Pairwise (fun a b => Disjoint (part a) (part b)))
    (hcard : (items.map (fun a => (part a).card)).sum = whole.card) {x : α} (hx : x ∈ whole) :
    ∃! j : Fin items.length, x ∈ part (items.get j) := by
  have hunion : union items part = whole := by
    apply Finset.eq_of_subset_of_card_le
    · intro y hy
      obtain ⟨a, ha, hya⟩ := mem_union.mp hy
      exact hsub a ha hya
    · rw [card_union hdisj, hcard]
  rw [← hunion] at hx
  obtain ⟨a, ha, hxa⟩ := mem_union.mp hx
  obtain ⟨j, rfl⟩ := List.get_of_mem ha
  refine ⟨j, hxa, ?_⟩
  intro k hk
  by_contra hne
  obtain hlt | hlt := Nat.lt_or_gt_of_ne (fun h => hne (Fin.ext h))
  · exact Finset.disjoint_left.mp (List.pairwise_iff_get.mp hdisj k j hlt) hk hxa
  · exact Finset.disjoint_left.mp (List.pairwise_iff_get.mp hdisj j k hlt) hxa hk

end Parts

/-- A box of multi-indices: a half-open interval in each dimension. -/
abbrev Box := List (ℕ × ℕ)

def Within (i : List ℕ) (b : Box) : Prop := List.Forall₂ (fun x r => r.1 ≤ x ∧ x < r.2) i b

def points : Box → Finset (List ℕ)
  | [] => {[]}
  | r :: b => (Finset.Ico r.1 r.2 ×ˢ points b).image (fun p => p.1 :: p.2)

def volume (b : Box) : ℕ := (b.map (fun r => r.2 - r.1)).prod

theorem mem_points {i : List ℕ} {b : Box} : i ∈ points b ↔ Within i b := by
  induction b generalizing i with
  | nil => simp [points, Within]
  | cons r b ih =>
    rw [points, Finset.mem_image]
    constructor
    · rintro ⟨⟨x, j⟩, hp, rfl⟩
      obtain ⟨hx, hj⟩ := Finset.mem_product.mp hp
      exact .cons (Finset.mem_Ico.mp hx) (ih.mp hj)
    · intro h
      cases h with
      | cons hx hj =>
        exact ⟨(_, _), Finset.mem_product.mpr ⟨Finset.mem_Ico.mpr hx, ih.mpr hj⟩, rfl⟩

theorem card_points (b : Box) : (points b).card = volume b := by
  induction b with
  | nil => rfl
  | cons r b ih =>
    have hinj : Function.Injective (fun p : ℕ × List ℕ => p.1 :: p.2) := by
      rintro ⟨x, i⟩ ⟨y, j⟩ h
      obtain ⟨rfl, rfl⟩ := List.cons_eq_cons.mp h
      rfl
    rw [points, Finset.card_image_of_injective _ hinj, Finset.card_product, Nat.card_Ico, ih,
      volume, volume, List.map_cons, List.prod_cons]

theorem ncard_within (b : Box) : Set.ncard {i | Within i b} = volume b := by
  have hset : {i | Within i b} = (points b : Set (List ℕ)) := by
    ext i
    exact mem_points.symm
  rw [hset, Set.ncard_coe_finset, card_points]

theorem disjoint_of_apart {a b : Box}
    (h : ∃ p ∈ a.zip b, p.1.2 ≤ p.2.1 ∨ p.2.2 ≤ p.1.1) : Disjoint (points a) (points b) := by
  rw [Finset.disjoint_left]
  intro i ha hb
  rw [mem_points] at ha hb
  induction a generalizing b i with
  | nil => simp at h
  | cons r a ih =>
    cases b with
    | nil => simp at h
    | cons s b =>
      cases ha with
      | @cons x _ i _ hr ha =>
        cases hb with
        | cons hs hb =>
          obtain ⟨p, hp, hapart⟩ := h
          obtain rfl | hp := List.mem_cons.mp hp
          · dsimp only at hapart
            omega
          · exact ih ⟨p, hp, hapart⟩ ha hb

theorem points_subset {a b : Box} (h : List.Forall₂ (fun r s => s.1 ≤ r.1 ∧ r.2 ≤ s.2) a b) :
    points a ⊆ points b := by
  intro i hi
  rw [mem_points] at hi ⊢
  induction h generalizing i with
  | nil => exact hi
  | cons hrs _ ih =>
    cases hi with
    | cons hx hi => exact .cons ⟨hrs.1.trans hx.1, Nat.lt_of_lt_of_le hx.2 hrs.2⟩ (ih hi)

/-- Disjoint boxes inside a box, with volumes that add up to its volume, tile it. -/
theorem existsUnique_box {β : Type} {items : List β} {box : β → Box} {whole : Box}
    (hsub : ∀ a ∈ items, points (box a) ⊆ points whole)
    (hdisj : items.Pairwise (fun a b => Disjoint (points (box a)) (points (box b))))
    (hvolume : (items.map (fun a => volume (box a))).sum = volume whole) {i : List ℕ}
    (hi : Within i whole) : ∃! j : Fin items.length, Within i (box (items.get j)) := by
  have hcard : (items.map (fun a => (points (box a)).card)).sum = (points whole).card := by
    rw [card_points, ← hvolume]
    congr 1
    apply List.map_congr_left
    intro a _
    exact card_points (box a)
  have hunique := existsUnique_part hsub hdisj hcard (mem_points.mpr hi)
  simpa only [mem_points] using hunique

end HeteroCluster.Boxes
