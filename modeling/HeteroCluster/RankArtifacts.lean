import HeteroCluster.AcceptedManifest
import Mathlib.Data.List.Nodup
import Mathlib.Data.List.Perm.Subperm

namespace HeteroCluster.RankArtifacts

open DecimalText GoStrings CheckpointManifest AcceptedManifest

/-- Every rank has one RNG artifact. -/
def OnePerRank (m : Manifest) : Prop :=
  ∀ r, 0 ≤ r → r < m.world.size → ∃! entry, entry ∈ m.state.rng.entries ∧ Denotes entry.1 r

/-- The digits of a key that count: no sign, and no leading zeros. -/
def significant (key : String) : List Char :=
  (unsigned key.toList).dropWhile (fun c => c == '0')

/-- No two keys differ only in a sign or in leading zeros. -/
def Unambiguous (m : Manifest) : Prop :=
  (m.state.rng.entries.map (fun entry => significant entry.1)).Nodup

variable {m : Manifest} {key key' : String} {r r' : Int}

theorem significant_eq_iff (h : Denotes key r) (h' : Denotes key' r') (hr : 0 ≤ r) (hr' : 0 ≤ r') :
    significant key = significant key' ↔ r = r' := by
  obtain ⟨hd, hv⟩ := atoi_eq_some h
  obtain ⟨hd', hv'⟩ := atoi_eq_some h'
  have hdrop : ∀ l : List Char, l.all Char.isDigit = true →
      (l.dropWhile (fun c => c == '0')).all Char.isDigit = true := by
    intro l hl
    rw [List.all_eq_true] at hl ⊢
    intro c hc
    exact hl c ((List.dropWhile_sublist _).subset hc)
  have hhead : ∀ l : List Char, (l.dropWhile (fun c => c == '0')).head? ≠ some '0' := by
    intro l heq
    have hnot := List.head?_dropWhile_not (fun c => c == '0') l
    rw [heq] at hnot
    simp at hnot
  constructor
  · intro heq
    have hvalue := congrArg (fun l => Nat.ofDigitChars 10 l 0) heq
    simp only [significant, ofDigitChars_dropWhile] at hvalue
    omega
  · intro heq
    apply ofDigitChars_inj (hdrop _ hd) (hdrop _ hd') (hhead _) (hhead _)
    rw [ofDigitChars_dropWhile, ofDigitChars_dropWhile, hv, hv', heq]

theorem unambiguous_iff (h : Accepted m) : Unambiguous m ↔
    ∀ entry ∈ m.state.rng.entries, ∀ entry' ∈ m.state.rng.entries, ∀ r,
      Denotes entry.1 r → Denotes entry'.1 r → entry = entry' := by
  have hnodup : m.state.rng.entries.Nodup := List.Nodup.of_map Prod.fst m.state.rng.distinct
  constructor
  · intro hu entry he entry' he' r hr hr'
    obtain ⟨⟨v, hv, hpos, -⟩, -⟩ := h.state.rng entry he
    obtain rfl : r = v := Option.some.inj (hr.symm.trans hv)
    exact List.inj_on_of_nodup_map hu he he' ((significant_eq_iff hr hr' hpos hpos).mpr rfl)
  · intro hone
    apply List.Nodup.map_on _ hnodup
    intro entry he entry' he' heq
    obtain ⟨⟨v, hv, hpos, -⟩, -⟩ := h.state.rng entry he
    obtain ⟨⟨v', hv', hpos', -⟩, -⟩ := h.state.rng entry' he'
    obtain rfl := (significant_eq_iff hv hv' hpos hpos').mp heq
    exact hone entry he entry' he' v hv hv'

def rankOf (entry : String × Artifact) : ℕ := ((atoi entry.1).getD 0).toNat

theorem exists_of_unambiguous (h : Accepted m) (hu : Unambiguous m) (h0 : 0 ≤ r)
    (hr : r < m.world.size) : ∃ entry ∈ m.state.rng.entries, Denotes entry.1 r := by
  have hvalue : ∀ entry ∈ m.state.rng.entries, Denotes entry.1 (rankOf entry : ℕ) ∧
      (rankOf entry : ℕ) < m.world.size.toNat := by
    intro entry he
    obtain ⟨⟨v, hv, hpos, hlt⟩, -⟩ := h.state.rng entry he
    have hrank : ((rankOf entry : ℕ) : Int) = v := by
      rw [rankOf, hv, Option.getD_some, Int.toNat_of_nonneg hpos]
    rw [hrank]
    exact ⟨hv, by omega⟩
  have hnodup : (m.state.rng.entries.map rankOf).Nodup := by
    apply List.Nodup.map_on _ (List.Nodup.of_map Prod.fst m.state.rng.distinct)
    intro entry he entry' he' heq
    have hd := (hvalue entry he).1
    rw [heq] at hd
    exact (unambiguous_iff h).mp hu entry he entry' he' _ hd (hvalue entry' he').1
  have hsub : m.state.rng.entries.map rankOf ⊆ List.range m.world.size.toNat := by
    intro n hn
    obtain ⟨entry, he, rfl⟩ := List.mem_map.mp hn
    exact List.mem_range.mpr (hvalue entry he).2
  have hlen : (List.range m.world.size.toNat).length ≤ (m.state.rng.entries.map rankOf).length := by
    have hlength := h.state.length
    rw [GoMap.len] at hlength
    rw [List.length_range, List.length_map]
    omega
  have hperm := (List.subperm_of_subset hnodup hsub).perm_of_length_le hlen
  have hmem : r.toNat ∈ m.state.rng.entries.map rankOf :=
    hperm.mem_iff.mpr (List.mem_range.mpr (by omega))
  obtain ⟨entry, he, hrank⟩ := List.mem_map.mp hmem
  refine ⟨entry, he, ?_⟩
  have hd := (hvalue entry he).1
  rwa [hrank, Int.toNat_of_nonneg h0] at hd

/-- An accepted manifest has one RNG artifact for each rank exactly if its keys
spell different numbers. -/
theorem one_per_rank_iff {parseTime : String → Except String Unit}
    (h : m.validate parseTime = .ok ()) : OnePerRank m ↔ Unambiguous m := by
  have ha := manifest_accepted h
  constructor
  · intro hone
    rw [unambiguous_iff ha]
    intro entry he entry' he' r hr hr'
    obtain ⟨⟨v, hv, hpos, hlt⟩, -⟩ := ha.state.rng entry he
    obtain rfl : r = v := Option.some.inj (hr.symm.trans hv)
    exact (hone r hpos hlt).unique ⟨he, hr⟩ ⟨he', hr'⟩
  · intro hu r h0 hr
    obtain ⟨entry, he, hd⟩ := exists_of_unambiguous ha hu h0 hr
    refine ⟨entry, ⟨he, hd⟩, ?_⟩
    rintro entry' ⟨he', hd'⟩
    exact (unambiguous_iff ha).mp hu entry' he' entry he r hd' hd

def twoRanks (a b : String) (h : a ≠ b) : Manifest :=
  let m := singleRank ⟨[("w", ⟨"model_parameter", [1], "int8", "little", "C", none,
    [⟨"w", "w.bin", [(0, 1)], [1], 0, 1, zeroHash, 0⟩]⟩)], List.nodup_singleton _⟩ 1
    ⟨"optimizer_state.json", 1, zeroHash⟩ ⟨"rng/0.bin", 1, zeroHash⟩
  { m with
    world := ⟨2, [⟨0, "cpu", "cpu"⟩, ⟨1, "cpu", "cpu"⟩]⟩
    state := { m.state with rng := ⟨[(a, ⟨"rng/a.bin", 1, zeroHash⟩), (b, ⟨"rng/b.bin", 1, zeroHash⟩)],
      by simpa using h⟩ } }

theorem one_per_rank_twoRanks :
    (twoRanks "0" "01" (by decide)).validate (fun _ => .ok ()) = .ok () ∧
      OnePerRank (twoRanks "0" "01" (by decide)) := by
  have hvalid : (twoRanks "0" "01" (by decide)).validate (fun _ => .ok ()) = .ok () := by
    decide +kernel
  have hu : Unambiguous (twoRanks "0" "01" (by decide)) := by
    unfold Unambiguous
    decide +kernel
  exact ⟨hvalid, (one_per_rank_iff hvalid).mpr hu⟩

/-- Two spellings of rank 0 pass for the artifacts of two ranks. -/
theorem rank_without_artifact :
    (twoRanks "0" "+00" (by decide)).validate (fun _ => .ok ()) = .ok () ∧
      ¬ OnePerRank (twoRanks "0" "+00" (by decide)) ∧
      ∀ entry ∈ (twoRanks "0" "+00" (by decide)).state.rng.entries, Denotes entry.1 0 := by
  have hzero : ∀ entry ∈ (twoRanks "0" "+00" (by decide)).state.rng.entries, Denotes entry.1 0 := by
    unfold Denotes
    decide +kernel
  refine ⟨by decide +kernel, ?_, hzero⟩
  intro hone
  obtain ⟨entry, ⟨he, hd⟩, -⟩ := hone 1 (by decide) (by decide)
  have heq := (hzero entry he).symm.trans hd
  cases heq

end HeteroCluster.RankArtifacts
