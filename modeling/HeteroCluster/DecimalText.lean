import Mathlib.Algebra.GroupWithZero.Nat
import Mathlib.Data.List.Induction

namespace HeteroCluster.DecimalText

variable {c : Char}

theorem isDigit_of_mem_toString {n : Nat} (h : c ∈ (toString n).toList) : c.isDigit = true :=
  Nat.isDigit_of_mem_toDigits (b := 10) (by decide) (by decide)
    (show c ∈ Nat.toDigits 10 n by simpa using h)

theorem toList_negSucc (n : Nat) :
    (toString (Int.negSucc n)).toList = '-' :: (toString (n + 1)).toList := by
  change ("-" ++ toString (n + 1)).toList = _
  simp

theorem of_mem_toString {n : Int} (h : c ∈ (toString n).toList) : c = '-' ∨ c.isDigit = true := by
  cases n with
  | ofNat n => exact .inr (isDigit_of_mem_toString h)
  | negSucc n =>
    rw [toList_negSucc, List.mem_cons] at h
    exact h.imp id isDigit_of_mem_toString

theorem toString_ne_nil (n : Int) : (toString n).toList ≠ [] := by
  cases n with
  | ofNat n =>
    rw [Ne, String.toList_eq_nil_iff]
    exact Nat.repr_ne_empty
  | negSucc n =>
    rw [toList_negSucc]
    exact List.cons_ne_nil _ _

theorem not_mem_toString (hd : c.isDigit = false) (hm : c ≠ '-') (n : Int) :
    c ∉ (toString n).toList := by
  intro h
  obtain rfl | h := of_mem_toString h
  · exact hm rfl
  · rw [hd] at h
    cases h

theorem ofDigitChars_concat (l : List Char) (c : Char) :
    Nat.ofDigitChars 10 (l ++ [c]) 0 = 10 * Nat.ofDigitChars 10 l 0 + (c.toNat - '0'.toNat) := by
  rw [Nat.ofDigitChars_append, Nat.ofDigitChars_cons, Nat.ofDigitChars_nil]

theorem ofDigitChars_lt {l : List Char} (hl : l.all Char.isDigit = true) :
    Nat.ofDigitChars 10 l 0 < 10 ^ l.length := by
  induction l using List.reverseRecOn with
  | nil => decide
  | append_singleton l c ih =>
    rw [List.all_append, Bool.and_eq_true] at hl
    have hc := Char.isDigit_iff_toNat.mp (show c.isDigit = true by simpa using hl.2)
    have hnine : '9'.toNat = '0'.toNat + 9 := rfl
    have hlt := ih hl.1
    rw [ofDigitChars_concat, List.length_append, List.length_singleton, Nat.pow_succ]
    omega

theorem ofDigitChars_dropWhile (l : List Char) :
    Nat.ofDigitChars 10 (l.dropWhile (fun c => c == '0')) 0 = Nat.ofDigitChars 10 l 0 := by
  induction l with
  | nil => rfl
  | cons c l ih =>
    by_cases hc : c = '0'
    · rw [List.dropWhile_cons_of_pos (by simpa using hc), ih, Nat.ofDigitChars_cons, hc]
      rfl
    · rw [List.dropWhile_cons_of_neg (by simpa using hc)]

theorem head?_ne_of_concat {l : List Char} {c d : Char} (h : (l ++ [c]).head? ≠ some d) :
    l.head? ≠ some d := by
  cases l with
  | nil => simp
  | cons x l => exact h

theorem eq_nil_of_ofDigitChars {l : List Char} (hl : l.all Char.isDigit = true)
    (h0 : l.head? ≠ some '0') (h : Nat.ofDigitChars 10 l 0 = 0) : l = [] := by
  induction l using List.reverseRecOn with
  | nil => rfl
  | append_singleton l c ih =>
    rw [List.all_append, Bool.and_eq_true] at hl
    rw [ofDigitChars_concat] at h
    have hnil : l = [] := ih hl.1 (head?_ne_of_concat h0) (by omega)
    have hdigit : '0'.toNat ≤ c.toNat := (Char.isDigit_iff_toNat.mp (by simpa using hl.2)).1
    have hc : c = '0' := Char.toNat_inj.mp (by omega)
    rw [hnil, hc] at h0
    exact absurd rfl h0

theorem ofDigitChars_inj {l l' : List Char} (hl : l.all Char.isDigit = true)
    (hl' : l'.all Char.isDigit = true) (h0 : l.head? ≠ some '0') (h0' : l'.head? ≠ some '0')
    (h : Nat.ofDigitChars 10 l 0 = Nat.ofDigitChars 10 l' 0) : l = l' := by
  induction l using List.reverseRecOn generalizing l' with
  | nil => exact (eq_nil_of_ofDigitChars hl' h0' h.symm).symm
  | append_singleton l c ih =>
    cases l' using List.reverseRecOn with
    | nil => exact eq_nil_of_ofDigitChars hl h0 h
    | append_singleton l' c' =>
      rw [List.all_append, Bool.and_eq_true] at hl hl'
      rw [ofDigitChars_concat, ofDigitChars_concat] at h
      have hc := Char.isDigit_iff_toNat.mp (show c.isDigit = true by simpa using hl.2)
      have hc' := Char.isDigit_iff_toNat.mp (show c'.isDigit = true by simpa using hl'.2)
      have hnine : '9'.toNat = '0'.toNat + 9 := rfl
      have hrest := ih hl.1 hl'.1 (head?_ne_of_concat h0) (head?_ne_of_concat h0') (by omega)
      have hlast : c = c' := Char.toNat_inj.mp (by omega)
      rw [hrest, hlast]

end HeteroCluster.DecimalText
