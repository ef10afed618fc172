import Mathlib.Data.List.Basic
import Mathlib.Data.Nat.ModEq

namespace HeteroCluster.CircularSlots

variable {β : Type}

abbrev Memory (β : Type) := Nat → β

def load (mem : Memory β) (start n : Nat) : List β := (List.range n).map (fun i => mem (start + i))

def store (mem : Memory β) (start : Nat) (data : List β) : Memory β :=
  fun a => if a < start then mem a else (data[a - start]?).getD (mem a)

/-- The memory holds a segment of a stream, as far as the stream goes. -/
def Holds (mem : Memory β) (start : Nat) (stream : List β) (first n : Nat) : Prop :=
  ∀ i < n, stream[first + i]? = some (mem (start + i))

variable {mem : Memory β} {start first n m : Nat} {stream data : List β}

theorem store_outside {a : Nat} (h : a < start ∨ start + data.length ≤ a) :
    store mem start data a = mem a := by
  unfold store
  split
  · rfl
  · rw [List.getElem?_eq_none (by omega), Option.getD_none]

theorem store_inside {i : Nat} (h : i < data.length) :
    data[i]? = some (store mem start data (start + i)) := by
  have hi : start + i - start = i := by omega
  unfold store
  rw [if_neg (by omega), hi, List.getElem?_eq_getElem h, Option.getD_some]

theorem Holds.append (h : Holds mem start stream first n) (more : List β) :
    Holds mem start (stream ++ more) first n := by
  intro i hi
  have hs := h i hi
  rw [List.getElem?_append_left (List.getElem?_eq_some_iff.mp hs).1]
  exact hs

theorem Holds.segment {k : Nat} (h : Holds mem start stream first n) (hk : k + m ≤ n) :
    Holds mem (start + k) stream (first + k) m := by
  intro i hi
  rw [Nat.add_assoc, Nat.add_assoc]
  exact h (k + i) (by omega)

theorem Holds.store_apart {other : Nat} (h : Holds mem start stream first n)
    (ha : ∀ i < n, start + i < other ∨ other + data.length ≤ start + i) :
    Holds (store mem other data) start stream first n := by
  intro i hi
  rw [store_outside (ha i hi)]
  exact h i hi

theorem Holds.store_next (h : Holds mem start stream first n)
    (hd : ∀ i < data.length, stream[first + n + i]? = data[i]?) :
    Holds (store mem (start + n) data) start stream first (n + data.length) := by
  intro i hi
  by_cases hlt : i < n
  · rw [store_outside (.inl (by omega))]
    exact h i hlt
  · have hi' : i - n < data.length := by omega
    have hin : data[i - n]? = some (store mem (start + n) data (start + n + (i - n))) :=
      store_inside hi'
    have e1 : first + n + (i - n) = first + i := by omega
    have e2 : start + n + (i - n) = start + i := by omega
    rw [e2, ← hd (i - n) hi', e1] at hin
    exact hin

theorem take_append_load (h : Holds mem start stream first n) :
    stream.take first ++ load mem start n = stream.take (first + n) := by
  induction n with
  | zero => simp [load]
  | succ n ih =>
    have hn := ih (fun i hi => h i (by omega))
    have hlast := h n (by omega)
    rw [load, List.range_succ, List.map_append, ← List.append_assoc]
    rw [load] at hn
    rw [hn, ← Nat.add_assoc, List.take_add_one, hlast]
    rfl

theorem mod_ne_of_lt {slots a b : Nat} (hab : a < b) (hb : b < a + slots) : a % slots ≠ b % slots := by
  intro h
  have hdvd : slots ∣ b - a := (Nat.modEq_iff_dvd' (by omega)).mp h
  have hle := Nat.le_of_dvd (by omega) hdvd
  omega

theorem slots_apart {size p q x len y : Nat} (hpq : p ≠ q) (hx : x + len ≤ size) (hy : y < size) :
    q * size + y < p * size + x ∨ p * size + x + len ≤ q * size + y := by
  obtain hlt | hlt := Nat.lt_or_gt_of_ne hpq
  · have hmul := Nat.mul_le_mul_right size hlt
    rw [Nat.succ_mul] at hmul
    omega
  · have hmul := Nat.mul_le_mul_right size hlt
    rw [Nat.succ_mul] at hmul
    omega

end HeteroCluster.CircularSlots
