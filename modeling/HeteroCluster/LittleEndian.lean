import Mathlib.Data.List.TakeDrop
import Mathlib.Tactic.Ring

namespace HeteroCluster.LittleEndian

variable {b : UInt8} {bs data bytes : List UInt8} {n w offset other length : Nat}

section Numbers

def ofBytes : List UInt8 → Nat
  | [] => 0
  | b :: bs => b.toNat + 256 * ofBytes bs

def toBytes : Nat → Nat → List UInt8
  | 0, _ => []
  | w + 1, n => UInt8.ofNat n :: toBytes w (n / 256)

theorem length_toBytes (w n : Nat) : (toBytes w n).length = w := by
  induction w generalizing n with
  | zero => rfl
  | succ w ih => rw [toBytes, List.length_cons, ih]

theorem ofBytes_lt (bs : List UInt8) : ofBytes bs < 256 ^ bs.length := by
  induction bs with
  | nil => decide
  | cons b bs ih =>
    have hb := b.toNat_lt
    rw [ofBytes, List.length_cons, pow_succ]
    omega

theorem ofBytes_toBytes (w n : Nat) : ofBytes (toBytes w n) = n % 256 ^ w := by
  induction w generalizing n with
  | zero => rw [pow_zero, Nat.mod_one, toBytes, ofBytes]
  | succ w ih =>
    have hbyte : (UInt8.ofNat n).toNat = n % 256 := UInt8.toNat_ofNat'
    rw [toBytes, ofBytes, ih, hbyte, pow_succ', Nat.mod_mul]

theorem ofBytes_append (bs cs : List UInt8) :
    ofBytes (bs ++ cs) = ofBytes bs + 256 ^ bs.length * ofBytes cs := by
  induction bs with
  | nil => simp [ofBytes]
  | cons b bs ih =>
    rw [List.cons_append, ofBytes, ofBytes, ih, List.length_cons]
    ring

theorem ofBytes_or (bs : List UInt8) (b : UInt8) :
    ofBytes bs ||| b.toNat <<< (8 * bs.length) = ofBytes (bs ++ [b]) := by
  have hlt : ofBytes bs < 2 ^ (8 * bs.length) := by
    rw [pow_mul]
    exact ofBytes_lt bs
  rw [Nat.or_comm, ← Nat.shiftLeft_add_eq_or_of_lt hlt, Nat.shiftLeft_eq, ofBytes_append, pow_mul]
  simp only [ofBytes]
  ring

end Numbers

section Fields

def field (data : List UInt8) (offset length : Nat) : List UInt8 := (data.drop offset).take length

def write (data : List UInt8) (offset : Nat) (bytes : List UInt8) : List UInt8 :=
  data.take offset ++ bytes ++ data.drop (offset + bytes.length)

theorem length_field (h : offset + length ≤ data.length) :
    (field data offset length).length = length := by
  rw [field, List.length_take, List.length_drop]
  omega

theorem field_succ (h : offset + n < data.length) :
    field data offset (n + 1) = field data offset n ++ [data.getD (offset + n) 0] := by
  have hget : (data.drop offset)[n]? = some (data.getD (offset + n) 0) := by
    rw [List.getElem?_drop, List.getD_eq_getElem?_getD, List.getElem?_eq_getElem h]
    rfl
  rw [field, List.take_add_one, hget]
  rfl

theorem length_write (h : offset + bytes.length ≤ data.length) :
    (write data offset bytes).length = data.length := by
  simp only [write, List.length_append, List.length_take, List.length_drop]
  omega

theorem field_write (h : offset + bytes.length ≤ data.length) :
    field (write data offset bytes) offset bytes.length = bytes := by
  have hlen : (data.take offset).length = offset := by
    rw [List.length_take]
    omega
  rw [field, write, List.append_assoc, List.drop_left' hlen, List.take_left]

theorem field_write_of_apart (h : offset + bytes.length ≤ data.length)
    (hapart : other + length ≤ offset ∨ offset + bytes.length ≤ other) :
    field (write data offset bytes) other length = field data other length := by
  apply List.ext_getElem?
  intro i
  simp only [field, write, List.getElem?_take, List.getElem?_drop]
  by_cases hi : i < length
  · rw [if_pos hi, if_pos hi]
    have hlen : (data.take offset).length = offset := by
      rw [List.length_take]
      omega
    obtain hbefore | hafter := hapart
    · rw [List.append_assoc, List.getElem?_append_left (by omega),
        List.getElem?_take_of_lt (by omega)]
    · rw [List.getElem?_append_right (by rw [List.length_append, hlen]; omega), List.getElem?_drop,
        List.length_append, hlen]
      congr 1
      omega
  · rw [if_neg hi, if_neg hi]

def writeAll (data : List UInt8) (writes : List (Nat × List UInt8)) : List UInt8 :=
  writes.foldl (fun data w => write data w.1 w.2) data

def Apart (v w : Nat × List UInt8) : Prop :=
  v.1 + v.2.length ≤ w.1 ∨ w.1 + w.2.length ≤ v.1

variable {w : Nat × List UInt8} {writes : List (Nat × List UInt8)}

theorem length_writeAll (h : ∀ w ∈ writes, w.1 + w.2.length ≤ data.length) :
    (writeAll data writes).length = data.length := by
  induction writes generalizing data with
  | nil => rfl
  | cons w writes ih =>
    obtain ⟨hw, h⟩ := List.forall_mem_cons.mp h
    have hlen := length_write hw
    rw [writeAll, List.foldl_cons, ← writeAll, ih (by rwa [hlen]), hlen]

theorem field_writeAll_of_apart (h : ∀ w ∈ writes, w.1 + w.2.length ≤ data.length)
    (hapart : ∀ w ∈ writes, other + length ≤ w.1 ∨ w.1 + w.2.length ≤ other) :
    field (writeAll data writes) other length = field data other length := by
  induction writes generalizing data with
  | nil => rfl
  | cons w writes ih =>
    obtain ⟨hw, h⟩ := List.forall_mem_cons.mp h
    obtain ⟨haw, hapart⟩ := List.forall_mem_cons.mp hapart
    rw [writeAll, List.foldl_cons, ← writeAll, ih (by rwa [length_write hw]) hapart,
      field_write_of_apart hw haw]

theorem field_writeAll (h : ∀ w ∈ writes, w.1 + w.2.length ≤ data.length)
    (hapart : writes.Pairwise Apart) (hw : w ∈ writes) :
    field (writeAll data writes) w.1 w.2.length = w.2 := by
  induction writes generalizing data with
  | nil => cases hw
  | cons v writes ih =>
    obtain ⟨hv, h⟩ := List.forall_mem_cons.mp h
    obtain ⟨hfirst, hapart⟩ := List.pairwise_cons.mp hapart
    have hlen := length_write hv
    rw [writeAll, List.foldl_cons, ← writeAll]
    obtain rfl | hw := List.mem_cons.mp hw
    · rw [field_writeAll_of_apart (by rwa [hlen]) hfirst, field_write hv]
    · exact ih (by rwa [hlen]) hapart hw

end Fields

end HeteroCluster.LittleEndian
