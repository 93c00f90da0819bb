import Mathlib.Data.List.Basic

/-!
# A list cut into parts

Parts of a list are handled through their cut points: what is in front of a part, and what
a stretch of parts spells.
-/

namespace Parts

open List

variable {α : Type*} {parts : List (List α)} {i j n : Nat}

def span (parts : List (List α)) (i n : Nat) : List α := ((parts.drop i).take n).flatten

def upTo (parts : List (List α)) (i : Nat) : List α := (parts.take i).flatten

@[simp] theorem upTo_zero : upTo parts 0 = [] := rfl

@[simp] theorem upTo_length : upTo parts parts.length = parts.flatten := by
  rw [upTo, take_length]

theorem upTo_add : upTo parts (i + n) = upTo parts i ++ span parts i n := by
  rw [upTo, upTo, span, ← flatten_append, take_add]

theorem span_unique {mid : List α} (h : upTo parts (i + n) = upTo parts i ++ mid) :
    span parts i n = mid := by
  rw [upTo_add] at h
  exact append_cancel_left h

theorem upTo_isPrefix (parts : List (List α)) (i : Nat) : upTo parts i <+: parts.flatten := by
  refine ⟨(parts.drop i).flatten, ?_⟩
  rw [upTo, ← flatten_append, take_append_drop]

@[simp] theorem span_one (hi : i < parts.length) : span parts i 1 = parts[i] := by
  rw [span, drop_eq_getElem_cons hi, take_succ_cons, take_zero, flatten_cons,
    flatten_nil, append_nil]

/-- Some parts in a row, cut out of the whole. -/
theorem extract_span :
    (parts.flatten.drop (upTo parts i).length).take
      ((upTo parts (i + n)).length - (upTo parts i).length) = span parts i n := by
  obtain ⟨back, hback⟩ := upTo_isPrefix parts (i + n)
  rw [← hback, upTo_add, append_assoc, drop_left, length_append,
    Nat.add_sub_cancel_left, take_left]

theorem length_upTo_le (h : i ≤ j) : (upTo parts i).length ≤ (upTo parts j).length := by
  obtain ⟨n, rfl⟩ := Nat.exists_eq_add_of_le h
  rw [upTo_add, length_append]
  exact Nat.le_add_right _ _

theorem length_upTo_le_flatten : (upTo parts i).length ≤ parts.flatten.length :=
  (upTo_isPrefix parts i).length_le

theorem getElem?_flatten (hi : i < parts.length) {k : Nat} (hk : k < parts[i].length) :
    parts.flatten[(upTo parts i).length + k]? = some parts[i][k] := by
  obtain ⟨back, hback⟩ := upTo_isPrefix parts (i + 1)
  rw [← hback, upTo_add, span_one hi, append_assoc,
    getElem?_append_right (Nat.le_add_right _ _), Nat.add_sub_cancel_left,
    getElem?_append_left hk, getElem?_eq_getElem hk]

end Parts
