import Mathlib.Data.List.Basic

/-!
# Decimal numbers as bytes

The bytes of a decimal numeral are digits, with a minus sign in front of a negative
one, so a numeral never contains a separator byte and ends where a separator
follows. `append_cons_inj` reads such a field from the left, `append_cons_inj_right`
from the right.
-/

namespace Decimal

open List

def utf8 (s : String) : List UInt8 := s.toUTF8.toList

theorem toList_byteArray (bytes : ByteArray) : bytes.toList = bytes.data.toList := by
  have hloop : ∀ (i : Nat) (r : List UInt8),
      ByteArray.toList.loop bytes i r = r.reverse ++ bytes.data.toList.drop i := by
    intro i r
    fun_induction ByteArray.toList.loop bytes i r with
    | case1 i r hi ih =>
        rw [ih, reverse_cons, append_assoc, singleton_append]
        congr 1
        have hlt : i < bytes.data.toList.length := by simpa using hi
        rw [drop_eq_getElem_cons hlt]
        congr 1
        exact getElem!_pos bytes.data i hi
    | case2 i r hi =>
        rw [drop_eq_nil_of_le (by simpa using hi), append_nil]
  exact hloop 0 []

theorem utf8_eq_flatMap (s : String) : utf8 s = s.toList.flatMap String.utf8EncodeChar := by
  rw [utf8, toList_byteArray, String.toUTF8_eq_toByteArray, ← String.utf8Encode_toList,
    List.utf8Encode, toList_data_toByteArray]

theorem utf8_inj {s t : String} : utf8 s = utf8 t ↔ s = t := by
  constructor
  · intro h
    rw [utf8, utf8, toList_byteArray, toList_byteArray] at h
    exact String.toByteArray_inj.mp (ByteArray.ext (Array.toList_inj.mp h))
  · rintro rfl
    rfl

theorem ne_of_mem_utf8 {s : String} {sep : UInt8} (hsep : 0x3a ≤ sep.toNat)
    (hchars : ∀ c ∈ s.toList, c.isDigit ∨ c = '-') : sep ∉ utf8 s := by
  rw [utf8_eq_flatMap, mem_flatMap]
  rintro ⟨c, hc, hmem⟩
  have hcode : c.toNat ≤ 57 := by
    rcases hchars c hc with hdigit | rfl
    · exact (Char.isDigit_iff_toNat.mp hdigit).2
    · decide
  have hone : c.utf8Size = 1 := by
    rw [Char.utf8Size_eq_one_iff]
    exact Nat.le_trans hcode (by decide)
  rw [String.utf8EncodeChar_eq_singleton hone, mem_singleton] at hmem
  have hbyte : sep.toNat = c.toNat % 2 ^ 8 := by
    rw [hmem]
    exact UInt32.toNat_toUInt8 c.val
  omega

theorem isDigit_of_mem_toString {n : Nat} {c : Char} (hc : c ∈ (toString n).toList) :
    c.isDigit := by
  have hmem : c ∈ n.repr.toList := hc
  rw [Nat.toList_repr] at hmem
  exact Nat.isDigit_of_mem_toDigits (by decide) (by decide) hmem

theorem isDigit_of_mem_toString_int {i : Int} {c : Char} (hc : c ∈ (toString i).toList) :
    c.isDigit ∨ c = '-' := by
  rw [Int.toString_eq_repr, Int.repr_eq_if] at hc
  split at hc
  · exact .inl (isDigit_of_mem_toString hc)
  · rw [String.toList_append, mem_append] at hc
    rcases hc with hc | hc
    · exact .inr (by simpa using hc)
    · exact .inl (isDigit_of_mem_toString hc)

theorem toString_inj {n m : Nat} (h : toString n = toString m) : n = m := by
  have hdigits : Nat.toDigits 10 n = Nat.toDigits 10 m := by
    rw [← Nat.toList_repr, ← Nat.toList_repr]
    exact congrArg String.toList h
  rw [← Nat.ofDigitChars_ten_toDigits (n := n), hdigits, Nat.ofDigitChars_ten_toDigits]

theorem toString_ne_minus_append {n : Nat} {s : String} : toString n ≠ "-" ++ s := by
  intro h
  have hmem : '-' ∈ (toString n).toList := by
    rw [h, String.toList_append]
    exact mem_append_left _ (by decide)
  exact absurd (isDigit_of_mem_toString hmem) (by decide)

/-- A decimal numeral determines its number. -/
theorem toString_int_inj {i j : Int} (h : toString i = toString j) : i = j := by
  rw [Int.toString_eq_repr, Int.toString_eq_repr, Int.repr_eq_if, Int.repr_eq_if] at h
  split at h
  · split at h
    · have := toString_inj h
      omega
    · exact absurd h toString_ne_minus_append
  · split at h
    · exact absurd h.symm toString_ne_minus_append
    · have hrest : ∀ s t : String, "-" ++ s = "-" ++ t → s = t := by
        intro s t hst
        have hlist := congrArg String.toList hst
        rw [String.toList_append, String.toList_append] at hlist
        exact String.toList_inj.mp (append_cancel_left hlist)
      have := toString_inj (hrest _ _ h)
      omega

/-- A text is cut at its first separator in one way. -/
theorem append_cons_inj {α : Type*} {sep : α} {xs ys rest rest' : List α} (hx : sep ∉ xs)
    (hy : sep ∉ ys) (h : xs ++ sep :: rest = ys ++ sep :: rest') : xs = ys ∧ rest = rest' := by
  induction xs generalizing ys with
  | nil =>
      cases ys with
      | nil => exact ⟨rfl, by simpa using h⟩
      | cons y ys =>
          have hhead : sep = y := (List.cons.inj h).1
          exact absurd mem_cons_self (hhead ▸ hy)
  | cons x xs ih =>
      cases ys with
      | nil =>
          have hhead : x = sep := (List.cons.inj h).1
          exact absurd mem_cons_self (hhead ▸ hx)
      | cons y ys =>
          obtain ⟨rfl, htail⟩ := List.cons.inj h
          obtain ⟨rfl, hrest⟩ := ih (fun hm => hx (mem_cons_of_mem _ hm))
            (fun hm => hy (mem_cons_of_mem _ hm)) htail
          exact ⟨rfl, hrest⟩

theorem append_cons_inj_right {α : Type*} {sep : α} {xs ys rest rest' : List α} (hx : sep ∉ xs)
    (hy : sep ∉ ys) (h : rest ++ sep :: xs = rest' ++ sep :: ys) : rest = rest' ∧ xs = ys := by
  have hreverse := congrArg List.reverse h
  simp only [reverse_append, reverse_cons, append_assoc] at hreverse
  obtain ⟨hlast, hfirst⟩ := append_cons_inj (by simpa using hx) (by simpa using hy) hreverse
  exact ⟨reverse_injective hfirst, reverse_injective hlast⟩

end Decimal
