import Mathlib.Data.List.Basic

/-!
# Comparing byte ranges

`memcmp` and `strncmp` over the bytes of two ranges. Both stop at the first byte
that differs; `strncmp` also stops at a zero byte that the ranges share. So the
first decides whether the ranges are equal, and the second only whether they are
equal as C strings.
-/

namespace ByteCompare

/-- `memcmp` of the first `n` bytes; zero when no byte differs. -/
def memcmp : Nat → List UInt8 → List UInt8 → Int
  | n + 1, a :: as, b :: bs => if a = b then memcmp n as bs else a.toNat - b.toNat
  | _, _, _ => 0

/-- `strncmp` of at most `n` bytes; a common zero byte ends the comparison. -/
def strncmp : Nat → List UInt8 → List UInt8 → Int
  | n + 1, a :: as, b :: bs =>
      if a ≠ b then a.toNat - b.toNat
      else if a = 0 then 0
      else strncmp n as bs
  | _, _, _ => 0

def cString (bytes : List UInt8) : List UInt8 := bytes.takeWhile (· ≠ 0)

variable {n : Nat} {a b : UInt8} {as bs : List UInt8}

@[simp] theorem cString_nil : cString [] = [] := rfl

@[simp] theorem cString_zero_cons (bytes : List UInt8) : cString (0 :: bytes) = [] := rfl

theorem cString_cons (h : a ≠ 0) (bytes : List UInt8) :
    cString (a :: bytes) = a :: cString bytes := by
  simp [cString, h]

theorem toNat_sub_ne_zero (h : a ≠ b) : (a.toNat - b.toNat : Int) ≠ 0 := by
  intro hzero
  apply h
  apply UInt8.toNat_inj.mp
  omega

/-- `memcmp` reports zero exactly on equal ranges. -/
theorem memcmp_eq_zero_iff (ha : as.length = n) (hb : bs.length = n) :
    memcmp n as bs = 0 ↔ as = bs := by
  induction n generalizing as bs with
  | zero =>
      rw [List.length_eq_zero_iff.mp ha, List.length_eq_zero_iff.mp hb]
      simp [memcmp]
  | succ n ih =>
      obtain ⟨a, as, rfl⟩ := List.exists_cons_of_length_eq_add_one ha
      obtain ⟨b, bs, rfl⟩ := List.exists_cons_of_length_eq_add_one hb
      rw [memcmp]
      by_cases h : a = b
      · rw [if_pos h, ih (by simpa using ha) (by simpa using hb)]
        simp [h]
      · rw [if_neg h]
        simp [h, toNat_sub_ne_zero h]

/-- `strncmp` reports zero exactly on ranges that agree before their first zero. -/
theorem strncmp_eq_zero_iff (ha : as.length = n) (hb : bs.length = n) :
    strncmp n as bs = 0 ↔ cString as = cString bs := by
  induction n generalizing as bs with
  | zero =>
      rw [List.length_eq_zero_iff.mp ha, List.length_eq_zero_iff.mp hb]
      simp [strncmp]
  | succ n ih =>
      obtain ⟨a, as, rfl⟩ := List.exists_cons_of_length_eq_add_one ha
      obtain ⟨b, bs, rfl⟩ := List.exists_cons_of_length_eq_add_one hb
      rw [strncmp]
      by_cases h : a = b
      · subst h
        rw [if_neg (by simp)]
        by_cases hzero : a = 0
        · subst hzero
          simp
        · rw [if_neg hzero, ih (by simpa using ha) (by simpa using hb), cString_cons hzero,
            cString_cons hzero]
          simp
      · rw [if_pos h]
        -- At most one of the two differing bytes is zero, so the strings part here.
        have hne : cString (a :: as) ≠ cString (b :: bs) := by
          intro heq
          by_cases hzero : a = 0
          · subst hzero
            rw [cString_cons (Ne.symm h)] at heq
            exact List.cons_ne_nil _ _ heq.symm
          · by_cases hzero' : b = 0
            · subst hzero'
              rw [cString_cons hzero] at heq
              exact List.cons_ne_nil _ _ heq
            · rw [cString_cons hzero, cString_cons hzero'] at heq
              exact h (List.cons.inj heq).1
        exact iff_of_false (toNat_sub_ne_zero h) hne

end ByteCompare
